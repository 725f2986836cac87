import GroupAssessmentAgent.Handlers.Execute

/-!
# The job worker

`run_once` takes the queued jobs in the order they were created. An exception ends the work on its job, not the loop.
-/

namespace GroupAssessmentAgent
open Prog

namespace JobWorker
variable [PyChars] (out : Outside) (worker : JobWorker)

/-- The handler of the job's operation. -/
def executeJob (job : Job) : M Unit :=
  if job.operation = "submit_transcript" then SubmitTranscript.execute out worker job
  else if job.operation = "assess_query" then AssessQuery.execute out worker job
  else pure ()

/-- `_process_job`. -/
def processJob (job : Job) : M Unit := tryCatch (worker.executeJob out job) fun _ => pure ()

def processAll : List Job → M Unit
  | [] => pure ()
  | job :: jobs => do
    worker.processJob out job
    processAll jobs

def runOnce : M Nat := do
  let jobs ← JobStore.listQueued
  worker.processAll out jobs
  return jobs.length

end JobWorker

/-- A worker whose backends know these groups, and nothing about them. -/
def smallWorker (groups : List GroupSummary) : JobWorker where
  diarisation :=
    { login := fun _ _ => .ok "token", listGroups := fun _ _ => .ok groups, createMeeting := fun _ _ _ _ => .ok 1
      uploadFile := fun _ _ _ _ _ _ => .ok 1, addAttendee := fun _ _ _ _ _ => .ok ()
      resolveAliases := fun _ _ _ _ => .ok [], searchTranscripts := fun _ _ _ _ => .ok [] }
  github := { findRepoByGroupName := fun _ _ => .ok none, query := fun _ _ _ => .ok [] }
  admin := { adminEmail := none }
  storage := { incoming := "in", processing := "work", completed := "done", failed := "failed" }

/-- A question of the owner. -/
def testsQuestion : ValidatedCommand := { operation := .assessQuery, githubFocus := some "Who did the tests?" }

def aliceRequest : Request := ⟨"alice@uni.ac.uk", some "<1@uni.ac.uk>", none⟩

/-- The job it becomes on an empty database. -/
def questionJob : Job :=
  { jobId := "DIAR-2026-0811-0001", senderEmail := "alice@uni.ac.uk", backendUserId := 12,
    sourceMessageId := "<1@uni.ac.uk>", operation := "assess_query", status := .queued,
    githubFocus := some "Who did the tests?", createdAt := 1786406400000001 }

example : (JobStore.listQueued.run
    ((AssessQuery.accept .plain testsQuestion aliceRequest 12 "<1@uni.ac.uk>").run {}).2).1 = .ok [questionJob] := by
  decide +kernel

/-- The job of a transcript that the worker finds. -/
def transcriptJob : Job :=
  { jobId := "DIAR-2026-0811-0001", senderEmail := "alice@uni.ac.uk", backendUserId := 12,
    sourceMessageId := "<1@uni.ac.uk>", operation := "submit_transcript", status := .queued,
    attachmentFilename := some "team.vtt", attachmentStoragePath := some "in/0_team.vtt",
    meetingDate := some "2026-08-10T10:00:00", speakers := ["Alice", "Bob"], createdAt := 1786406400000001 }

/-- The database and the disk it finds it in. -/
def transcriptWorld : World where
  jobs := Table.empty.upsert transcriptJob
  files := Table.empty.upsert ⟨"in/0_team.vtt", [87, 69, 66]⟩

/-- A worker whose backend knows one group, and the speakers as the list says. -/
def aliasWorker (resolved : List (Text × Option Nat)) : JobWorker :=
  let small := smallWorker [⟨7, "Team A"⟩]
  { small with diarisation := { small.diarisation with resolveAliases := fun _ _ _ _ => .ok resolved } }

end GroupAssessmentAgent
