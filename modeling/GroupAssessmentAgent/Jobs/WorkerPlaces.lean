import GroupAssessmentAgent.Jobs.Worker
import GroupAssessmentAgent.Lib.Turns

/-!
# The places of the worker

`run_once` works from a list of jobs that it has read at its start, and `execute` from a `Job` object, which for a
transcript is read again. A `WorkerPlace` is a point of that loop with the objects that the worker holds there. `next`
is what it does from a place to the next, and `rest` what is left of the run: from every place the one is the beginning
of the other (`rest_next`), and the whole loop is left at the place where the list has been read (`runOnce_rest`).
-/

namespace GroupAssessmentAgent
open Prog

inductive WorkerPlace where
  /-- These jobs of the list are left. -/
  | waiting (jobs : List Job)
  /-- The job is PROCESSING. -/
  | begun (job : Job) (jobs : List Job)
  /-- What `execute` works on for the listed job is `current`. -/
  | working (job current : Job) (jobs : List Job)
  deriving DecidableEq

/-- The `Job` objects that the worker holds, to work on. -/
def WorkerPlace.objects : WorkerPlace → List Job
  | .waiting jobs => jobs
  | .begun job jobs => job :: jobs
  | .working _ current jobs => current :: jobs

namespace JobWorker
variable [PyChars] (out : Outside) (worker : JobWorker)

/-- The work on a job, once it is PROCESSING and its row has been read. -/
def workOn (job current : Job) : M Unit :=
  if job.operation = "submit_transcript" then
    tryCatch (SubmitTranscript.attempt out worker current) fun e =>
      SubmitTranscript.handleExecuteFailure out worker current (SubmitTranscript.failureReason e)
  else
    tryCatch (AssessQuery.attempt out worker current) fun e =>
      AssessQuery.handleFailure out worker current (AssessQuery.failureReason e)

/-- What `execute` does after its first statement. -/
def afterStart (job : Job) : M Unit :=
  if job.operation = "submit_transcript" then do
    let current ← SubmitTranscript.refreshed worker job
    match current with
    | some current => worker.workOn out job current
    | none => throw ⟨.attributeError, "'NoneType' object has no attribute 'job_id'"⟩
  else worker.workOn out job job

/-- The operations that the worker executes. -/
def Executes (job : Job) : Prop := job.operation = "submit_transcript" ∨ job.operation = "assess_query"

instance (job : Job) : Decidable (Executes job) := inferInstanceAs (Decidable (_ ∨ _))

/-- The way to the next place. An exception ends the work on its job, and no job left means the next run. -/
def next : WorkerPlace → M WorkerPlace
  | .waiting [] => do
    let jobs ← JobStore.listQueued
    return .waiting jobs
  | .waiting (job :: jobs) =>
    if Executes job then
      tryCatch (do
          JobStore.setStatus out job.jobId .processing []
          return .begun job jobs)
        fun _ => return .waiting jobs
    else return .waiting jobs
  | .begun job jobs =>
    if job.operation = "submit_transcript" then
      tryCatch (do
          let current ← SubmitTranscript.refreshed worker job
          return (current.map fun current => .working job current jobs).getD (.waiting jobs))
        fun _ => return .waiting jobs
    else return .working job job jobs
  | .working job current jobs => do
    tryCatch (worker.workOn out job current) fun _ => pure ()
    return .waiting jobs

/-- What is left of the run at a place. -/
def rest : WorkerPlace → M Unit
  | .waiting jobs => worker.processAll out jobs
  | .begun job jobs => do
    tryCatch (worker.afterStart out job) fun _ => pure ()
    worker.processAll out jobs
  | .working job current jobs => do
    tryCatch (worker.workOn out job current) fun _ => pure ()
    worker.processAll out jobs

theorem executeJob_eq {job : Job} (h : Executes job) : worker.executeJob out job =
    (JobStore.setStatus out job.jobId .processing []).bind fun _ => worker.afterStart out job := by
  unfold executeJob afterStart workOn
  by_cases hsubmit : job.operation = "submit_transcript"
  · simp only [if_pos hsubmit]
    rfl
  · simp only [if_neg hsubmit, if_pos (h.resolve_left hsubmit)]
    rfl

theorem rest_next {place : WorkerPlace} (hplace : place ≠ .waiting []) :
    worker.rest out place = (worker.next out place).bind (worker.rest out) := by
  cases place with
  | waiting jobs =>
    cases jobs with
    | nil => exact absurd rfl hplace
    | cons job jobs =>
      simp only [next]
      split_ifs with hexecutes
      · show (worker.processJob out job).bind _ = _
        rw [processJob, executeJob_eq out worker hexecutes]
        exact Prog.tryCatch_bind _ (fun _ => rfl) fun _ => rfl
      · have hskip : worker.executeJob out job = ret () := by
          unfold executeJob
          rw [if_neg fun h => hexecutes (.inl h), if_neg fun h => hexecutes (.inr h)]
          rfl
        show (worker.processJob out job).bind _ = _
        rw [processJob, hskip]
        rfl
  | begun job jobs =>
    simp only [next, rest, afterStart]
    split_ifs
    · refine Prog.tryCatch_bind _ (fun current => ?_) fun _ => rfl
      cases current <;> rfl
    · rfl
  | working job current jobs =>
    simp only [next, rest, bind_eq, Prog.bind_assoc]
    rfl

theorem runOnce_rest : worker.runOnce out = (JobStore.listQueued.bind fun jobs =>
    (worker.rest out (.waiting jobs)).bind fun _ => ret jobs.length) := rfl

end JobWorker

end GroupAssessmentAgent
