import GroupAssessmentAgent.Admin.Notifier
import GroupAssessmentAgent.Handlers.Base
import GroupAssessmentAgent.Llm.TranscriptSynthesis

/-!
# The work on a queued job

`execute` of the two operations that create jobs, which the worker calls with the row it has listed. A job is
PROCESSING until its group is unknown (NEEDS_CLARIFICATION), the work is done (COMPLETED), or something has failed
(FAILED).
-/

namespace GroupAssessmentAgent
open Prog

namespace Job

/-- `job.in_reply_to_message_id or job.source_message_id`. -/
def parentMessageId (job : Job) : Text := (truthy job.inReplyToMessageId).getD job.sourceMessageId

/-- The reply to the message that the job is from. -/
def request (job : Job) : Request := ⟨job.senderEmail, some job.parentMessageId, some job.parentMessageId⟩

end Job

/-- What the worker works with. -/
structure JobWorker where
  diarisation : DiarisationClient
  github : GithubRaginatorClient
  admin : AdminNotifier
  storage : StorageSettings

section
variable [PyChars] (out : Outside)

/-- What both operations do when the group is not known. -/
def askForGroup (job : Job) (groups : List GroupSummary) (subject : Text) : M Unit := do
  let question := groupClarificationQuestion groups subject
  JobStore.setStatus out job.jobId .needsClarification []
  PendingClarificationStore.put out job.jobId question "group_hint" (groups.map GroupSummary.name)
  job.request.enqueue out (renderClarification question (some job.jobId)) (some job.jobId) []

/-- The sender's groups. -/
def groupsOf (diarisation : DiarisationClient) (job : Job) : M (Text × List GroupSummary) := do
  let token ← callBackend (.login job.backendUserId) fun n => diarisation.login n job.backendUserId
  let groups ← callBackend (.listGroups token) fun n => diarisation.listGroups n token
  return (token, groups)

/-- Mail the sender that the job has failed, and alert the admin. -/
def reportFailure (admin : AdminNotifier) (job : Job) (userReason : Text) (category : AdminCategory)
    (summary reason : Text) : M Unit := do
  job.request.enqueue out (renderFailure userReason (some job.jobId)) (some job.jobId) []
  let _ ← admin.alert out category summary
    [("job_id", job.jobId), ("sender", job.senderEmail), ("reason", reason)]

namespace SubmitTranscript

/-- What the backend holds of a transcript. -/
structure Submitted where
  meetingId : Nat
  rawFileId : Nat
  resolvedAttendees : List Text
  unresolvedSpeakers : List Text

/-- The loop over the resolved speakers: those known to the group become attendees, the others are unresolved. -/
def addAttendees (diarisation : DiarisationClient) (token : Text) (groupId meetingId : Nat) :
    List (Text × Option Nat) → M (List Text × List Text)
  | [] => pure ([], [])
  | (name, some memberId) :: rest => do
    callBackend (.addAttendee token groupId meetingId memberId) fun n =>
      diarisation.addAttendee n token groupId meetingId memberId
    let found ← addAttendees diarisation token groupId meetingId rest
    return (name :: found.1, found.2)
  | (name, none) :: rest => do
    let found ← addAttendees diarisation token groupId meetingId rest
    return (found.1, name :: found.2)

/-- `if job.speakers`. -/
def attendeesOf (diarisation : DiarisationClient) (token : Text) (groupId meetingId : Nat) (speakers : List Text) :
    M (List Text × List Text) := do
  if speakers = [] then
    return ([], [])
  else
    let resolved ← callBackend (.resolveAliases token groupId speakers) fun n =>
      diarisation.resolveAliases n token groupId speakers
    addAttendees diarisation token groupId meetingId resolved

/-- `Path(job.attachment_storage_path).read_bytes()`. -/
def storedContent (job : Job) : M Bytes :=
  match job.attachmentStoragePath with
  | some path => readBytes path
  | none => throw ⟨.typeError, "expected str, bytes or os.PathLike object, not NoneType"⟩

/-- `datetime.fromisoformat(job.meeting_date)`. -/
def meetingDatetime (job : Job) : Except Exc Datetime :=
  match job.meetingDate with
  | some date => out.datetimeFromIso date
  | none => .error ⟨.typeError, "fromisoformat: argument must be str"⟩

/-- The calls that submit the transcript. -/
def submit (diarisation : DiarisationClient) (job : Job) (token : Text) (group : GroupSummary) : M Submitted := do
  let meetingDate ← Prog.ofExcept (meetingDatetime out job)
  let meetingId ← callBackend (.createMeeting token group.id meetingDate) fun n =>
    diarisation.createMeeting n token group.id meetingDate
  let content ← storedContent job
  let rawFileId ← callBackend (.uploadFile token group.id meetingId job.attachmentFilename content) fun n =>
    diarisation.uploadFile n token group.id meetingId job.attachmentFilename content
  let speakers ← attendeesOf diarisation token group.id meetingId job.speakers
  return ⟨meetingId, rawFileId, speakers.1, speakers.2⟩

/-- Move the file of the job to another stage, if it has one. -/
def moveStored (job : Job) (dir : Text) : M Unit :=
  match truthy job.attachmentStoragePath with
  | none => pure ()
  | some path => do
    let moved ← moveTo path dir
    JobStore.update job.jobId [.attachmentStoragePath (some moved)]

/-- What follows once the transcript is submitted. -/
def complete (storage : StorageSettings) (job : Job) (group : GroupSummary) (s : Submitted) : M Unit := do
  JobStore.update job.jobId [.resolvedGroupId (some group.id), .resolvedGroupName (some group.name),
    .backendMeetingId (some s.meetingId), .backendRawFileId (some s.rawFileId),
    .resolvedAttendees s.resolvedAttendees, .unresolvedSpeakers s.unresolvedSpeakers]
  JobStore.setStatus out job.jobId .completed []
  moveStored job storage.completed
  job.request.enqueue out
    (renderCompletion job.jobId group.name (job.meetingDate.getD []) s.resolvedAttendees s.unresolvedSpeakers)
    (some job.jobId) []

/-- The `try` block of `execute`. -/
def attempt (worker : JobWorker) (job : Job) : M Unit := do
  let found ← groupsOf worker.diarisation job
  match matchGroup job.groupHint found.2 with
  | .matched group => do
    let submitted ← submit out worker.diarisation job found.1 group
    complete out worker.storage job group submitted
  | _ => askForGroup out job found.2 "this transcript"

/-- The reason that `_handle_execute_failure` is called with. -/
def failureReason (e : Exc) : Text :=
  if e.kind = .diarisationApiError then e.message else cat ["Unexpected error: ", e.message]

/-- `if job.attachment_storage_path and Path(job.attachment_storage_path).exists()`. -/
def moveFailedFile (storage : StorageSettings) (job : Job) : M Unit :=
  match truthy job.attachmentStoragePath with
  | none => pure ()
  | some path => moveFailed storage job.jobId path

/-- `_handle_execute_failure`. -/
def handleExecuteFailure (worker : JobWorker) (job : Job) (reason : Text) : M Unit := do
  JobStore.setStatus out job.jobId .failed [.error (some reason)]
  moveFailedFile worker.storage job
  reportFailure out worker.admin job
    (cat ["We could not reach the backend system to finish processing your transcript. ",
      "Please try again later, or contact the admin if this continues."])
    .backendSubmissionFailure (cat ["Job ", job.jobId, " failed while submitting to the backend."]) reason

/-- The row of the job, read again where its file has moved. -/
def refreshed (worker : JobWorker) (job : Job) : M (Option Job) :=
  match truthy job.attachmentStoragePath with
  | none => pure (some job)
  | some path => do
    let moved ← moveTo path worker.storage.processing
    JobStore.update job.jobId [.attachmentStoragePath (some moved)]
    JobStore.get job.jobId

def execute (worker : JobWorker) (job : Job) : M Unit := do
  JobStore.setStatus out job.jobId .processing []
  let current ← refreshed worker job
  match current with
  | some job =>
    tryCatch (attempt out worker job) fun e => handleExecuteFailure out worker job (failureReason e)
  -- the `try` block fails on the missing row, and then its handler does
  | none => throw ⟨.attributeError, "'NoneType' object has no attribute 'job_id'"⟩

end SubmitTranscript

namespace AssessQuery

/-- What a source has answered, and the notes on why it has not. -/
abbrev SourceAnswer := Option Text × List Text

/-- The transcript search, if the job has a focus for it. -/
def askTranscripts (worker : JobWorker) (job : Job) (token : Text) (group : GroupSummary) : M SourceAnswer :=
  match truthy job.transcriptFocus with
  | none => pure (none, [])
  | some focus => do
    let answer ← catching [.diarisationApiError] do
      let chunks ← callBackend (.searchTranscripts token group.id focus) fun n =>
        worker.diarisation.searchTranscripts n token group.id focus
      synthesizeTranscriptAnswer out focus chunks
    match answer with
    | .ok answer => return (some answer, [])
    | .error _ => return (none, ["I couldn't check past meeting transcripts right now."])

/-- The foci that go to GitHub-RAGinator. -/
def projectFoci (job : Job) : List Text := [job.githubFocus, job.trelloFocus].filterMap truthy

/-- The query of the repository, if the job has a focus for it. -/
def askRepository (worker : JobWorker) (job : Job) (group : GroupSummary) : M SourceAnswer :=
  if projectFoci job = [] then pure (none, [])
  else do
    let answer ← catching [.githubRaginatorApiError] do
      let repo ← callBackend (.findRepoByGroupName group.name) fun n =>
        worker.github.findRepoByGroupName n group.name
      match repo with
      | none => return none
      | some repo => do
        let answer ← callBackend (.query repo.id (join " " (projectFoci job))) fun n =>
          worker.github.query n repo.id (join " " (projectFoci job))
        return some answer
    match answer with
    | .ok (some answer) => return (some answer, [])
    | .ok none => return (none, ["Your group doesn't have a GitHub repo linked yet, so I couldn't check it."])
    | .error _ => return (none, ["I couldn't check the GitHub repo/Trello board right now."])

/-- `_handle_failure`. -/
def handleFailure (worker : JobWorker) (job : Job) (reason : Text) : M Unit := do
  JobStore.setStatus out job.jobId .failed [.error (some reason)]
  reportFailure out worker.admin job reason .assessQueryFailure
    (cat ["Job ", job.jobId, " failed while answering an assess_query."]) reason

def noSourceReason (notes : List Text) : Text :=
  cat ["None of the sources I needed to answer this were reachable just now.",
    if notes = [] then [] else cat [" ", join " " notes]]

/-- What follows once the sources were asked. -/
def conclude (worker : JobWorker) (job : Job) (group : GroupSummary) (transcripts repository : SourceAnswer) :
    M Unit := do
  let notes := transcripts.2 ++ repository.2
  if transcripts.1 = none ∧ repository.1 = none then
    handleFailure out worker job (noSourceReason notes)
  else
    JobStore.setStatus out job.jobId .completed []
    let trelloChecked := (truthy job.trelloFocus).isSome && (truthy repository.1).isSome
    job.request.enqueue out
      (renderAssessResult job.jobId group.name transcripts.1 repository.1 trelloChecked notes) (some job.jobId) []

/-- The `try` block of `execute`. -/
def attempt (worker : JobWorker) (job : Job) : M Unit := do
  let found ← groupsOf worker.diarisation job
  match matchGroup job.groupHint found.2 with
  | .matched group => do
    let transcripts ← askTranscripts out worker job found.1 group
    let repository ← askRepository worker job group
    conclude out worker job group transcripts repository
  | _ => askForGroup out job found.2 "this question"

/-- The reason that `_handle_failure` is called with for an exception. -/
def failureReason (e : Exc) : Text :=
  if e.kind = .diarisationApiError then cat ["Could not reach the backend to resolve your group: ", e.message]
  else cat ["Unexpected error: ", e.message]

def execute (worker : JobWorker) (job : Job) : M Unit := do
  JobStore.setStatus out job.jobId .processing []
  tryCatch (attempt out worker job) fun e => handleFailure out worker job (failureReason e)

end AssessQuery

end

end GroupAssessmentAgent
