import GroupAssessmentAgent.Commands.Validator
import GroupAssessmentAgent.EmailTemplates.Render
import GroupAssessmentAgent.Vtt.Parser
import GroupAssessmentAgent.Storage.Attachments

/-!
# Handlers

The handlers that the mail thread calls on a validated command. Each of them puts its own reply into the outbox or
raises `ClarificationRequired` or `Rejected`.
-/

namespace GroupAssessmentAgent
open Prog

inductive OutcomeType where
  | jobCreated | statusReply | resultsReply | cancelled | cannotCancel | helpReply | rejected
  deriving DecidableEq, Repr

structure HandlerOutcome where
  outcomeType : OutcomeType
  jobId : Option Text := none
  deriving DecidableEq

/-- `STATUS_TEXT`. -/
def statusText : JobState → Text
  | .received => "Received, awaiting validation"
  | .validating => "Being validated"
  | .needsClarification => "Waiting on clarification from you"
  | .queued => "Queued for processing"
  | .processing => "Currently being processed"
  | .completed => "Completed"
  | .failed => "Failed"
  | .cancelled => "Cancelled"

/-- What the handlers get besides the command: the sender, and the headers of the reply. -/
structure Request where
  senderEmail : Text
  inReplyTo : Option Text
  references : Option Text

/-- A reply to the sender. -/
def Request.enqueue (out : Outside) (req : Request) (mail : Rendered) (jobId : Option Text)
    (attachments : List Text) : M Unit := do
  let _ ← Outbox.enqueue out req.senderEmail mail.1 mail.2 jobId attachments req.inReplyTo req.references

section
variable [PyChars] (out : Outside) (cmd : ValidatedCommand) (req : Request)

/-- The sender's job that the command names. -/
def namedJob : M (Option Job) :=
  match cmd.jobId with
  | some jobId => JobStore.getOwned jobId req.senderEmail
  | none => pure none

def ownedJob : M Job := do
  let job ← namedJob cmd req
  match job with
  | some job => pure job
  | none => throw (clarificationRequired
      (cat ["I couldn't find a job ", cmd.jobId.getD "None", " associated with your account."]))

namespace StatusHandler

def handle : M HandlerOutcome := do
  let job ← ownedJob cmd req
  req.enqueue out (renderStatus job.jobId (statusText job.status)) (some job.jobId) []
  return ⟨.statusReply, some job.jobId⟩

end StatusHandler

namespace ResultsHandler

/-- The stored file that goes with the results, if it is still there. -/
def resultFile (job : Job) : M (List Text) :=
  match truthy job.attachmentStoragePath with
  | none => pure []
  | some path =>
    if job.status = .completed then do
      let found ← fileExists path
      return if found then [path] else []
    else pure []

def handle : M HandlerOutcome := do
  let job ← ownedJob cmd req
  let completed := job.status = .completed
  let mail := renderResults job.jobId (statusText job.status) job.resolvedGroupName job.meetingDate
    (if completed then job.resolvedAttendees else []) (if completed then job.unresolvedSpeakers else [])
  let attachments ← resultFile job
  req.enqueue out mail (some job.jobId) attachments
  return ⟨.resultsReply, some job.jobId⟩

end ResultsHandler

namespace CancelHandler

/-- `_CANCELLABLE_STATES`. -/
def Cancellable (s : JobState) : Prop := s = .queued ∨ s = .needsClarification

instance (s : JobState) : Decidable (Cancellable s) := inferInstanceAs (Decidable (_ ∨ _))

def handle : M HandlerOutcome := do
  let job ← ownedJob cmd req
  if Cancellable job.status then
    JobStore.setStatus out job.jobId .cancelled []
    req.enqueue out (renderCancelled job.jobId) (some job.jobId) []
    return ⟨.cancelled, some job.jobId⟩
  else
    req.enqueue out (renderCannotCancel job.jobId (statusText job.status)) (some job.jobId) []
    return ⟨.cannotCancel, some job.jobId⟩

end CancelHandler

namespace HelpHandler

def handle : M HandlerOutcome := do
  req.enqueue out renderHelp none []
  return ⟨.helpReply, none⟩

end HelpHandler

/-- What the code does with the job that `create_job` returns: it takes its id. -/
def createdJobId (job : Option Job) : M Text :=
  match job with
  | some job => pure job.jobId
  | none => throw ⟨.attributeError, "'NoneType' object has no attribute 'job_id'"⟩

namespace SubmitTranscript

/-- `_resolve_meeting_date`. -/
def resolveMeetingDate (vtt : ParsedVtt) (mentionedDate : Option Text) (receivedAt : Datetime) :
    Except Exc (Datetime × Text) :=
  match vtt.meetingDate with
  | some date => .ok (date, "vtt_note")
  | none =>
    match truthy mentionedDate with
    | none => .ok (receivedAt, "received_timestamp")
    | some value =>
      match out.parseDateFuzzy value with
      | .ok date => .ok (date, "email_text")
      | .error e =>
        if e.kind = .valueError ∨ e.kind = .overflowError then .ok (receivedAt, "received_timestamp") else .error e

/-- Move the file of a failed job, if it is there. -/
def moveFailed (storage : StorageSettings) (jobId storedPath : Text) : M Unit := do
  let found ← fileExists storedPath
  if found then
    let moved ← moveTo storedPath storage.failed
    JobStore.update jobId [.attachmentStoragePath (some moved)]

/-- `_fail_and_move`. -/
def failAndMove (storage : StorageSettings) (jobId storedPath reason : Text) : M Unit := do
  moveFailed storage jobId storedPath
  req.enqueue out
    (renderFailure (cat ["The attached file could not be read as a valid .vtt transcript: ", reason]) (some jobId))
    (some jobId) []

/-- `accept`, once the transcript is read. -/
def acceptParsed (jobId filename : Text) (receivedAt : Datetime) (vtt : ParsedVtt) : M HandlerOutcome := do
  let date ← Prog.ofExcept (resolveMeetingDate out vtt cmd.mentionedDate receivedAt)
  JobStore.update jobId [.speakers vtt.speakers, .meetingDate (some date.1), .meetingDateSource (some date.2)]
  JobStore.setStatus out jobId .queued []
  req.enqueue out (renderAck jobId filename date.1 none) (some jobId) []
  return ⟨.jobCreated, some jobId⟩

/-- `accept`, when the transcript is of no use. -/
def acceptFailed (storage : StorageSettings) (jobId storedPath : Text) (e : Exc) : M HandlerOutcome := do
  JobStore.setStatus out jobId .failed [.error (some e.message)]
  failAndMove out req storage jobId storedPath e.message
  return ⟨.rejected, some jobId⟩

/-- `accept`, once its job exists. -/
def acceptCreated (storage : StorageSettings) (receivedAt : Datetime) (attachment : Attachment) (filename : Text)
    (jobId : Text) : M HandlerOutcome := do
  JobStore.setStatus out jobId .validating []
  let storedPath ← saveIncoming out attachment.content attachment.filename storage.incoming
  JobStore.update jobId [.attachmentStoragePath (some storedPath)]
  let parsed ← catching [.vttParseError] (parseVtt out storedPath)
  match parsed with
  | .ok vtt => acceptParsed out cmd req jobId filename receivedAt vtt
  | .error e => acceptFailed out req storage jobId storedPath e

def accept (storage : StorageSettings) (attachments : List Attachment) (backendUserId : Nat)
    (sourceMessageId : Text) (receivedAt : Datetime) : M HandlerOutcome :=
  match cmd.attachment with
  | none => throw ⟨.assertionError, ""⟩
  | some chosen =>
    match attachments.find? fun a => a.filename = chosen.filename with
    | none => throw ⟨.assertionError, ""⟩
    | some attachment => do
      let job ← JobStore.createJob out req.senderEmail backendUserId sourceMessageId "submit_transcript"
        [.groupHint cmd.groupHint, .attachmentFilename (some chosen.filename)]
      let jobId ← createdJobId job
      acceptCreated out cmd req storage receivedAt attachment chosen.filename jobId

end SubmitTranscript

namespace AssessQuery

def accept (backendUserId : Nat) (sourceMessageId : Text) : M HandlerOutcome := do
  let job ← JobStore.createJob out req.senderEmail backendUserId sourceMessageId "assess_query"
    [.groupHint cmd.groupHint, .transcriptFocus cmd.transcriptFocus, .githubFocus cmd.githubFocus,
      .trelloFocus cmd.trelloFocus]
  let jobId ← createdJobId job
  JobStore.setStatus out jobId .validating []
  JobStore.setStatus out jobId .queued []
  req.enqueue out (renderAssessAck jobId) (some jobId) []
  return ⟨.jobCreated, some jobId⟩

end AssessQuery

end

end GroupAssessmentAgent
