import GroupAssessmentAgent.Admin.Notifier
import GroupAssessmentAgent.Handlers.Base
import GroupAssessmentAgent.Mail.ThreadMatcher
import GroupAssessmentAgent.Reports.Store

/-!
# The mail pipeline

`processMessage` takes one inbound message from the authorisation of its sender to its conclusion, and `pollOnce`
does this for every message of a poll. Every way through that ends a message goes through `conclude`: record the
outcome, then mark the message at the provider.

`processMessageWith` is `processMessage` with the match against the weekly reports as a parameter. The program's own
match, `matchReport`, asks a tuple for its `split` method.
-/

namespace GroupAssessmentAgent
open Prog Regex

/-- `mark_processed`. -/
def markProcessed (providerRef : Text) : M Unit :=
  change (.markProcessed providerRef) fun w => { w with seen := providerRef :: w.seen }

/-- `_first_unquoted_line`. -/
def firstUnquotedLine (body : Text) : Text :=
  (((splitlines body).map strip).find? fun line => line ≠ [] ∧ startsWith line ">" = false).getD []

/-- `_normalise`. -/
def normalise [PyChars] (value : Text) : Text := join " " (splitWords (casefold (strip value)))

structure EmailProcessingPipeline where
  authoriser : SenderAuthoriser
  parser : EmailCommandParser
  admin : AdminNotifier
  storage : StorageSettings
  limits : LimitsSettings := {}
  adminEmail : Option Text

namespace EmailProcessingPipeline

/-- `finalize`, then `mark_processed`. -/
def conclude (out : Outside) (msg : EmailMessage) (outcome : Text) (jobId operation : Option Text) : M Unit := do
  ProcessedMessageStore.finalize out msg.messageId outcome jobId operation
  markProcessed msg.providerRef

/-- A mail in reply to `msg`. -/
def replyTo (out : Outside) (msg : EmailMessage) (toEmail : Text) (mail : Rendered) (jobId : Option Text) :
    M Unit := do
  let _ ← Outbox.enqueue out toEmail mail.1 mail.2 jobId [] (some msg.messageId) (some (replyReferences msg))

/-- `_reply_and_finalize`. -/
def replyAndFinalize (out : Outside) (msg : EmailMessage) (mail : Rendered) (outcome : Text)
    (operation : Option Text) : M Unit := do
  replyTo out msg msg.fromAddress mail none
  conclude out msg outcome none operation

section
variable [PyChars]

/-! ### Weekly reports -/

/-- `WEEKLY-\d{4}-\d{2}-\d{2}-\d{4}`. -/
def weeklyReportIdRe : Re :=
  .seq (.lit "WEEKLY-") (.seq (.times 4 isDecimal) (.seq (.lit "-") (.seq (.times 2 isDecimal) (.seq (.lit "-")
    (.seq (.times 2 isDecimal) (.seq (.lit "-") (.times 4 isDecimal)))))))

/-- `(a, b).split()`: a tuple has no such method. -/
def tupleSplit (_ : Text × Text) : Except Exc (List Text) :=
  .error ⟨.attributeError, "'tuple' object has no attribute 'split'"⟩

/-- The first of the message ids that leads to a report of the sender. -/
def reportByMessageId (senderEmail : Text) : List Text → M (Option WeeklyReport)
  | [] => pure none
  | id :: ids => do
    let report ← observe .selectReports fun w => ReportStore.findByMessageId w id senderEmail
    match report with
    | some report => pure (some report)
    | none => reportByMessageId senderEmail ids

/-- The first of the report ids that is the id of a report of the sender. -/
def reportById (senderEmail : Text) : List Text → M (Option WeeklyReport)
  | [] => pure none
  | id :: ids => do
    let report ← ReportStore.get id
    match report.filter fun r => casefold r.ownerEmail = casefold senderEmail with
    | some report => pure (some report)
    | none => reportById senderEmail ids

/-- `_match_report`. -/
def matchReport (msg : EmailMessage) (senderEmail : Text) : M (Option WeeklyReport) := do
  let ids ← Prog.ofExcept (tupleSplit (msg.inReplyTo.getD [], msg.references.getD []))
  let report ← reportByMessageId senderEmail ids
  match report with
  | some report => pure (some report)
  | none =>
    let text := cat [msg.subject, " ", msg.bodyText]
    reportById senderEmail ((findAll weeklyReportIdRe text).map Match.text)

/-! ### Dispatch -/

variable (out : Outside) (p : EmailProcessingPipeline)

/-- The handler of the operation. -/
def callHandler (cmd : ValidatedCommand) (msg : EmailMessage) (senderEmail : Text) (senderUserId : Nat) :
    M HandlerOutcome :=
  let req : Request := ⟨senderEmail, some msg.messageId, some (replyReferences msg)⟩
  match cmd.operation with
  | .submitTranscript =>
    SubmitTranscript.accept out cmd req p.storage msg.attachments senderUserId msg.messageId msg.receivedAt
  | .status => StatusHandler.handle out cmd req
  | .results => ResultsHandler.handle out cmd req
  | .cancel => CancelHandler.handle out cmd req
  | .assessQuery => AssessQuery.accept out cmd req senderUserId msg.messageId
  | .help => HelpHandler.handle out req

/-- `_dispatch`. -/
def dispatch (cmd : ValidatedCommand) (msg : EmailMessage) (senderEmail : Text) (senderUserId : Nat) :
    M (Option Text) := do
  let outcome ← callHandler out p cmd msg senderEmail senderUserId
  return outcome.jobId

/-- The options of a question that the answer names. -/
def matchingOptions (pending : PendingClarification) (answer : Text) : List Text :=
  pending.options.filter fun option => normalise option = normalise answer

/-- `_continue_clarification`, once the answer has selected an option. -/
def applyClarification (msg : EmailMessage) (senderEmail jobId selected : Text) : M Bool := do
  let job ← JobStore.getOwned jobId senderEmail
  if (job.map Job.status) ≠ some .needsClarification then
    return false
  else
    JobStore.update jobId [.groupHint (some selected), .inReplyToMessageId (some msg.messageId)]
    JobStore.setStatus out jobId .queued []
    PendingClarificationStore.delete jobId
    replyTo out msg senderEmail (renderClarificationReceived jobId selected) (some jobId)
    conclude out msg "clarification_applied" (some jobId) (some "clarification")
    return true

/-- `_continue_clarification`. -/
def continueClarification (msg : EmailMessage) (senderEmail jobId : Text) : M Bool := do
  let pending ← PendingClarificationStore.get jobId
  match pending with
  | none => return false
  | some pending =>
    match matchingOptions pending (firstUnquotedLine msg.bodyText) with
    | [selected] => applyClarification out msg senderEmail jobId selected
    | _ =>
      replyTo out msg senderEmail (renderClarification pending.question (some jobId)) (some jobId)
      conclude out msg "clarification_sent" none (some "clarification")
      return true

/-- A message on the thread of a job may be the answer to a question. -/
def continueThread (msg : EmailMessage) (senderEmail : Text) (threadJobId : Option Text) : M Bool :=
  match truthy threadJobId with
  | some jobId => continueClarification out msg senderEmail jobId
  | none => pure false

/-! ### One message -/

/-- The answer to a question about a weekly report. -/
def answerReport (msg : EmailMessage) (report : WeeklyReport) : M Unit := do
  let available ← ollamaAvailable
  if available then
    WeeklyReportReplyService.reply out msg report.reportId
    conclude out msg "weekly_report_reply" (some report.reportId) (some "weekly_report_reply")

/-- The reply to `ClarificationRequired` or `Rejected`. -/
def replyToRefusal (msg : EmailMessage) (e : Exc) (threadJobId : Option Text) (operation : Operation) : M Unit :=
  if e.kind = .clarificationRequired then
    replyAndFinalize out msg (renderClarification e.message threadJobId) "clarification_sent" (some operation.value)
  else
    replyAndFinalize out msg (renderFailure e.message threadJobId) "rejected" (some operation.value)

/-- Validate a command and carry it out. -/
def runCommand (msg : EmailMessage) (senderEmail : Text) (senderUserId : Nat) (threadJobId : Option Text)
    (cmd : ParsedCommand) : M Unit := do
  let ctx : ValidationContext :=
    { attachments := msg.attachments.map Attachment.meta, threadJobId, senderEmail, limits := p.limits }
  let validated ← catching [.clarificationRequired, .rejected] (validateCommand cmd ctx)
  match validated with
  | .error e => replyToRefusal out msg e threadJobId cmd.operation
  | .ok validated =>
    let jobId ← catching [.clarificationRequired, .rejected] (dispatch out p validated msg senderEmail senderUserId)
    match jobId with
    | .error e => replyToRefusal out msg e threadJobId validated.operation
    | .ok jobId => conclude out msg "handled" jobId (some validated.operation.value)

def notUnderstood : Text :=
  cat ["I couldn't understand your request. Could you rephrase it, mentioning ",
    "clearly what you'd like me to do (submit a transcript, check status, see ", "results, or cancel a request)?"]

/-- Have the model read the message, and carry out the command it finds. -/
def interpret (msg : EmailMessage) (senderEmail : Text) (senderUserId : Nat) (threadJobId : Option Text) : M Unit := do
  let filenames := msg.attachments.map Attachment.filename
  let parsed ← catching [.commandParsingFailed] (p.parser.parseEmail out msg.bodyText filenames threadJobId)
  match parsed with
  | .error e =>
    replyAndFinalize out msg (renderClarification notUnderstood none) "llm_parse_failed" none
    let _ ← p.admin.alert out .llmParseFailure
      (cat ["Could not parse email from ", senderEmail, ": ", e.message]) []
  | .ok cmd => runCommand out p msg senderEmail senderUserId threadJobId cmd

/-- A message that is about no weekly report. -/
def handleRequest (msg : EmailMessage) (senderEmail : Text) (senderUserId : Nat) : M Unit := do
  let threadJobId ← ThreadMatcher.matchJob msg senderEmail
  let continued ← continueThread out msg senderEmail threadJobId
  if continued then
    return ()
  else
    let available ← ollamaAvailable
    if available then
      interpret out p msg senderEmail senderUserId threadJobId
    else
      -- neither finalised nor marked: the message is left for a later poll
      let _ ← p.admin.alert out .infrastructure "Ollama is unreachable" []

/-- A message of a sender who is not an owner. -/
def handleStranger (msg : EmailMessage) (auth : SenderAuthResult) : M Unit := do
  if auth.reason = .unrecognisedInDomain then
    replyTo out msg auth.senderEmail (renderUnrecognisedSender p.adminEmail) none
    let _ ← p.admin.alert out .unauthorisedSender
      (cat ["Unrecognised in-domain sender attempted to use the system: ", auth.senderEmail]) []
    conclude out msg "unrecognised_sender_replied" none none
  else
    let _ ← p.admin.alert out .unauthorisedSender
      (cat ["Rejected sender (", auth.reason.value, "): ", msg.fromAddress]) []
    conclude out msg "rejected_silently" none none

variable (matchReport : EmailMessage → Text → M (Option WeeklyReport))

/-- A message of an owner. -/
def handleOwner (msg : EmailMessage) (senderEmail : Text) (senderUserId : Nat) : M Unit := do
  let report ← matchReport msg senderEmail
  match report with
  | some report => answerReport out msg report
  | none => handleRequest out p msg senderEmail senderUserId

/-- What `_process_message` knows of the sender. -/
def authOf (msg : EmailMessage) : SenderAuthResult := p.authoriser.authorise msg.fromAddress msg.authSignals

def processMessageWith (msg : EmailMessage) : M Unit := do
  let auth := p.authOf msg
  let fresh ← ProcessedMessageStore.begin out msg.messageId (orText auth.senderEmail msg.fromAddress)
    auth.reason.value
  if !fresh then
    markProcessed msg.providerRef
  else if auth.reason = .authorised then
    handleOwner out p matchReport msg auth.senderEmail (auth.userId.getD 0)
  else
    handleStranger out p msg auth

/-- The loop of `poll_once`: an exception ends the work on its message, not the loop. -/
def processAllWith : List EmailMessage → M Unit
  | [] => pure ()
  | msg :: msgs => do
    tryCatch (processMessageWith out p matchReport msg) fun _ => pure ()
    processAllWith msgs

end

section
variable [PyChars] (out : Outside) (p : EmailProcessingPipeline)

/-- `_process_message`. -/
def processMessage (msg : EmailMessage) : M Unit := processMessageWith out p matchReport msg

/-- `poll_once`, for what the mail client's `fetch_new_messages` gives. -/
def pollOnce (fetched : Except Exc (List EmailMessage)) : M Nat := do
  let messages ← observeE .fetch fun _ => fetched
  processAllWith out p matchReport messages
  return messages.length

/-- The match that finds no report. -/
def noReport (_ : EmailMessage) (_ : Text) : M (Option WeeklyReport) := pure none

end

end EmailProcessingPipeline

/-! ### A small installation -/

/-- One owner, and no other settings. -/
def smallPipeline : EmailProcessingPipeline :=
  { authoriser := smallAuthoriser
    parser := { systemPrompt := "" }
    admin := { adminEmail := none }
    storage := { incoming := "in", processing := "work", completed := "done", failed := "failed" }
    adminEmail := none }

/-- A message of the owner. -/
def aliceMessage : EmailMessage :=
  { messageId := "<1@uni.ac.uk>", providerRef := "1", fromAddress := "alice@uni.ac.uk", subject := "Hello",
    bodyText := "What can you do?", receivedAt := "2026-08-11T00:00:00+00:00",
    authSignals := { dmarc := some "pass" } }

end GroupAssessmentAgent
