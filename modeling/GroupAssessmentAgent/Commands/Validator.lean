import GroupAssessmentAgent.Jobs.Store
import GroupAssessmentAgent.Mail.Base

/-!
# Command validation

What a parsed command names is looked up again among the attachments of the mail and the jobs of the sender.
Ambiguity raises `ClarificationRequired`, invalid input `Rejected`.
-/

namespace GroupAssessmentAgent
open Prog

structure LimitsSettings where
  maxAttachmentSizeMb : Rat := 20

structure AttachmentMeta where
  filename : Text
  sizeBytes : Nat
  contentType : Text
  deriving DecidableEq

def Attachment.meta (a : Attachment) : AttachmentMeta := ⟨a.filename, a.sizeBytes, a.contentType⟩

structure ValidationContext where
  attachments : List AttachmentMeta
  threadJobId : Option Text
  senderEmail : Text
  limits : LimitsSettings

structure ValidatedCommand where
  operation : Operation
  attachment : Option AttachmentMeta := none
  groupHint : Option Text := none
  mentionedDate : Option Text := none
  jobId : Option Text := none
  returnStatistics : Bool := false
  transcriptFocus : Option Text := none
  githubFocus : Option Text := none
  trelloFocus : Option Text := none
  deriving DecidableEq

def clarificationRequired (question : Text) : Exc := ⟨.clarificationRequired, question⟩

def rejected (reason : Text) : Exc := ⟨.rejected, reason⟩

def audioExtensions : List Text := [".wav", ".mp3", ".m4a", ".ogg", ".flac", ".aac", ".wma"]

/-- `int(max_attachment_size_mb * 1024 * 1024)`. -/
def LimitsSettings.maxBytes (limits : LimitsSettings) : Int :=
  (limits.maxAttachmentSizeMb.num * (1024 * 1024)).tdiv limits.maxAttachmentSizeMb.den

section
variable [PyChars]

def isAudio (filename : Text) : Bool := audioExtensions.any fun ext => endsWith (lower filename) ext

def isVtt (filename : Text) : Bool := endsWith (lower filename) ".vtt"

/-- The attachment that the command means: the one it names, or else the only transcript. -/
def resolveAttachment (named : Option Text) (attachments : List AttachmentMeta) : Except Exc AttachmentMeta :=
  match (truthy named).bind fun name => attachments.find? fun a => a.filename = name with
  | some matched => .ok matched
  | none =>
    match attachments.filter fun a => isVtt a.filename with
    | [only] => .ok only
    | [] =>
      if attachments.any fun a => isAudio a.filename then
        .error (rejected (cat ["Audio attachments aren't accepted by email. Please ask the admin to add ",
          "audio directly, or send an already-produced .vtt transcript instead."]))
      else
        .error (clarificationRequired (cat ["I couldn't find a .vtt transcript attached. Only .vtt files are ",
          "accepted by email - could you resend with one attached?"]))
    | candidates =>
      .error (clarificationRequired (cat ["I found multiple .vtt attachments (",
        join ", " (candidates.map AttachmentMeta.filename), ") and wasn't sure which one you ",
        "meant. Could you resend mentioning just the one file, or send them separately?"]))

/-- The checks of the attachment itself. -/
def checkResolved (limits : LimitsSettings) (a : AttachmentMeta) : Except Exc Unit :=
  if isAudio a.filename then
    .error (rejected (cat ["Audio attachments aren't accepted by email. Please ask the admin to add audio ",
      "directly, or send an already-produced .vtt transcript instead."]))
  else if !isVtt a.filename then
    .error (rejected (cat ["'", a.filename, "' isn't a supported attachment type. Only .vtt transcripts ",
      "are accepted by email."]))
  else if limits.maxBytes < a.sizeBytes then
    .error (rejected (cat ["'", a.filename, "' is too large (", fixedText 1 (mkRat a.sizeBytes (1024 * 1024)),
      " MB). The maximum accepted size is ", fixedText 0 limits.maxAttachmentSizeMb, " MB."]))
  else .ok ()

def validateSubmitTranscript (cmd : ParsedCommand) (ctx : ValidationContext) : Except Exc ValidatedCommand :=
  if ctx.attachments = [] then
    .error (clarificationRequired (cat ["I didn't find any attachment on your email. Please resend with a .vtt ",
      "transcript attached."]))
  else do
    let matched ← resolveAttachment cmd.attachment ctx.attachments
    checkResolved ctx.limits matched
    return { operation := .submitTranscript, attachment := some matched, groupHint := cmd.groupHint,
             mentionedDate := cmd.mentionedDate }

def validateJobReferenceOperation (cmd : ParsedCommand) (ctx : ValidationContext) : M ValidatedCommand :=
  match (truthy cmd.jobId).or (truthy ctx.threadJobId) with
  | none => throw (clarificationRequired (cat ["Which job did you mean? Please include the job ID (e.g. ",
      "DIAR-2026-0811-0017), or reply directly on the email thread for that job."]))
  | some jobId => do
    let job ← JobStore.getOwned jobId ctx.senderEmail
    match job with
    | none => throw (clarificationRequired (cat ["I couldn't find a job ", jobId,
        " associated with your account. Please double-check the job ID."]))
    | some _ => pure { operation := cmd.operation, jobId := some jobId, returnStatistics := cmd.returnStatistics }

def validateAssessQuery (cmd : ParsedCommand) : Except Exc ValidatedCommand :=
  if truthy cmd.transcriptFocus = none ∧ truthy cmd.githubFocus = none ∧ truthy cmd.trelloFocus = none then
    .error (clarificationRequired (cat ["I couldn't tell whether this needs checking against meeting transcripts, ",
      "the GitHub repo, the Trello board, or some combination - could you say a bit more about what you're ",
      "trying to find out?"]))
  else
    .ok { operation := .assessQuery, groupHint := cmd.groupHint, transcriptFocus := cmd.transcriptFocus,
          githubFocus := cmd.githubFocus, trelloFocus := cmd.trelloFocus }

/-- `validate_command`. -/
def validateCommand (cmd : ParsedCommand) (ctx : ValidationContext) : M ValidatedCommand :=
  if cmd.requiresClarification then
    throw (clarificationRequired ((truthy cmd.clarificationQuestion).getD
      "Could you clarify what you'd like me to do?"))
  else
    match cmd.operation with
    | .submitTranscript => Prog.ofExcept (validateSubmitTranscript cmd ctx)
    | .status | .results | .cancel => validateJobReferenceOperation cmd ctx
    | .assessQuery => Prog.ofExcept (validateAssessQuery cmd)
    | .help => pure { operation := .help }

end

end GroupAssessmentAgent
