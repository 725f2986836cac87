import GroupAssessmentAgent.Jobs.Store
import GroupAssessmentAgent.Mail.Base

/-!
# The job a reply belongs to

By the message ids that the reply refers to, or else by the only job id in its subject and body; a job of the
sender in either case.
-/

namespace GroupAssessmentAgent
open Regex Prog

/-- `<[^<>\s]+>`. -/
def messageIdTokenRe : Re :=
  .seq (.lit "<") (.seq (.plus fun c => c != '<' && c != '>' && !isSpace c) (.lit ">"))

/-- `_referenced_message_ids`. -/
def referencedMessageIds (inReplyTo references : Option Text) : List Text :=
  let raw := join " " [truthy inReplyTo, truthy references].reduceOption
  match (findAll messageIdTokenRe raw).map Match.text with
  | [] => if strip raw = [] then [] else [strip raw]
  | tokens => tokens

namespace ThreadMatcher
variable [PyChars]

/-- The job ids in the subject and the body, each once. -/
def foundJobIds (msg : EmailMessage) : List Text :=
  fromKeys ((findAll jobIdRe msg.subject).map Match.text ++ (findAll jobIdRe msg.bodyText).map Match.text)

/-- The job of the sender that a reference leads to. -/
def matchReference (senderEmail ref : Text) : M (Option Job) := do
  let job ← observe .selectJobs fun w => JobStore.findByResponse w ref senderEmail
  match job with
  | some job => pure (some job)
  | none => observe .selectJobs fun w => JobStore.findByLastResponse w ref senderEmail

/-- The first of the references that leads to a job of the sender. -/
def matchReferences (senderEmail : Text) : List Text → M (Option Text)
  | [] => pure none
  | ref :: refs => do
    let job ← matchReference senderEmail ref
    match job with
    | some job => pure (some job.jobId)
    | none => matchReferences senderEmail refs

/-- `ThreadMatcher.match`. -/
def matchJob (msg : EmailMessage) (senderEmail : Text) : M (Option Text) := do
  let byReference ← matchReferences senderEmail (referencedMessageIds msg.inReplyTo msg.references)
  match byReference with
  | some jobId => pure (some jobId)
  | none =>
    match foundJobIds msg with
    | [jobId] => do
      let job ← JobStore.getOwned jobId senderEmail
      return job.map Job.jobId
    | _ => pure none

end ThreadMatcher

end GroupAssessmentAgent
