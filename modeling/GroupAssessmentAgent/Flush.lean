import GroupAssessmentAgent.Reports.Store
import GroupAssessmentAgent.Storage.Attachments
import GroupAssessmentAgent.Vtt.Parser

/-!
# Flushing the outbox

The mail loop's `flush_outbox` and the weekly command's `_flush_report_outbox`: each reads the pending messages
once, and then sends and records one after another. They differ in which messages they take, in what they do after
`mark_sent`, and in the text of a failure.
-/

namespace GroupAssessmentAgent
open Prog

/-- The attachments of a message, read from the disk. -/
def readAttachments : List Text → M (List (Text × Bytes))
  | [] => pure []
  | path :: paths => do
    let content ← readBytes path
    let rest ← readAttachments paths
    return (pathName path, content) :: rest

def deliveryOf (message : OutboxMessage) (attachments : List (Text × Bytes)) (messageId : Text) : Delivery :=
  { outboxId := message.id, toEmail := message.toEmail, subject := message.subject, bodyText := message.bodyText,
    attachments, inReplyTo := message.inReplyToMessageId, references := message.referencesHeader, messageId }

def World.deliver (w : World) (d : Delivery) : World := { w with deliveries := d :: w.deliveries }

/-- `send_email`. -/
def sendEmail (out : Outside) (message : OutboxMessage) (attachments : List (Text × Bytes)) : M Text :=
  atomic (.send message.id) fun w =>
    let messageId := out.messageId w.deliveries.length
    (.ok messageId, w.deliver (deliveryOf message attachments messageId))

/-- Send and record one message; `record` is what follows `mark_sent`, and `errorText` what a failure is recorded
with. The result is the number of messages sent. -/
def deliverOne (out : Outside) (record : Text → M Unit) (errorText : Exc → Text) (message : OutboxMessage) : M Nat :=
  tryCatch (do
      let attachments ← readAttachments message.attachments
      let providerMessageId ← sendEmail out message attachments
      Outbox.markSent out message.id providerMessageId
      record providerMessageId
      return 1)
    fun e => do
      Outbox.markFailed message.id (errorText e)
      return 0

/-- One round of `flush_outbox`. -/
def flushOne (out : Outside) (message : OutboxMessage) : M Nat :=
  deliverOne out (fun providerMessageId =>
      match truthy message.jobId with
      | some jobId => JobStore.update jobId [.lastResponseMessageId (some providerMessageId)]
      | none => pure ())
    Exc.message message

def flushAll (flush : OutboxMessage → M Nat) : List OutboxMessage → M Nat
  | [] => pure 0
  | message :: messages => do
    let n ← flush message
    let rest ← flushAll flush messages
    return n + rest

/-- `flush_outbox`. -/
def flushOutbox (out : Outside) : M Nat := do
  let messages ← Outbox.pending
  flushAll (flushOne out) messages

/-- The messages that the weekly command takes. -/
def isReportMail (message : OutboxMessage) : Bool := message.jobId.any fun id => startsWith id "WEEKLY-"

/-- One round of `_flush_report_outbox`. -/
def flushReportOne (out : Outside) (message : OutboxMessage) : M Nat :=
  if isReportMail message then
    deliverOne out (fun _ => ReportStore.setStatus out (message.jobId.getD []) .sent none none)
      (fun _ => "weekly report send failed") message
  else pure 0

/-- `_flush_report_outbox`. -/
def flushReportOutbox (out : Outside) : M Nat := do
  let messages ← Outbox.pending
  flushAll (flushReportOne out) messages

end GroupAssessmentAgent
