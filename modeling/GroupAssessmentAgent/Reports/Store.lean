import GroupAssessmentAgent.Jobs.Store
import GroupAssessmentAgent.Llm.CommandParser
import GroupAssessmentAgent.Mail.Base

/-!
# Weekly reports

What the mail thread and the outbox do with a weekly report: find it, answer a question about it from its stored
evidence, and record that it was sent.
-/

namespace GroupAssessmentAgent
open Prog

namespace ReportStore

def get (reportId : Text) : M (Option WeeklyReport) := observe .selectReports fun w => w.weeklyReports.find? reportId

/-- `get_by_message_id`, on the rows of the tables. -/
def findByMessageId (w : World) (messageId recipient : Text) : Option WeeklyReport :=
  let joined := w.messageLinks.rows.flatMap fun l =>
    (w.weeklyReports.rows.filter fun r => l.jobId = some r.reportId).map fun r => (l, r)
  (latest (fun p => p.1.createdAt) (joined.filter fun p =>
    p.1.messageId = messageId ∧ sqlLower p.2.ownerEmail = sqlLower recipient)).map Prod.snd

/-- The evidence of a report, `ORDER BY source, id`. -/
def findEvidence (w : World) (reportId : Text) : List ReportEvidence :=
  (w.reportEvidence.rows.filter fun e => e.reportId = reportId).insertionSort fun a b =>
    a.source < b.source ∨ a.source = b.source ∧ a.id ≤ b.id

def evidence (reportId : Text) : M (List ReportEvidence) := observe .selectReports fun w => findEvidence w reportId

/-- The states that end the work on a report. -/
def isConcluding (status : ReportStatus) : Bool := status = .completed || status = .failed

/-- The row after `set_status`; `now` is there when the status is a concluding one. -/
def withStatus (r : WeeklyReport) (status : ReportStatus) (reportText error : Option Text) (now : Option Instant) :
    WeeklyReport :=
  { r with status, reportText := reportText.or r.reportText, lastError := error, completedAt := now.or r.completedAt }

def writeStatus (w : World) (reportId : Text) (status : ReportStatus) (reportText error : Option Text)
    (now : Option Instant) : World :=
  { w with weeklyReports :=
      w.weeklyReports.modify reportId (fun r => withStatus r status reportText error now) fun _ => rfl }

/-- The time of a concluding status. -/
def concludedAt (out : Outside) (status : ReportStatus) : M (Option Instant) :=
  if isConcluding status then do
    let now ← utcnow out
    return some now
  else
    return none

def setStatus (out : Outside) (reportId : Text) (status : ReportStatus) (reportText error : Option Text) : M Unit := do
  let now ← concludedAt out status
  change (.updateReport reportId) fun w => writeStatus w reportId status reportText error now

end ReportStore

/-! ### Replies -/

namespace WeeklyReportReplyService

def replySystemPrompt : Text :=
  cat ["Answer the user's question using only the weekly report evidence supplied.\n",
    "Do not invent facts. Cite factual claims with the supplied evidence citation. If the evidence\n",
    "does not answer the question, say so and explain which source would need a fresh lookup. You may\n",
    "explain meetings, GitHub, and Trello evidence together, but keep source boundaries clear."]

def evidenceText (items : List ReportEvidence) : Text :=
  join "\n\n" (items.map fun item =>
    cat ["Source: ", item.source, "\nCitation: [", item.citation, "]\n", item.content])

def replyPrompt (report : WeeklyReport) (bodyText : Text) (items : List ReportEvidence) : Text :=
  cat ["Project: ", report.groupName, "\nReporting period: ", report.periodStart, " to ", report.periodEnd,
    "\nUser question: ", bodyText, "\n\nPersisted evidence:\n",
    orText (evidenceText items) "(No evidence was persisted.)"]

def reply (out : Outside) (msg : EmailMessage) (reportId : Text) : M Unit := do
  let report ← ReportStore.get reportId
  match report with
  | none => throw ⟨.valueError, cat ["Unknown report ", reportId]⟩
  | some report =>
    let items ← ReportStore.evidence reportId
    let answer ← generateText out replySystemPrompt (replyPrompt report msg.bodyText items)
    let _ ← Outbox.enqueue out msg.fromAddress (cat ["Re: Weekly project update - ", report.reportId]) (strip answer)
      (some report.reportId) [] (some msg.messageId) (some (replyReferences msg))

end WeeklyReportReplyService

end GroupAssessmentAgent
