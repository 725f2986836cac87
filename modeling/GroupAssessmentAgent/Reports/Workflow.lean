import GroupAssessmentAgent.Admin.Notifier
import GroupAssessmentAgent.Reports.Sources
import GroupAssessmentAgent.Reports.Store

/-!
# The weekly workflow

`WeeklyReportWorkflow.run`: the five nodes of the graph in the order of its edges, and what a failed run leaves. A run
begins with the status of the report and does nothing once the report is queued.
-/

namespace GroupAssessmentAgent
open Prog

namespace ReportStore

/-- The INSERT of one row of evidence. -/
def insertEvidence (reportId : Text) (item : EvidenceItem) : M Unit :=
  atomic .insertEvidence fun w =>
    if w.reportEvidence.rows.any fun r =>
        r.reportId = reportId ∧ r.source = item.source ∧ r.evidenceId = item.evidenceId then
      (.error ⟨.integrityError, cat ["UNIQUE constraint failed: report_evidence.report_id, report_evidence.source, ",
        "report_evidence.evidence_id"]⟩, w)
    else
      let row := fun id => { id, reportId, source := item.source, evidenceId := item.evidenceId, title := item.title,
                             eventDate := item.eventDate, content := item.content, citation := item.citation,
                             rawJson := item.rawJson : ReportEvidence }
      (.ok (), { w with reportEvidence := w.reportEvidence.append row fun _ => rfl })

def insertAllEvidence (reportId : Text) : List EvidenceItem → M Unit
  | [] => pure ()
  | item :: items => do
    insertEvidence reportId item
    insertAllEvidence reportId items

def replaceEvidence (reportId : Text) (evidence : List EvidenceItem) : M Unit := do
  change .deleteEvidence fun w =>
    { w with reportEvidence := w.reportEvidence.select fun r => r.reportId ≠ reportId }
  insertAllEvidence reportId evidence

end ReportStore

structure WeeklyReportWorkflow where
  diarisation : DiarisationClient
  github : GithubRaginatorClient
  admin : AdminNotifier

namespace WeeklyReportWorkflow

/-- `REPORT_SYSTEM_PROMPT`. -/
def reportSystemPrompt : Text :=
  cat ["You write a weekly project update using only the evidence supplied.\n",
    "Do not invent events, dates, people, status, or causes. Separate the report into Meetings,\n",
    "GitHub, and Trello. If a source has no evidence, say that no evidence was found. If a source\n",
    "was unavailable, state that explicitly. Cite every factual statement with the supplied citation\n",
    "in square brackets. Keep the email concise and plain text."]

def evidenceText (evidence : List EvidenceItem) : Text :=
  join "\n\n" (evidence.map fun item =>
    cat ["Source: ", item.source, "\nCitation: [", item.citation, "]\n", item.content])

def reportPrompt (report : WeeklyReport) (collected : SourceCollection) : Text :=
  cat ["Project: ", report.groupName, "\nReporting period: ", report.periodStart, " to ", report.periodEnd,
    "\n\nEvidence:\n", orText (evidenceText collected.evidence) "(No source evidence was returned.)",
    "\n\nUnavailable sources:\n",
    orText (join "\n" (collected.unavailable.map fun item => cat ["- ", item])) "- None"]

def mailSubject (reportId : Text) : Text := cat ["Weekly project update - ", reportId]

def mailBody (report : WeeklyReport) (reportText : Text) : Text :=
  cat ["Project: ", report.groupName, "\nPeriod: ", report.periodStart, " to ", report.periodEnd, "\n\n", reportText,
    "\n\nReply to this email with a question about this update."]

variable (out : Outside) (p : WeeklyReportWorkflow) (reportId : Text)

/-- The row of the report, which every node reads again. -/
def knownReport : M WeeklyReport := do
  let report ← ReportStore.get reportId
  match report with
  | some report => pure report
  | none => throw ⟨.valueError, cat ["Unknown weekly report ", reportId]⟩

/-- `_load`. -/
def load : M Unit := do
  let _ ← knownReport reportId
  ReportStore.setStatus out reportId .collecting none none

/-- `_collect`. -/
def collect : M SourceCollection := do
  let report ← knownReport reportId
  let token ← callBackend (.login report.backendUserId) fun n => p.diarisation.login n report.backendUserId
  let start ← Prog.ofExcept (out.dateFromIso report.periodStart)
  let stop ← Prog.ofExcept (out.dateFromIso report.periodEnd)
  WeeklySourceCollector.collect out p.diarisation p.github token ⟨report.groupId, report.groupName⟩ ⟨start, stop⟩

/-- `_persist`. -/
def persist (collected : SourceCollection) : M Unit := do
  ReportStore.replaceEvidence reportId collected.evidence
  ReportStore.setStatus out reportId .synthesising none none

/-- `_synthesise`. -/
def synthesise (collected : SourceCollection) : M Text := do
  let report ← knownReport reportId
  let reportText ← generateText out reportSystemPrompt (reportPrompt report collected)
  return strip reportText

/-- `_enqueue`. -/
def enqueue (reportText : Text) : M Unit := do
  let report ← knownReport reportId
  ReportStore.setStatus out reportId .queued (some reportText) none
  let _ ← Outbox.enqueue out report.ownerEmail (mailSubject reportId) (mailBody report reportText) (some reportId) []
    none none

/-- The graph, up to its last node. -/
def prepare : M Text := do
  load out reportId
  let collected ← p.collect out reportId
  persist out reportId collected
  synthesise out reportId collected

/-- What a failed run does. -/
def fail (e : Exc) : M Unit := do
  ReportStore.setStatus out reportId .failed none (some e.message)
  let _ ← p.admin.alert out .infrastructure (cat ["Weekly report ", reportId, " failed: ", e.message]) []

/-- The states in which a run has nothing to do. -/
def Handled (status : ReportStatus) : Prop := status = .completed ∨ status = .queued ∨ status = .sent

instance (status : ReportStatus) : Decidable (Handled status) := inferInstanceAs (Decidable (_ ∨ _ ∨ _))

def run : M Unit := do
  let report ← knownReport reportId
  if Handled report.status then
    return ()
  else
    tryCatch (do
        let reportText ← p.prepare out reportId
        enqueue out reportId reportText)
      (p.fail out reportId)

end WeeklyReportWorkflow

end GroupAssessmentAgent
