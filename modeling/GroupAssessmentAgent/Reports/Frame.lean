import GroupAssessmentAgent.Jobs.Course
import GroupAssessmentAgent.Reports.Workflow

/-!
# What the weekly workflow consists of

The statements of a run are those of the stores that `Covers` lists, the calls of the backends and of the model, and
the statements on the reports and their evidence (`CoversReports`). `prepare_always` is about the nodes up to the last
one, `run_always` about the whole run.
-/

namespace GroupAssessmentAgent
open Prog WeeklyReportWorkflow

/-- The statements on the report are covered, for the statuses in `S`, and those on the evidence. -/
structure CoversReport (A : Stmt → (World → World) → Prop) (reportId : Text) (S : ReportStatus → Prop) : Prop where
  status : ∀ status reportText error now, S status →
    A (.updateReport reportId) fun w => ReportStore.writeStatus w reportId status reportText error now
  evidence : ∀ l f, l = .deleteEvidence ∨ l = .insertEvidence → (∀ w, ∃ t, f w = { w with reportEvidence := t }) → A l f

section
variable {A : Stmt → (World → World) → Prop} {J : Text → Prop} {T : OutboxMessage → Prop} (hA : Covers A J T)
  (out : Outside)

section
variable (hcalls : CoversCalls A)
include hcalls

theorem collectQuery_always (github : GithubRaginatorClient) (source : Text) (repoId : Nat) (question citation : Text) :
    Always A (WeeklySourceCollector.collectQuery github source repoId question citation) := by
  refine Always.bind (catching_always _ (callBackend_always hcalls _ _)) fun answer => ?_
  cases answer with
  | error e => trivial
  | ok answer => trivial

theorem collectMeetings_always (diarisation : DiarisationClient) (token : Text) (group : GroupSummary)
    (period : Period) : Always A (WeeklySourceCollector.collectMeetings out diarisation token group period) := by
  refine Always.bind (catching_always _ (callBackend_always hcalls _ _)) fun chunks => ?_
  cases chunks with
  | error e => trivial
  | ok chunks => exact (always_ofExcept _).bind fun _ => trivial

theorem collectGithubAndTrello_always (github : GithubRaginatorClient) (group : GroupSummary) (period : Period) :
    Always A (WeeklySourceCollector.collectGithubAndTrello github group period) := by
  refine Always.bind (catching_always _ (callBackend_always hcalls _ _)) fun repo => ?_
  obtain e | _ | repo := repo
  · trivial
  · trivial
  · refine (collectQuery_always hcalls _ _ _ _ _).bind fun _ => ?_
    exact (collectQuery_always hcalls _ _ _ _ _).bind fun _ => trivial

omit hcalls in
theorem future_always {α : Type} {p : M α} (hp : Always A p) : Always A (WeeklySourceCollector.future p) :=
  Always.tryCatch (hp.bind fun _ => trivial) fun _ => trivial

theorem collectSources_always (diarisation : DiarisationClient) (github : GithubRaginatorClient) (token : Text)
    (group : GroupSummary) (period : Period) :
    Always A (WeeklySourceCollector.collect out diarisation github token group period) := by
  refine (future_always (collectMeetings_always out hcalls _ _ _ _)).bind fun meetings => ?_
  refine (future_always (collectGithubAndTrello_always hcalls _ _ _)).bind fun projectTools => ?_
  exact (always_ofExcept _).bind fun _ => (always_ofExcept _).bind fun _ => trivial

end

section
variable {reportId : Text} {S : ReportStatus → Prop} (hreport : CoversReport A reportId S)
include hreport

theorem insertAllEvidence_always (items : List EvidenceItem) :
    Always A (ReportStore.insertAllEvidence reportId items) := by
  induction items with
  | nil => trivial
  | cons item items ih =>
    refine Always.bind (always_atomic (hreport.evidence _ _ (.inr rfl) fun w => ?_)) fun _ => ih
    simp only
    split_ifs
    · exact ⟨w.reportEvidence, rfl⟩
    · exact ⟨_, rfl⟩

include hA

theorem setReportStatus_always {status : ReportStatus} (hstatus : S status) (reportText error : Option Text) :
    Always A (ReportStore.setStatus out reportId status reportText error) := by
  have hnow : Always A (ReportStore.concludedAt out status) := by
    unfold ReportStore.concludedAt
    split_ifs
    · exact (utcnow_always hA out).bind fun _ => trivial
    · trivial
  exact hnow.bind fun now => always_change (hreport.status _ _ _ _ hstatus)

omit hreport in
theorem knownReport_always : Always A (knownReport reportId) := by
  refine Always.bind (always_observe (hA.look _ rfl) _) fun report => ?_
  cases report with
  | none => trivial
  | some report => trivial

theorem prepare_always (hcalls : CoversCalls A) (hmodel : CoversModel A) (p : WeeklyReportWorkflow)
    (hcollecting : S .collecting) (hsynthesising : S .synthesising) : Always A (p.prepare out reportId) := by
  have hload : Always A (load out reportId) :=
    (knownReport_always hA).bind fun _ => setReportStatus_always hA out hreport hcollecting none none
  have hcollect : Always A (p.collect out reportId) := by
    refine (knownReport_always hA).bind fun report => (callBackend_always hcalls _ _).bind fun token => ?_
    refine (always_ofExcept _).bind fun start => (always_ofExcept _).bind fun stop => ?_
    exact collectSources_always out hcalls _ _ _ _ _
  have hpersist : ∀ collected, Always A (persist out reportId collected) := by
    intro collected
    refine Always.bind ?_ fun _ => setReportStatus_always hA out hreport hsynthesising none none
    refine Always.bind (always_change (hreport.evidence _ _ (.inl rfl) fun _ => ⟨_, rfl⟩)) fun _ => ?_
    exact insertAllEvidence_always hreport _
  refine hload.bind fun _ => hcollect.bind fun collected => (hpersist collected).bind fun _ => ?_
  exact (knownReport_always hA).bind fun _ => (generateText_always out hmodel _ _).bind fun _ => trivial

end

theorem run_always {reportId : Text} (hA : Covers A J fun _ => True) (hcalls : CoversCalls A) (hmodel : CoversModel A)
    (hreport : CoversReport A reportId fun _ => True) (p : WeeklyReportWorkflow) : Always A (p.run out reportId) := by
  have henqueue : ∀ reportText, Always A (enqueue out reportId reportText) := by
    intro reportText
    refine (knownReport_always hA).bind fun report => ?_
    refine (setReportStatus_always hA out hreport trivial _ _).bind fun _ => ?_
    exact (enqueue_always hA out _ _ _ _ _ _ _ fun _ _ => trivial).bind fun _ => trivial
  have hfail : ∀ e, Always A (p.fail out reportId e) := by
    intro e
    refine (setReportStatus_always hA out hreport trivial _ _).bind fun _ => ?_
    exact (alert_always hA out _ _ _ _ fun _ _ _ _ => trivial).bind fun _ => trivial
  refine (knownReport_always hA).bind fun report => ?_
  split_ifs
  · trivial
  · refine Always.tryCatch (Always.bind ?_ henqueue) hfail
    exact prepare_always hA out hreport hcalls hmodel p trivial trivial

end

end GroupAssessmentAgent
