import GroupAssessmentAgent.Reports.Frame

/-!
# One mail for each report

A run queues the report and then inserts its mail, in two transactions, and a run that finds the report queued does
nothing. `HalfQueued` is what a history variable says of the runs so far: the last one to write the status has queued
the report, and no mail was inserted since. `oneMail_iff`: there is never more than one mail for the report, whatever
raises and wherever the process dies, and a queued or sent report has its mail if and only if it is not half queued. A
run that is cut at this point loses the mail for good.
-/

namespace GroupAssessmentAgent
open Prog WeeklyReportWorkflow

/-! ### Status and mail -/

def reportStatus (reportId : Text) (w : World) : Option ReportStatus :=
  (w.weeklyReports.find? reportId).map WeeklyReport.status

/-- The mail that `_enqueue` makes for the report. -/
def IsMailOf (reportId : Text) (m : OutboxMessage) : Prop := m.jobId = some reportId ∧ m.subject = mailSubject reportId

instance (reportId : Text) (m : OutboxMessage) : Decidable (IsMailOf reportId m) := inferInstanceAs (Decidable (_ ∧ _))

/-- The number of mails for the report that were ever put into the outbox. -/
def reportMails (reportId : Text) (w : World) : Nat := (w.outbox.rows.filter fun m => IsMailOf reportId m).length

/-- The status says that the mail is there. -/
def Announced (status : Option ReportStatus) : Prop := status = some .queued ∨ status = some .sent

instance (status : Option ReportStatus) : Decidable (Announced status) := inferInstanceAs (Decidable (_ ∨ _))

/-- Whether the last UPDATE of the status has queued the report, with no INSERT of a mail since. -/
def halfQueued (reportId : Text) (l : Stmt) (_ w' : World) (before : Bool) : Bool :=
  match l with
  | .updateReport id => if id = reportId then reportStatus reportId w' = some .queued else before
  | .insertOutbox => false
  | _ => before

/-- What else happens to the report: its mail is sent. -/
def ReportAround (reportId : Text) (w w' : World) : Prop :=
  reportMails reportId w' = reportMails reportId w ∧
    (reportStatus reportId w' = reportStatus reportId w ∨
      reportStatus reportId w = some .queued ∧ 0 < reportMails reportId w ∧ reportStatus reportId w' = some .sent)

/-- The same beside the history. -/
def ReportAroundWatched (reportId : Text) (c c' : World × Bool) : Prop := ReportAround reportId c.1 c'.1 ∧ c'.2 = c.2

section
variable (out : Outside) (reportId : Text)

/-- A call of `run`. -/
def ReportCall (_ : Unit) (q : Prog Stmt (World × Bool) Exc Unit) (_ : World × Bool) : Prop :=
  ∃ p : WeeklyReportWorkflow, q = watch (halfQueued reportId) (p.run out reportId)

/-- A sequence of runs: every step may raise, and every run may be cut short. -/
def ReportRuns (w : World) (d : (Unit → Prog Stmt (World × Bool) Exc Unit) × (World × Bool)) : Prop :=
  PoolSteps (Env.faulty.watched Bool) (ReportAroundWatched reportId)
    (ReportCall out reportId) (fun _ => ret (), w, false) d

/-- The report is new: it is not announced, and has no mail. -/
def NewReport (w : World) : Prop := reportMails reportId w = 0 ∧ ¬ Announced (reportStatus reportId w)

instance (w : World) : Decidable (NewReport reportId w) := inferInstanceAs (Decidable (_ ∧ _))

/-! ### Stages -/

inductive ReportStage where
  | fresh | queued | mailed

def AtReportStage : ReportStage → World × Bool → Prop
  | .fresh, c => reportMails reportId c.1 = 0 ∧ ¬ Announced (reportStatus reportId c.1) ∧ c.2 = false
  | .queued, c => reportMails reportId c.1 = 0 ∧ reportStatus reportId c.1 = some .queued ∧ c.2 = true
  | .mailed, c => reportMails reportId c.1 = 1 ∧ Announced (reportStatus reportId c.1) ∧ c.2 = false

/-- The invariant of the runs. -/
def Staged (c : World × Bool) : Prop := ∃ stage, AtReportStage reportId stage c

variable {reportId}

theorem stage_stable (stage : ReportStage) : Stable (ReportAroundWatched reportId) (AtReportStage reportId stage) := by
  rintro ⟨w, a⟩ ⟨w', a'⟩ ⟨⟨hmails, hstatus⟩, hsame⟩ hc
  obtain rfl : a' = a := hsame
  cases stage with
  | fresh =>
    obtain ⟨hnone, hquiet, hhalf⟩ := hc
    rcases hstatus with hstatus | ⟨hqueued, _⟩
    · exact ⟨hmails.trans hnone, by rwa [hstatus], hhalf⟩
    · exact absurd (.inl hqueued) hquiet
  | queued =>
    obtain ⟨hnone, hqueued, hhalf⟩ := hc
    rcases hstatus with hstatus | ⟨_, hsome, _⟩
    · exact ⟨hmails.trans hnone, hstatus.trans hqueued, hhalf⟩
    · omega
  | mailed =>
    obtain ⟨hone, hannounced, hhalf⟩ := hc
    rcases hstatus with hstatus | ⟨_, _, hsent⟩
    · exact ⟨hmails.trans hone, by rwa [hstatus], hhalf⟩
    · exact ⟨hmails.trans hone, .inr hsent, hhalf⟩

theorem staged_stable : Stable (ReportAroundWatched reportId) (Staged reportId) := by
  rintro c c' hcc' ⟨stage, hc⟩
  exact ⟨stage, stage_stable stage c c' hcc' hc⟩

theorem reportMails_append (w : World) (row : Nat → OutboxMessage) (hrow : ∀ n, (row n).id = n) :
    reportMails reportId { w with outbox := w.outbox.append row hrow } =
      reportMails reportId w + if IsMailOf reportId (row w.outbox.next) then 1 else 0 := by
  simp only [reportMails, Table.append, List.filter_append, List.length_append]
  split_ifs with hmail
  · rw [List.filter_cons_of_pos (by simpa using hmail)]
    rfl
  · rw [List.filter_cons_of_neg (by simpa using hmail)]
    rfl

theorem reportStatus_writeStatus (reportId : Text) (w : World) (status : ReportStatus) (reportText error : Option Text)
    (now : Option Instant) :
    reportStatus reportId (ReportStore.writeStatus w reportId status reportText error now) =
      (reportStatus reportId w).map fun _ => status := by
  have hfind := Table.find?_modify w.weeklyReports reportId
    (fun r => ReportStore.withStatus r status reportText error now) (fun _ => rfl) reportId
  rw [if_pos rfl] at hfind
  refine (congrArg (Option.map WeeklyReport.status) hfind).trans ?_
  rw [reportStatus, Option.map_map, Option.map_map]
  rfl

theorem preserves_fresh {l : Stmt} {f : World → World}
    (hf : ∀ w, reportMails reportId (f w) = reportMails reportId w ∧
      reportStatus reportId (f w) = reportStatus reportId w) :
    Preserves (halfQueued reportId) (AtReportStage reportId .fresh) l f := by
  rintro ⟨w, a⟩ ⟨hnone, hquiet, hhalf⟩
  obtain ⟨hmails, hstatus⟩ := hf w
  refine ⟨hmails.trans hnone, by rwa [hstatus], ?_⟩
  have hnot : reportStatus reportId w ≠ some .queued := fun h => hquiet (.inl h)
  obtain rfl : a = false := hhalf
  unfold halfQueued
  split
  · split_ifs
    · rw [hstatus]
      exact decide_eq_false hnot
    · rfl
  · rfl
  · rfl

theorem covers_fresh : Covers (Preserves (halfQueued reportId) (AtReportStage reportId .fresh)) (fun _ => True)
    (fun m => ¬ IsMailOf reportId m) where
  look _ _ := preserves_fresh fun _ => ⟨rfl, rfl⟩
  ask _ := preserves_fresh fun _ => ⟨rfl, rfl⟩
  tick := preserves_fresh fun _ => ⟨rfl, rfl⟩
  job _ _ _ := preserves_fresh fun _ => ⟨rfl, rfl⟩
  status _ _ _ _ _ _ := preserves_fresh fun _ => ⟨rfl, rfl⟩
  outbox row hrow hmail := preserves_fresh fun w => ⟨by rw [reportMails_append, if_neg (hmail _), Nat.add_zero], rfl⟩
  put _ _ := preserves_fresh fun _ => ⟨rfl, rfl⟩
  delete _ _ := preserves_fresh fun _ => ⟨rfl, rfl⟩
  alert _ := preserves_fresh fun _ => ⟨rfl, rfl⟩
  files _ f _ hf := preserves_fresh fun w => by
    obtain ⟨t, n, heq⟩ := hf w
    exact heq ▸ ⟨rfl, rfl⟩

/-! ### Up to the last node -/

theorem writeStatus_fresh {c : World × Bool} (hnone : reportMails reportId c.1 = 0) {status : ReportStatus}
    (hquiet : ¬ Announced (some status)) (reportText error : Option Text) (now : Option Instant) :
    AtReportStage reportId .fresh (ReportStore.writeStatus c.1 reportId status reportText error now,
      halfQueued reportId (.updateReport reportId) c.1
        (ReportStore.writeStatus c.1 reportId status reportText error now) c.2) := by
  have hafter := reportStatus_writeStatus reportId c.1 status reportText error now
  have hstill :
      ¬ Announced (reportStatus reportId (ReportStore.writeStatus c.1 reportId status reportText error now)) := by
    rw [hafter]
    cases reportStatus reportId c.1 with
    | none => exact (by decide : ¬ Announced none)
    | some before => exact hquiet
  refine ⟨hnone, hstill, ?_⟩
  rw [halfQueued, if_pos rfl]
  exact decide_eq_false fun hqueued => hstill (.inl hqueued)

/-- A run up to its last node leaves a new report new. -/
abbrev KeepsFresh (reportId : Text) {α : Type} (p : M α) : Prop :=
  Always (Preserves (halfQueued reportId) (AtReportStage reportId .fresh)) p

theorem coversReport_fresh : CoversReport (Preserves (halfQueued reportId) (AtReportStage reportId .fresh)) reportId
    fun status => ¬ Announced (some status) where
  status _ reportText error now hquiet _ hc := writeStatus_fresh hc.1 hquiet reportText error now
  evidence _ _ _ hf := preserves_fresh fun w => by
    obtain ⟨t, heq⟩ := hf w
    exact heq ▸ ⟨rfl, rfl⟩

theorem coversCalls_fresh : CoversCalls (Preserves (halfQueued reportId) (AtReportStage reportId .fresh)) :=
  fun _ => preserves_fresh fun _ => ⟨rfl, rfl⟩

theorem coversModel_fresh : CoversModel (Preserves (halfQueued reportId) (AtReportStage reportId .fresh)) :=
  ⟨preserves_fresh fun _ => ⟨rfl, rfl⟩, preserves_fresh fun _ => ⟨rfl, rfl⟩⟩

theorem prepare_keepsFresh (p : WeeklyReportWorkflow) : KeepsFresh reportId (p.prepare out reportId) :=
  prepare_always covers_fresh out coversReport_fresh coversCalls_fresh coversModel_fresh p (by decide) (by decide)

/-! ### The judgements of a run -/

/-- The judgement of a run: each of its steps keeps the invariant. -/
abbrev ReportRG (reportId : Text) {α : Type} (Q : Except Exc α → World × Bool → Prop)
    (p : M α) (c : World × Bool) : Prop :=
  RG (Env.faulty.watched Bool) (ReportAroundWatched reportId) (fun _ c' => Staged reportId c') Q
    (watch (halfQueued reportId) p) c

theorem reportAround_refl (c : World × Bool) : ReportAroundWatched reportId c c := ⟨⟨rfl, .inl rfl⟩, rfl⟩

theorem keepsFresh_rg {α : Type} {p : M α} (hp : KeepsFresh reportId p) {c : World × Bool}
    (hc : AtReportStage reportId .fresh c) : ReportRG reportId (fun _ => AtReportStage reportId .fresh) p c :=
  Always.watch hp (stage_stable .fresh) (fun _ _ h => ⟨.fresh, h⟩) hc

theorem knownReport_rg {P : World × Bool → Prop} (hP : Stable (ReportAroundWatched reportId) P)
    (hstaged : ∀ c, P c → Staged reportId c) {K : WeeklyReport → World × Bool → Prop}
    (hK : ∀ r, Stable (ReportAroundWatched reportId) (K r))
    (hread : ∀ c r, P c → c.1.weeklyReports.find? reportId = some r → K r c) {c : World × Bool} (hc : P c) :
    ReportRG reportId (fun x c => P c ∧ ∀ r, x = .ok r → K r c) (knownReport reportId) c := by
  have hget : ReportRG reportId (fun x c => P c ∧ ∀ r, x = .ok (some r) → K r c)
      (ReportStore.get reportId) c := by
    have hQ : ∀ x : Except Exc (Option WeeklyReport),
        Stable (ReportAroundWatched reportId) fun c => P c ∧ ∀ r, x = .ok (some r) → K r c :=
      fun x c c' hcc' h => ⟨hP c c' hcc' h.1, fun r hr => hK r c c' hcc' (h.2 r hr)⟩
    rw [ReportRG, ReportStore.get, watch_observe]
    refine rg_atomic hP hQ (fun c hc _ => ⟨hstaged c hc, hc, fun r hr => ?_⟩) (fun c e hc _ => ⟨hc, fun r hr => ?_⟩) hc
    · exact hread c r hc (Except.ok.inj hr)
    · cases hr
  refine rg_watch_bind reportAround_refl hget (fun row c h => ?_) fun e c h => ⟨h.1, fun r hr => by cases hr⟩
  cases row with
  | none => exact fun c' hcc' => ⟨hP c c' hcc' h.1, fun r hr => by cases hr⟩
  | some r =>
    refine fun c' hcc' => ⟨hP c c' hcc' h.1, fun r' hr' => ?_⟩
    cases hr'
    exact hK r c c' hcc' (h.2 r rfl)

/-- No mail is inserted yet. -/
def Unsent (reportId : Text) (c : World × Bool) : Prop :=
  AtReportStage reportId .fresh c ∨ AtReportStage reportId .queued c

theorem unsent_stable : Stable (ReportAroundWatched reportId) (Unsent reportId) := by
  rintro c c' hcc' (h | h)
  · exact .inl (stage_stable .fresh c c' hcc' h)
  · exact .inr (stage_stable .queued c c' hcc' h)

/-- The last node has inserted the mail, or has failed before that. -/
abbrev Enqueued (reportId : Text) {α : Type} : Except Exc α → World × Bool → Prop :=
  Ends (AtReportStage reportId .mailed) (Unsent reportId)

theorem enqueued_stable {α : Type} (x : Except Exc α) : Stable (ReportAroundWatched reportId) (Enqueued reportId x) :=
  Stable.ends (stage_stable .mailed) unsent_stable x

theorem append_mailed {c : World × Bool} (hc : AtReportStage reportId .queued c) (row : Nat → OutboxMessage)
    (hrow : ∀ n, (row n).id = n) (hmail : IsMailOf reportId (row c.1.outbox.next)) :
    AtReportStage reportId .mailed ({ c.1 with outbox := c.1.outbox.append row hrow }, false) := by
  obtain ⟨hnone, hqueued, -⟩ := hc
  refine ⟨?_, .inl hqueued, rfl⟩
  show reportMails reportId { c.1 with outbox := c.1.outbox.append row hrow } = 1
  rw [reportMails_append, if_pos hmail, hnone]

theorem atStage_tick {stage : ReportStage} {c : World × Bool} (hc : AtReportStage reportId stage c) :
    AtReportStage reportId stage (c.1.tick, c.2) := by
  cases stage <;> exact hc

theorem utcnow_staged_rg {P : World × Bool → Prop} (hP : Stable (ReportAroundWatched reportId) P)
    (hstaged : ∀ c, P c → Staged reportId c) (htick : ∀ c, P c → P (c.1.tick, c.2)) {c : World × Bool} (hc : P c) :
    ReportRG reportId (fun _ => P) (utcnow out) c := by
  rw [ReportRG, utcnow, watch_atomic]
  exact rg_atomic hP (fun _ => hP) (fun c hc _ => ⟨hstaged _ (htick c hc), htick c hc⟩) (fun c e hc _ => hc) hc

theorem insertMail_rg (toEmail bodyText : Text) {c : World × Bool} (hc : AtReportStage reportId .queued c) :
    ReportRG reportId (Enqueued reportId) (do
      let _ ← Outbox.enqueue out toEmail (mailSubject reportId) bodyText (some reportId) [] none none) c := by
  have hfault : ∀ (_ : Exc) c, AtReportStage reportId .queued c → Unsent reportId c := fun _ c hc => .inr hc
  have henqueue : ReportRG reportId (Enqueued reportId)
      (Outbox.enqueue out toEmail (mailSubject reportId) bodyText (some reportId) [] none none) c := by
    refine rg_watch_bind reportAround_refl (utcnow_staged_rg out (stage_stable .queued) (fun c h => ⟨.queued, h⟩)
      (fun c => atStage_tick) hc) (fun createdAt c hc => ?_) hfault
    rw [watch_atomic]
    refine rg_atomic (stage_stable .queued) enqueued_stable (fun c hc _ => ?_) (fun c e hc _ => hfault e c hc) hc
    have hmailed := append_mailed hc (fun id =>
      { id, jobId := some reportId, toEmail, subject := mailSubject reportId, bodyText, createdAt })
      (fun _ => rfl) ⟨rfl, rfl⟩
    exact ⟨⟨.mailed, hmailed⟩, hmailed⟩
  exact rg_watch_bind reportAround_refl henqueue (fun _ c hc => rg_ret enqueued_stable hc) fun e c hc => hc

/-- The report is there, and new. -/
def Known (reportId : Text) (c : World × Bool) : Prop :=
  AtReportStage reportId .fresh c ∧ reportStatus reportId c.1 ≠ none

theorem known_stable : Stable (ReportAroundWatched reportId) (Known reportId) := by
  rintro c c' hcc' ⟨hfresh, hsome⟩
  refine ⟨stage_stable .fresh c c' hcc' hfresh, ?_⟩
  rcases hcc'.1.2 with hsame | ⟨_, _, hsent⟩
  · rwa [hsame]
  · simp [hsent]

theorem writeStatus_queued {c : World × Bool} (hc : Known reportId c) (reportText : Text) :
    AtReportStage reportId .queued (ReportStore.writeStatus c.1 reportId .queued (some reportText) none none,
      halfQueued reportId (.updateReport reportId) c.1
        (ReportStore.writeStatus c.1 reportId .queued (some reportText) none none) c.2) := by
  obtain ⟨⟨hnone, -, -⟩, hsome⟩ := hc
  obtain ⟨status, hstatus⟩ := Option.ne_none_iff_exists'.1 hsome
  have hafter := reportStatus_writeStatus reportId c.1 .queued (some reportText) none none
  rw [hstatus, Option.map_some] at hafter
  refine ⟨hnone, hafter, ?_⟩
  rw [halfQueued, if_pos rfl]
  exact decide_eq_true hafter

theorem setQueued_rg (reportText : Text) {c : World × Bool} (hc : Known reportId c) :
    ReportRG reportId (Ends (AtReportStage reportId .queued) (AtReportStage reportId .fresh))
      (ReportStore.setStatus out reportId .queued (some reportText) none) c := by
  have hset : ReportStore.setStatus out reportId .queued (some reportText) none =
      change (.updateReport reportId) fun w =>
        ReportStore.writeStatus w reportId .queued (some reportText) none none := rfl
  rw [ReportRG, hset, watch_change]
  refine rg_change known_stable (Stable.ends (stage_stable .queued) (stage_stable .fresh)) (fun c hc _ => ?_)
    (fun c e hc _ => hc.1) hc
  have hqueued := writeStatus_queued hc reportText
  exact ⟨⟨.queued, hqueued⟩, hqueued⟩

theorem enqueue_rg (reportText : Text) {c : World × Bool} (hc : AtReportStage reportId .fresh c) :
    ReportRG reportId (Enqueued reportId) (enqueue out reportId reportText) c := by
  have hread := knownReport_rg (stage_stable .fresh) (fun c h => ⟨.fresh, h⟩) (fun _ => known_stable)
    (fun c r hc hrow => ⟨hc, by simp [reportStatus, hrow]⟩) hc
  refine rg_watch_bind reportAround_refl hread (fun report c hc => ?_) fun e c hc => .inl hc.1
  exact rg_watch_bind reportAround_refl (setQueued_rg out reportText (hc.2 report rfl))
    (fun _ c hc => insertMail_rg out _ _ hc) fun e c hc => .inl hc

theorem setFailed_rg (error : Option Text) {c : World × Bool} (hc : Unsent reportId c) :
    ReportRG reportId (Ends (AtReportStage reportId .fresh) fun _ => True)
      (ReportStore.setStatus out reportId .failed none error) c := by
  have hstaged : ∀ c, Unsent reportId c → Staged reportId c := by
    rintro c (h | h)
    · exact ⟨.fresh, h⟩
    · exact ⟨.queued, h⟩
  have hset : ReportStore.setStatus out reportId .failed none error =
      (utcnow out).bind fun now => change (.updateReport reportId) fun w =>
        ReportStore.writeStatus w reportId .failed none error (some now) := rfl
  have hclock := utcnow_staged_rg out unsent_stable hstaged (fun c hc => hc.imp atStage_tick atStage_tick) hc
  rw [hset]
  refine rg_watch_bind reportAround_refl hclock (fun now c hc => ?_) fun _ _ _ => trivial
  rw [watch_change]
  have hends : ∀ x : Except Exc Unit, Stable (ReportAroundWatched reportId)
      (Ends (AtReportStage reportId .fresh) (fun _ => True) x) :=
    fun x => Stable.ends (stage_stable .fresh) (fun _ _ _ _ => trivial) x
  refine rg_change unsent_stable hends (fun c hc _ => ?_) (fun _ _ _ _ => trivial) hc
  have hnone : reportMails reportId c.1 = 0 := by
    rcases hc with hc | hc
    · exact hc.1
    · exact hc.1
  have hfresh := writeStatus_fresh hnone (by decide : ¬ Announced (some .failed)) none error (some now)
  exact ⟨⟨.fresh, hfresh⟩, hfresh⟩

theorem fail_rg (p : WeeklyReportWorkflow) (e : Exc) {c : World × Bool} (hc : Unsent reportId c) :
    ReportRG reportId (fun _ _ => True) (p.fail out reportId e) c := by
  refine rg_watch_bind reportAround_refl (setFailed_rg out _ hc) (fun _ c hc => ?_) fun _ _ _ => trivial
  have halert : KeepsFresh reportId (p.admin.alert out .infrastructure
      (cat ["Weekly report ", reportId, " failed: ", e.message]) []) := by
    refine alert_always covers_fresh out p.admin _ _ _ fun m _ _ hnone hmail => ?_
    have hjob := hnone.symm.trans hmail.1
    cases hjob
  have hrest := halert.bind fun _ => always_ret ()
  exact (keepsFresh_rg hrest hc).mono (fun _ _ h => h) fun _ _ _ => trivial

/-- A run that finds the report neither queued nor sent finds it new. -/
theorem fresh_of_not_handled {c : World × Bool} (hc : Staged reportId c) {r : WeeklyReport}
    (hrow : c.1.weeklyReports.find? reportId = some r) (hnot : ¬ WeeklyReportWorkflow.Handled r.status) :
    AtReportStage reportId .fresh c := by
  have hstatus : reportStatus reportId c.1 = some r.status := by rw [reportStatus, hrow, Option.map_some]
  have hannounced : ¬ Announced (reportStatus reportId c.1) := by
    rw [hstatus]
    rintro (h | h)
    · exact hnot (.inr (.inl (Option.some.inj h)))
    · exact hnot (.inr (.inr (Option.some.inj h)))
  obtain ⟨stage, hc⟩ := hc
  cases stage with
  | fresh => exact hc
  | queued => exact absurd (.inl hc.2.1) hannounced
  | mailed => exact absurd hc.2.1 hannounced

theorem run_rg (p : WeeklyReportWorkflow) {c : World × Bool} (hc : Staged reportId c) :
    ReportRG reportId (fun _ _ => True) (p.run out reportId) c := by
  have hunhandled : ∀ r : WeeklyReport, Stable (ReportAroundWatched reportId) fun c =>
      ¬ WeeklyReportWorkflow.Handled r.status → AtReportStage reportId .fresh c :=
    fun r c c' hcc' h hnot => stage_stable .fresh c c' hcc' (h hnot)
  have hread := knownReport_rg staged_stable (fun c h => h) hunhandled (fun c r hc => fresh_of_not_handled hc) hc
  refine rg_watch_bind reportAround_refl hread (fun report c hc => ?_) fun _ _ _ => trivial
  by_cases hhandled : WeeklyReportWorkflow.Handled report.status
  · rw [if_pos hhandled]
    exact fun _ _ => trivial
  · have hfresh := hc.2 report rfl hhandled
    rw [if_neg hhandled]
    refine rg_watch_tryCatch reportAround_refl (M := Enqueued reportId) ?_ (fun _ _ _ => trivial)
      fun e c hc => fail_rg out p e hc
    exact rg_watch_bind reportAround_refl (keepsFresh_rg (prepare_keepsFresh out p) hfresh)
      (fun reportText c hc => enqueue_rg out reportText hc) fun e c hc => .inl hc

/-! ### Sequences of runs -/

theorem reportRuns_spec : PoolSpec (Env.faulty.watched Bool) (ReportAroundWatched reportId)
    (fun t q c => ReportCall out reportId t q c ∧ Staged reportId c) (fun _ => ReportAroundWatched reportId)
    (fun _ _ c' => Staged reportId c') fun _ _ => True where
  refl _ := reportAround_refl
  trans := by
    rintro _ a b c ⟨⟨hmails, hstatus⟩, hhalf⟩ ⟨⟨hmails', hstatus'⟩, hhalf'⟩
    refine ⟨⟨hmails'.trans hmails, ?_⟩, hhalf'.trans hhalf⟩
    rcases hstatus with hstatus | ⟨hqueued, hsome, hsent⟩
    · rw [hmails, hstatus] at hstatus'
      exact hstatus'
    · rcases hstatus' with hstatus' | ⟨hqueued', _⟩
      · exact .inr ⟨hqueued, hsome, hstatus'.trans hsent⟩
      · rw [hsent] at hqueued'
        cases hqueued'
  others t u h := absurd (Subsingleton.elim t u) h
  around _ _ _ h := h
  called := by
    rintro t q c ⟨⟨p, rfl⟩, hc⟩
    exact run_rg out p hc

/-- **One mail for each report.** A queued or sent report has its mail if and only if it is not half queued, and never
more than one. -/
theorem oneMail_iff {w : World} (hnew : NewReport reportId w)
    {d : (Unit → Prog Stmt (World × Bool) Exc Unit) × (World × Bool)} (hrun : ReportRuns out reportId w d) :
    reportMails reportId d.2.1 ≤ 1 ∧
      ((Announced (reportStatus reportId d.2.1) → reportMails reportId d.2.1 = 1) ↔ d.2.2 = false) := by
  have hstart : Staged reportId (w, false) := ⟨.fresh, hnew.1, hnew.2, rfl⟩
  obtain ⟨-, stage, hstage⟩ := (reportRuns_spec out).inv_of_calls (fun _ _ _ h _ => h)
    (fun c c' => staged_stable c c') hrun (fun _ _ _ => trivial) hstart
  cases stage with
  | fresh =>
    obtain ⟨hnone, hquiet, hhalf⟩ := hstage
    exact ⟨by omega, iff_of_true (fun h => absurd h hquiet) hhalf⟩
  | queued =>
    obtain ⟨hnone, hqueued, hhalf⟩ := hstage
    refine ⟨by omega, iff_of_false (fun h => ?_) (by simp [hhalf])⟩
    have := h (.inl hqueued)
    omega
  | mailed =>
    obtain ⟨hone, -, hhalf⟩ := hstage
    exact ⟨by omega, iff_of_true (fun _ => hone) hhalf⟩

end

/-- Between the runs there is at most one mail for the report, and one where it is queued or sent. -/
def AlwaysOneMail (out : Outside) (reportId : Text) : Prop :=
  ∀ w d, NewReport reportId w → ReportRuns out reportId w d → d.1 () = ret () →
    reportMails reportId d.2.1 ≤ 1 ∧ (Announced (reportStatus reportId d.2.1) → reportMails reportId d.2.1 = 1)

/-- A report of a group that nothing is known of. -/
def teamReport : WeeklyReport :=
  { reportId := "WEEKLY-2026-09-07-0007", groupId := 7, groupName := "Team A", ownerEmail := "alice@uni.ac.uk",
    backendUserId := 12, periodStart := "2026-09-07", periodEnd := "2026-09-14", createdAt := 0 }

def teamWorld : World := { weeklyReports := ⟨[teamReport], List.nodup_singleton _⟩ }

/-- Backends that have nothing to tell. -/
def quietWorkflow : WeeklyReportWorkflow where
  diarisation :=
    { login := fun _ _ => .ok "token", listGroups := fun _ _ => .ok [⟨7, "Team A"⟩],
      createMeeting := fun _ _ _ _ => .ok 1,
      uploadFile := fun _ _ _ _ _ _ => .ok 1, addAttendee := fun _ _ _ _ _ => .ok (),
      resolveAliases := fun _ _ _ _ => .ok [],
      searchTranscripts := fun _ _ _ _ => .ok [] }
  github := { findRepoByGroupName := fun _ _ => .ok none, query := fun _ _ _ => .ok [] }
  admin := { adminEmail := none }

/-- A run for the report of the team. -/
def teamRun : Prog Stmt (World × Bool) Exc Unit :=
  watch (halfQueued teamReport.reportId) (quietWorkflow.run .plain teamReport.reportId)

theorem teamRun_called (c : World × Bool) : ReportCall .plain teamReport.reportId () teamRun c := ⟨quietWorkflow, rfl⟩

/-- A run that nothing disturbs. -/
theorem oneMail_team : ∃ d, ReportRuns .plain teamReport.reportId teamWorld d ∧
    Announced (reportStatus teamReport.reportId d.2.1) ∧ reportMails teamReport.reportId d.2.1 = 1 := by
  have hrun : ReportRuns .plain teamReport.reportId teamWorld _ :=
    .call .refl (teamRun_called _) (steps_run _ (fun _ _ => trivial) _ _)
  have hannounced :
      Announced (reportStatus teamReport.reportId (teamRun.run (teamWorld, false)).2.1) := by decide +kernel
  exact ⟨_, hrun, hannounced, ((oneMail_iff .plain (by decide +kernel) hrun).2.2 (by decide +kernel)) hannounced⟩

/-- The process dies after the UPDATE to QUEUED, and the next run finds nothing to do. -/
theorem mail_lost : ¬ AlwaysOneMail .plain teamReport.reportId := by
  intro h
  have hsteps : ∀ n (c : Prog Stmt (World × Bool) Exc Unit × (World × Bool)),
      Steps (Env.faulty.watched Bool) c (follow (List.replicate n none) c) := steps_follow_none fun _ _ => trivial
  have hrun : ReportRuns .plain teamReport.reportId teamWorld _ :=
    .call (.call .refl (teamRun_called _) (hsteps 13 _)) (teamRun_called _) (steps_run _ (fun _ _ => trivial) _ _)
  have hend := h teamWorld _ (by decide +kernel) hrun rfl
  exact absurd hend (by decide +kernel)

end GroupAssessmentAgent
