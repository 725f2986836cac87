import GroupAssessmentAgent.Reports.Workflow

/-!
# The identity of a weekly report

`create_or_get` names a report by its group and the first day of its period, and looks for it by its group and both
ends of the period. Its INSERT passes over a report of the same period and fails on one of the same name, so the calls
of a sequence all find their reports exactly if no two of them agree in the group and the first day alone
(`identified_iff`).
-/

namespace GroupAssessmentAgent
open Prog

/-! ### Dates -/

namespace Instant.Date

def daysInMonth (year month : Nat) : Nat :=
  if month = 2 then
    if year % 4 = 0 ∧ (year % 100 ≠ 0 ∨ year % 400 = 0) then 29 else 28
  else if month = 4 ∨ month = 6 ∨ month = 9 ∨ month = 11 then 30
  else 31

/-- A date that `datetime.date` can hold. -/
structure Valid (d : Date) : Prop where
  year : 1 ≤ d.year ∧ d.year ≤ 9999
  month : 1 ≤ d.month ∧ d.month ≤ 12
  day : 1 ≤ d.day ∧ d.day ≤ daysInMonth d.year d.month

instance (d : Date) : Decidable d.Valid :=
  decidable_of_iff ((1 ≤ d.year ∧ d.year ≤ 9999) ∧ (1 ≤ d.month ∧ d.month ≤ 12) ∧
    1 ≤ d.day ∧ d.day ≤ daysInMonth d.year d.month) ⟨fun h => ⟨h.1, h.2.1, h.2.2⟩, fun h => ⟨h.1, h.2, h.3⟩⟩

theorem daysInMonth_le (year month : Nat) : daysInMonth year month ≤ 31 := by
  unfold daysInMonth
  split_ifs <;> decide

theorem isoformat_length {d : Date} (h : d.Valid) : d.isoformat.length = 10 := by
  have hday := h.day.2.trans (daysInMonth_le _ _)
  have hyear : (padded 4 d.year).length = 4 := (padded_length_iff (by decide)).2 (Nat.lt_succ_of_le h.year.2)
  have hmonth : (padded 2 d.month).length = 2 :=
    (padded_length_iff (by decide)).2 (lt_of_le_of_lt h.month.2 (by decide))
  have hday : (padded 2 d.day).length = 2 := (padded_length_iff (by decide)).2 (lt_of_le_of_lt hday (by decide))
  simp [isoformat, cat, hyear, hmonth, hday]

end Instant.Date

/-- A text that `date.isoformat` writes. -/
def IsoDate (s : Text) : Prop := ∃ d : Instant.Date, d.Valid ∧ s = d.isoformat

theorem IsoDate.length {s : Text} (h : IsoDate s) : s.length = 10 := by
  obtain ⟨d, hd, rfl⟩ := h
  exact Instant.Date.isoformat_length hd

/-! ### `create_or_get` -/

namespace ReportStore

/-- Whether an INTEGER column holds the number. -/
def FitsInteger (n : Nat) : Prop := n ≤ 9223372036854775807

instance (n : Nat) : Decidable (FitsInteger n) := inferInstanceAs (Decidable (_ ≤ _))

def tooLarge : Exc := ⟨.overflowError, "Python int too large to convert to SQLite INTEGER"⟩

def reportIdOf (groupId : Nat) (periodStart : Text) : Text := cat ["WEEKLY-", periodStart, "-", padded 4 groupId]

/-- The report is the one of this group and period. -/
def OfPeriod (groupId : Nat) (periodStart periodEnd : Text) (r : WeeklyReport) : Prop :=
  r.groupId = groupId ∧ r.periodStart = periodStart ∧ r.periodEnd = periodEnd

instance (groupId : Nat) (periodStart periodEnd : Text) : DecidablePred (OfPeriod groupId periodStart periodEnd) :=
  fun _ => inferInstanceAs (Decidable (_ ∧ _ ∧ _))

/-- The INSERT, `ON CONFLICT(group_id, period_start, period_end) DO NOTHING`. -/
def insertReport (r : WeeklyReport) : M Unit :=
  atomic (.insertReport r.reportId) fun w =>
    if ¬ (FitsInteger r.groupId ∧ FitsInteger r.backendUserId) then (.error tooLarge, w)
    else if w.weeklyReports.rows.any (OfPeriod r.groupId r.periodStart r.periodEnd) then (.ok (), w)
    else
      match w.weeklyReports.insert? r with
      | some t => (.ok (), { w with weeklyReports := t })
      | none => (.error ⟨.integrityError, "UNIQUE constraint failed: weekly_reports.report_id"⟩, w)

def getByPeriod (groupId : Nat) (periodStart periodEnd : Text) : M (Option WeeklyReport) :=
  observeE .selectReports fun w =>
    if FitsInteger groupId then .ok (w.weeklyReports.rows.find? (OfPeriod groupId periodStart periodEnd))
    else .error tooLarge

def createOrGet (out : Outside) (groupId : Nat) (groupName ownerEmail : Text) (backendUserId : Nat)
    (periodStart periodEnd : Text) : M (Option WeeklyReport) := do
  let now ← utcnow out
  insertReport { reportId := reportIdOf groupId periodStart, groupId, groupName, ownerEmail, backendUserId,
                 periodStart, periodEnd, createdAt := now }
  getByPeriod groupId periodStart periodEnd

/-- The arguments of a call. -/
structure Wanted where
  groupId : Nat
  groupName : Text
  ownerEmail : Text
  backendUserId : Nat
  periodStart : Text
  periodEnd : Text

namespace Wanted
variable (c : Wanted)

/-- The report is the one that the call asks for. -/
def Is (r : WeeklyReport) : Prop := OfPeriod c.groupId c.periodStart c.periodEnd r

instance : DecidablePred c.Is := fun r => inferInstanceAs (Decidable (OfPeriod _ _ _ r))

/-- The database can hold the numbers of the call. -/
def Fits : Prop := FitsInteger c.groupId ∧ FitsInteger c.backendUserId

instance : Decidable c.Fits := inferInstanceAs (Decidable (_ ∧ _))

def Dated : Prop := IsoDate c.periodStart ∧ IsoDate c.periodEnd

def reportId : Text := reportIdOf c.groupId c.periodStart

def call (out : Outside) : M (Option WeeklyReport) :=
  createOrGet out c.groupId c.groupName c.ownerEmail c.backendUserId c.periodStart c.periodEnd

/-- Both calls ask for one report. -/
def Same (d : Wanted) : Prop := c.groupId = d.groupId ∧ c.periodStart = d.periodStart ∧ c.periodEnd = d.periodEnd

end Wanted

/-- How a call ends: with a report that is there, with a new one, or with an exception. -/
inductive Created (c : Wanted) (w : World) : Except Exc (Option WeeklyReport) → World → Prop
  | found (r : WeeklyReport) {w'} : c.Fits → r ∈ w.weeklyReports.rows → c.Is r → w'.weeklyReports = w.weeklyReports →
      Created c w (.ok (some r)) w'
  | added (r : WeeklyReport) {w'} : c.Fits → (∀ s ∈ w.weeklyReports.rows, s.reportId ≠ c.reportId) → c.Is r →
      r.reportId = c.reportId → w'.weeklyReports.rows = w.weeklyReports.rows ++ [r] → Created c w (.ok (some r)) w'
  | refused (e : Exc) {w'} :
      (¬ c.Fits ∨ (∀ s ∈ w.weeklyReports.rows, ¬ c.Is s) ∧ ∃ s ∈ w.weeklyReports.rows, s.reportId = c.reportId) →
      w'.weeklyReports = w.weeklyReports → Created c w (.error e) w'

/-- The row that a call adds at this time. -/
def Wanted.row (c : Wanted) (now : Instant) : WeeklyReport :=
  { reportId := c.reportId, groupId := c.groupId, groupName := c.groupName, ownerEmail := c.ownerEmail,
    backendUserId := c.backendUserId, periodStart := c.periodStart, periodEnd := c.periodEnd, createdAt := now }

theorem call_run (out : Outside) (c : Wanted) (w : World) :
    (c.call out).run w = ((insertReport (c.row (w.now out))).bind fun _ =>
      getByPeriod c.groupId c.periodStart c.periodEnd).run w.tick :=
  rfl

theorem insertReport_run (c : Wanted) (now : Instant) (w : World) :
    (insertReport (c.row now)).run w =
      if ¬ c.Fits then (.error tooLarge, w)
      else if w.weeklyReports.rows.any c.Is then (.ok (), w)
      else
        match w.weeklyReports.insert? (c.row now) with
        | some t => (.ok (), { w with weeklyReports := t })
        | none => (.error ⟨.integrityError, "UNIQUE constraint failed: weekly_reports.report_id"⟩, w) :=
  run_atomic _ _ _

theorem getByPeriod_run {c : Wanted} (hfits : c.Fits) (w : World) :
    (getByPeriod c.groupId c.periodStart c.periodEnd).run w = (.ok (w.weeklyReports.rows.find? c.Is), w) := by
  rw [getByPeriod, run_observeE, if_pos hfits.1]
  rfl

theorem call_created (out : Outside) (c : Wanted) (w : World) :
    Created c w ((c.call out).run w).1 ((c.call out).run w).2 := by
  rw [call_run]
  generalize w.now out = now
  have hinsert := insertReport_run c now w.tick
  by_cases hfits : c.Fits
  · rw [if_neg (not_not.2 hfits)] at hinsert
    by_cases hthere : ∃ r ∈ w.weeklyReports.rows, c.Is r
    · have hany : w.tick.weeklyReports.rows.any c.Is = true := by simpa [World.tick] using hthere
      rw [if_pos hany] at hinsert
      rw [run_bind_ok hinsert, getByPeriod_run hfits]
      cases hfind : w.tick.weeklyReports.rows.find? c.Is with
      | none =>
        obtain ⟨r, hr, hc⟩ := hthere
        exact absurd hc (by simpa using List.find?_eq_none.1 hfind r hr)
      | some r => exact .found r hfits (List.mem_of_find?_eq_some hfind) (by simpa using List.find?_some hfind) rfl
    · have hany : ¬ w.tick.weeklyReports.rows.any c.Is = true := by simpa [World.tick] using hthere
      rw [if_neg hany] at hinsert
      have hnone : ∀ s ∈ w.weeklyReports.rows, ¬ c.Is s := fun s hs hc => hthere ⟨s, hs, hc⟩
      cases hadd : w.tick.weeklyReports.insert? (c.row now) with
      | none =>
        rw [hadd] at hinsert
        obtain ⟨s, hs⟩ := Table.insert?_eq_none hadd
        rw [run_bind_error hinsert]
        exact .refused _ (.inr ⟨hnone, s, Table.find?_mem hs, Table.find?_key hs⟩) rfl
      | some t =>
        rw [hadd] at hinsert
        have hrows : t.rows = w.weeklyReports.rows ++ [c.row now] := Table.insert?_rows hadd
        have hfind : t.rows.find? c.Is = some (c.row now) := by
          rw [hrows, List.find?_append, List.find?_eq_none.2 (by simpa using hnone)]
          simp [Wanted.Is, OfPeriod, Wanted.row]
        have hnew : w.tick.weeklyReports.find? (c.row now).reportId = none :=
          (Table.insert?_isSome _ _).1 (by simp [hadd])
        rw [run_bind_ok hinsert, getByPeriod_run hfits]
        simp only [hfind]
        refine .added (c.row now) hfits (fun s hs hid => ?_) ⟨rfl, rfl, rfl⟩ rfl hrows
        exact Table.find?_eq_none.1 hnew (List.mem_map.2 ⟨s, hs, hid⟩)
  · rw [if_pos hfits] at hinsert
    rw [run_bind_error hinsert]
    exact .refused _ (.inl hfits) rfl

/-! ### Sequences of calls -/

/-- The calls one after another, each with its result. -/
def outcomes (out : Outside) : List Wanted → World → List (Wanted × Except Exc (Option WeeklyReport))
  | [], _ => []
  | c :: calls, w => (c, ((c.call out).run w).1) :: outcomes out calls ((c.call out).run w).2

/-- Each call has its report, the same one for the same group and period, and another name for another. -/
structure Identified (results : List (Wanted × Except Exc (Option WeeklyReport))) : Prop where
  found : ∀ p ∈ results, ∃ r, p.2 = .ok (some r) ∧ p.1.Is r
  same : ∀ p ∈ results, ∀ q ∈ results, p.1.Same q.1 → p.2 = q.2
  apart : ∀ p ∈ results, ∀ q ∈ results, ¬ p.1.Same q.1 →
    ∀ r s, p.2 = .ok (some r) → q.2 = .ok (some s) → r.reportId ≠ s.reportId

/-- The names of the reports are those of their groups and first days. -/
def Named (t : Table WeeklyReport.reportId) : Prop := ∀ r ∈ t.rows, r.reportId = reportIdOf r.groupId r.periodStart

variable {c d : Wanted} {r : WeeklyReport} {w w' : World} {x : Except Exc (Option WeeklyReport)}

theorem Wanted.Is.reportId (h : c.Is r) : reportIdOf r.groupId r.periodStart = c.reportId := by
  rw [h.1, h.2.1, Wanted.reportId]

theorem Wanted.Is.same (hc : c.Is r) (hd : d.Is r) : c.Same d :=
  ⟨hc.1.symm.trans hd.1, hc.2.1.symm.trans hd.2.1, hc.2.2.symm.trans hd.2.2⟩

theorem Wanted.Is.of_same (hd : d.Is r) (h : c.Same d) : c.Is r :=
  ⟨hd.1.trans h.1.symm, hd.2.1.trans h.2.1.symm, hd.2.2.trans h.2.2.symm⟩

theorem Created.rows (h : Created c w x w') : w.weeklyReports.rows <+: w'.weeklyReports.rows := by
  cases h with
  | found _ _ _ _ hw' => exact hw' ▸ List.prefix_refl _
  | added _ _ _ _ _ hrows => exact hrows ▸ List.prefix_append _ _
  | refused _ _ hw' => exact hw' ▸ List.prefix_refl _

theorem Created.source (h : Created c w x w') (hr : r ∈ w'.weeklyReports.rows) :
    r ∈ w.weeklyReports.rows ∨ c.Is r := by
  cases h with
  | found _ _ _ _ hw' => exact .inl (hw' ▸ hr)
  | added s _ _ hc _ hrows =>
    rw [hrows] at hr
    rcases List.mem_append.1 hr with hr | hr
    · exact .inl hr
    · exact .inr (List.mem_singleton.1 hr ▸ hc)
  | refused _ _ hw' => exact .inl (hw' ▸ hr)

theorem Created.named (h : Created c w x w') (hnamed : Named w.weeklyReports) : Named w'.weeklyReports := by
  cases h with
  | found _ _ _ _ hw' => rwa [hw']
  | added r _ _ hc hid hrows =>
    rw [Named, hrows]
    refine List.forall_mem_append.2 ⟨hnamed, List.forall_mem_singleton.2 ?_⟩
    rw [hid, hc.reportId]
  | refused _ _ hw' => rwa [hw']

theorem Created.mem (h : Created c w (.ok (some r)) w') : c.Fits ∧ c.Is r ∧ r ∈ w'.weeklyReports.rows := by
  cases h with
  | found _ hfits hr hc hw' => exact ⟨hfits, hc, hw' ▸ hr⟩
  | added _ hfits _ hc _ hrows => exact ⟨hfits, hc, by simp [hrows]⟩

theorem outcomes_kept (out : Outside) (calls : List Wanted) (hnamed : Named w.weeklyReports) :
    ∃ t : Table WeeklyReport.reportId, Named t ∧ w.weeklyReports.rows <+: t.rows ∧
      ∀ p ∈ outcomes out calls w, ∀ r, p.2 = .ok (some r) → p.1.Fits ∧ p.1.Is r ∧ r ∈ t.rows := by
  induction calls generalizing w with
  | nil => exact ⟨w.weeklyReports, hnamed, List.prefix_refl _, nofun⟩
  | cons c calls ih =>
    have hcreated := call_created out c w
    obtain ⟨t, ht, hkept, hrest⟩ := ih (hcreated.named hnamed)
    refine ⟨t, ht, hcreated.rows.trans hkept, List.forall_mem_cons.2 ⟨fun r hr => ?_, hrest⟩⟩
    dsimp only at hr
    rw [hr] at hcreated
    obtain ⟨hfits, hc, hmem⟩ := hcreated.mem
    exact ⟨hfits, hc, hkept.subset hmem⟩

theorem reportIdOf_injective {g g' : Nat} {s s' : Text} (hlen : s.length = s'.length)
    (h : reportIdOf g s = reportIdOf g' s') : g = g' ∧ s = s' := by
  simp only [reportIdOf, cat, List.flatten_cons, List.flatten_nil, List.append_nil] at h
  obtain ⟨hstart, hgroup⟩ := List.append_inj (List.append_cancel_left h) hlen
  exact ⟨padded_injective (List.append_cancel_left hgroup), hstart⟩

/-- The calls that agree in the group and the first day agree in the last day too. -/
def Compatible (calls : List Wanted) : Prop :=
  ∀ c ∈ calls, ∀ d ∈ calls, c.groupId = d.groupId → c.periodStart = d.periodStart → c.periodEnd = d.periodEnd

/-- After the calls in `done` each further one finds its report. -/
theorem outcomes_found (out : Outside) (done calls : List Wanted) (hfits : ∀ c ∈ calls, c.Fits)
    (hdated : ∀ c ∈ done ++ calls, c.Dated) (hcompatible : Compatible (done ++ calls))
    (hnamed : Named w.weeklyReports) (hrows : ∀ r ∈ w.weeklyReports.rows, ∃ c ∈ done, c.Is r) :
    ∀ p ∈ outcomes out calls w, ∃ r, p.2 = .ok (some r) ∧ p.1.Is r := by
  induction calls generalizing done w with
  | nil => exact nofun
  | cons c calls ih =>
    have hcreated := call_created out c w
    have hc : c ∈ done ++ c :: calls := by simp
    have hlist : done ++ c :: calls = (done ++ [c]) ++ calls := by simp
    refine List.forall_mem_cons.2 ⟨?_, ih (done ++ [c]) (fun d hd => hfits d (List.mem_cons_of_mem _ hd))
      (hlist ▸ hdated) (hlist ▸ hcompatible) (hcreated.named hnamed) fun r hr => ?_⟩
    · cases hx : ((c.call out).run w).1 with
      | ok found =>
        rw [hx] at hcreated
        cases hcreated with
        | found r _ _ hr _ => exact ⟨r, rfl, hr⟩
        | added r _ _ hr _ _ => exact ⟨r, rfl, hr⟩
      | error e =>
        rw [hx] at hcreated
        cases hcreated with
        | refused _ hwhy _ =>
          rcases hwhy with hlarge | ⟨hnone, s, hs, hid⟩
          · exact absurd (hfits c List.mem_cons_self) hlarge
          · -- the report in the way is one that an earlier call has asked for
            obtain ⟨d, hd, hds⟩ := hrows s hs
            have hd : d ∈ done ++ c :: calls := List.mem_append_left _ hd
            have hnames : d.reportId = c.reportId := by rw [← hid, hnamed s hs, hds.reportId]
            have hlen : d.periodStart.length = c.periodStart.length := by
              rw [(hdated d hd).1.length, (hdated c hc).1.length]
            obtain ⟨hgroup, hstart⟩ := reportIdOf_injective hlen hnames
            have hend := hcompatible c hc d hd hgroup.symm hstart.symm
            exact absurd (hds.of_same ⟨hgroup.symm, hstart.symm, hend⟩) (hnone s hs)
    · rcases hcreated.source hr with hr | hr
      · obtain ⟨d, hd, hdr⟩ := hrows r hr
        exact ⟨d, List.mem_append_left _ hd, hdr⟩
      · exact ⟨c, by simp, hr⟩

theorem outcomes_calls (out : Outside) (calls : List Wanted) (w : World) :
    (outcomes out calls w).map Prod.fst = calls := by
  induction calls generalizing w with
  | nil => rfl
  | cons c calls ih => exact congrArg (List.cons c) (ih _)

/-- **All calls of a sequence have their reports exactly if their numbers fit into the columns and no two of them agree
in the group and the first day alone**, from a database without reports. -/
theorem identified_iff (out : Outside) {calls : List Wanted} (hdated : ∀ c ∈ calls, c.Dated)
    (hempty : w.weeklyReports = Table.empty) :
    Identified (outcomes out calls w) ↔ (∀ c ∈ calls, c.Fits) ∧ Compatible calls := by
  have hnamed : Named w.weeklyReports := by
    rw [hempty]
    exact nofun
  obtain ⟨t, ht, -, hkept⟩ := outcomes_kept out calls hnamed
  have hunique : ∀ r ∈ t.rows, ∀ s ∈ t.rows, r.reportId = s.reportId → r = s := fun r hr s hs hid =>
    List.inj_on_of_nodup_map t.nodup hr hs hid
  constructor
  · intro h
    have hreport : ∀ c ∈ calls, ∃ r ∈ t.rows, c.Fits ∧ c.Is r := by
      intro c hc
      rw [← outcomes_calls out calls w] at hc
      obtain ⟨p, hp, rfl⟩ := List.mem_map.1 hc
      obtain ⟨r, hr, -⟩ := h.found p hp
      obtain ⟨hfits, hcr, hmem⟩ := hkept p hp r hr
      exact ⟨r, hmem, hfits, hcr⟩
    refine ⟨fun c hc => ?_, fun c hc d hd hgroup hstart => ?_⟩
    · obtain ⟨r, -, hfits, -⟩ := hreport c hc
      exact hfits
    · obtain ⟨r, hr, -, hcr⟩ := hreport c hc
      obtain ⟨s, hs, -, hds⟩ := hreport d hd
      have hid : r.reportId = s.reportId := by
        rw [ht r hr, ht s hs, hcr.reportId, hds.reportId, Wanted.reportId, Wanted.reportId, hgroup, hstart]
      rw [← hunique r hr s hs hid] at hds
      exact (hcr.same hds).2.2
  · rintro ⟨hfits, hcompatible⟩
    have hfound := outcomes_found out [] calls hfits hdated hcompatible hnamed (by rw [hempty]; exact nofun)
    refine ⟨hfound, fun p hp q hq hsame => ?_, fun p hp q hq hother r s hr hs hid => ?_⟩
    · obtain ⟨r, hr, -⟩ := hfound p hp
      obtain ⟨s, hs, -⟩ := hfound q hq
      obtain ⟨-, hpr, hrmem⟩ := hkept p hp r hr
      obtain ⟨-, hqs, hsmem⟩ := hkept q hq s hs
      have hid : r.reportId = s.reportId := by
        rw [ht r hrmem, ht s hsmem, hpr.reportId, (hqs.of_same hsame).reportId]
      rw [hr, hs, hunique r hrmem s hsmem hid]
    · obtain ⟨-, hpr, hrmem⟩ := hkept p hp r hr
      obtain ⟨-, hqs, hsmem⟩ := hkept q hq s hs
      rw [← hunique r hrmem s hsmem hid] at hqs
      exact hother (hpr.same hqs)

/-- A week of a team, from the first day to the one after the last. -/
def weekOf (start stop : Instant.Date) : Wanted :=
  ⟨7, "Team A", "alice@uni.ac.uk", 12, start.isoformat, stop.isoformat⟩

theorem weekOf_dated {start stop : Instant.Date} (hstart : start.Valid) (hstop : stop.Valid) :
    (weekOf start stop).Dated :=
  ⟨⟨start, hstart, rfl⟩, stop, hstop, rfl⟩

/-- Two weeks, the first of them twice. -/
def threeCalls : List Wanted :=
  [weekOf ⟨2026, 9, 7⟩ ⟨2026, 9, 14⟩, weekOf ⟨2026, 9, 14⟩ ⟨2026, 9, 21⟩, weekOf ⟨2026, 9, 7⟩ ⟨2026, 9, 14⟩]

theorem identified_threeCalls : Identified (outcomes .plain threeCalls {}) := by
  have hdated : ∀ c ∈ threeCalls, c.Dated := by
    simp only [threeCalls, List.forall_mem_cons, List.not_mem_nil, false_implies, implies_true, and_true]
    refine ⟨weekOf_dated ?_ ?_, weekOf_dated ?_ ?_, weekOf_dated ?_ ?_⟩ <;> decide
  exact (identified_iff .plain hdated rfl).2 (by unfold Compatible; decide +kernel)

/-- A report for one week, and then one for two weeks from the same day. -/
def twoCalls : List Wanted := [weekOf ⟨2026, 9, 7⟩ ⟨2026, 9, 14⟩, weekOf ⟨2026, 9, 7⟩ ⟨2026, 9, 21⟩]

/-- The second call fails on the name of the first report. -/
theorem name_taken : (∀ c ∈ twoCalls, c.Dated) ∧
    (outcomes .plain twoCalls {}).map (fun p => p.2.isOk) = [true, false] ∧
      ¬ Identified (outcomes .plain twoCalls {}) := by
  have hresults : (outcomes .plain twoCalls {}).map (fun p => p.2.isOk) = [true, false] := by decide +kernel
  refine ⟨?_, hresults, fun h => ?_⟩
  · simp only [twoCalls, List.forall_mem_cons, List.not_mem_nil, false_implies, implies_true, and_true]
    refine ⟨weekOf_dated ?_ ?_, weekOf_dated ?_ ?_⟩ <;> decide
  · have hok : ∀ b ∈ (outcomes .plain twoCalls {}).map (fun p => p.2.isOk), b = true := by
      refine List.forall_mem_map.2 fun p hp => ?_
      obtain ⟨r, hr, -⟩ := h.found p hp
      rw [hr]
      rfl
    rw [hresults] at hok
    exact absurd (hok false (by simp)) (by decide)

end ReportStore

end GroupAssessmentAgent
