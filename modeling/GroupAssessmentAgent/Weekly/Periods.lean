import Mathlib.Data.Prod.Lex
import Mathlib.Data.Nat.SuccPred
import Mathlib.Order.SuccPred.IntervalSucc
import Mathlib.Tactic.IntervalCases
import GroupAssessmentAgent.Jobs.Executions
import GroupAssessmentAgent.Weekly.Update

/-!
# No day is reported twice

The period of a report ends with the day of the run, which is not in it, and begins `lookback_days` before. So when the
command runs every `lookback_days` days, the period of a run begins where the last one ended, and the evidence of a
meeting goes into exactly one of the reports (`evidence_once`).
-/

namespace GroupAssessmentAgent
open Prog

theorem existsUnique_interval {α : Type} [LinearOrder α] {b : Nat → α} (hb : Monotone b) {k : Nat} {x : α}
    (hlow : b 0 ≤ x) (hhigh : x < b (k + 1)) : ∃! i, i ≤ k ∧ b i ≤ x ∧ x < b (i + 1) := by
  have hexists : ∃ i, i ≤ k ∧ b i ≤ x ∧ x < b (i + 1) := by
    induction k with
    | zero => exact ⟨0, le_rfl, hlow, hhigh⟩
    | succ k ih =>
      by_cases hx : x < b (k + 1)
      · obtain ⟨i, hi, hmem⟩ := ih hx
        exact ⟨i, hi.trans (Nat.le_succ k), hmem⟩
      · exact ⟨k + 1, le_rfl, not_lt.1 hx, hhigh⟩
  obtain ⟨i, hi, hmem⟩ := hexists
  refine ⟨i, ⟨hi, hmem⟩, ?_⟩
  rintro j ⟨-, hj⟩
  by_contra hne
  exact Set.disjoint_left.1 (hb.pairwise_disjoint_on_Ico_succ hne) hj hmem

namespace Instant.Date

/-- The place of a date among the dates. -/
def place (d : Date) : Nat ×ₗ Nat ×ₗ Nat := toLex (d.year, toLex (d.month, d.day))

theorem le_iff_place {d e : Date} : d.Le e ↔ d.place ≤ e.place := by
  simp only [Le, place, Prod.Lex.toLex_le_toLex]

theorem before_iff_place {d e : Date} : d.Before e ↔ d.place < e.place := by
  simp only [Before, place, Prod.Lex.toLex_lt_toLex]

end Instant.Date

theorem Period.contains_iff {p : Period} {d : Instant.Date} :
    p.Contains d ↔ p.start.place ≤ d.place ∧ d.place < p.stop.place := by
  rw [Period.Contains, Instant.Date.le_iff_place, Instant.Date.le_iff_place, not_le]

/-! ### The runs -/

/-- The day that begins the i-th period, where the first one begins on the day `first`. -/
def periodDay (first lookback i : Nat) : Instant.Date := .ofOrdinal (first + i * lookback)

theorem periodDay_monotone (first lookback : Nat) : Monotone fun i => (periodDay first lookback i).place := by
  refine monotone_nat_of_le_succ fun i => ?_
  rcases Nat.eq_zero_or_pos lookback with rfl | hpos
  · exact le_rfl
  · have hlt : first + i * lookback < first + (i + 1) * lookback := by
      rw [Nat.succ_mul]
      omega
    exact (Instant.Date.before_iff_place.1 (Instant.Date.ofOrdinal_before hlt)).le

theorem minusDays_ofOrdinal {n days : Nat} (hn : 1 ≤ n) (hmax : n ≤ Instant.Date.maxOrdinal) :
    (Instant.Date.ofOrdinal (n + days)).minusDays days = .ok (.ofOrdinal n) := by
  have hordinal : (Instant.Date.ofOrdinal (n + days)).ordinal = n + days :=
    Instant.Date.ordinal_ofOrdinal (hn.trans (Nat.le_add_right n days))
  have hback : ((n + days : Nat) : Int) - days = n := by omega
  have hrange : 1 ≤ (n : Int) ∧ (n : Int) ≤ Instant.Date.maxOrdinal := ⟨by omega, by exact_mod_cast hmax⟩
  rw [Instant.Date.minusDays, hordinal, hback]
  exact if_pos hrange

/-- The period of a run begins with the day of the run before. -/
theorem reportingPeriod_periodDay {first lookback i : Nat} (hfirst : 1 ≤ first)
    (hlast : first + (i + 1) * lookback ≤ Instant.Date.maxOrdinal) :
    reportingPeriod lookback (periodDay first lookback (i + 1)) =
      .ok ⟨periodDay first lookback i, periodDay first lookback (i + 1)⟩ := by
  have hstep : first + (i + 1) * lookback = first + i * lookback + lookback := by
    rw [Nat.succ_mul, Nat.add_assoc]
  have hstart : (periodDay first lookback (i + 1)).minusDays lookback = .ok (periodDay first lookback i) := by
    rw [periodDay, hstep]
    refine minusDays_ofOrdinal (hfirst.trans (Nat.le_add_right first _)) ?_
    exact (Nat.le_add_right _ lookback).trans (hstep ▸ hlast)
  rw [reportingPeriod, hstart]
  rfl

/-! ### Evidence -/

theorem mem_chunksEvidence {out : Outside} {period : Period} {chunks : List TranscriptChunk}
    {evidence : List EvidenceItem} (h : WeeklySourceCollector.chunksEvidence out period chunks = .ok evidence)
    (item : EvidenceItem) : item ∈ evidence ↔ ∃ c ∈ chunks, item = WeeklySourceCollector.chunkEvidence c ∧
      ∃ d, out.dateFromIso (c.meetingDate.take 10) = .ok d ∧ period.Contains d := by
  induction chunks generalizing evidence with
  | nil =>
    cases h
    simp
  | cons c cs ih =>
    rw [WeeklySourceCollector.chunksEvidence] at h
    cases hdate : out.dateFromIso (c.meetingDate.take 10) with
    | error e =>
      rw [hdate] at h
      simp only at h
      split_ifs at h
      rw [ih h]
      simp [hdate]
    | ok date =>
      rw [hdate] at h
      cases hrest : WeeklySourceCollector.chunksEvidence out period cs with
      | error e =>
        simp [hrest, Bind.bind, Except.bind] at h
      | ok rest =>
        simp only [hrest, Bind.bind, Except.bind, Pure.pure, Except.pure, Except.ok.injEq] at h
        subst h
        split_ifs with hin
        · simp [ih hrest, hdate, hin]
        · simp [ih hrest, hdate, hin]

theorem chunks_once (out : Outside) {first lookback k : Nat} (hfirst : 1 ≤ first)
    (hlast : first + (k + 1) * lookback ≤ Instant.Date.maxOrdinal) {chunks : Nat → List TranscriptChunk}
    {evidence : Nat → List EvidenceItem}
    (hcollected : ∀ i ≤ k, ∃ period, reportingPeriod lookback (periodDay first lookback (i + 1)) = .ok period ∧
      WeeklySourceCollector.chunksEvidence out period (chunks i) = .ok (evidence i))
    {c : TranscriptChunk} (hc : ∀ i ≤ k, c ∈ chunks i) {d : Instant.Date}
    (hd : out.dateFromIso (c.meetingDate.take 10) = .ok d) :
    let reported := Period.mk (periodDay first lookback 0) (periodDay first lookback (k + 1))
    (reported.Contains d → ∃! i, i ≤ k ∧ WeeklySourceCollector.chunkEvidence c ∈ evidence i) ∧
      (¬ reported.Contains d → ∀ i ≤ k, WeeklySourceCollector.chunkEvidence c ∉ evidence i) := by
  have hmem : ∀ i ≤ k, WeeklySourceCollector.chunkEvidence c ∈ evidence i ↔
      (periodDay first lookback i).place ≤ d.place ∧ d.place < (periodDay first lookback (i + 1)).place := by
    intro i hi
    obtain ⟨period, hperiod, hevidence⟩ := hcollected i hi
    have hle : first + (i + 1) * lookback ≤ Instant.Date.maxOrdinal :=
      (Nat.add_le_add_left (Nat.mul_le_mul_right lookback (Nat.succ_le_succ hi)) first).trans hlast
    obtain rfl := Except.ok.inj ((reportingPeriod_periodDay hfirst hle).symm.trans hperiod)
    rw [mem_chunksEvidence hevidence, ← Period.contains_iff (p := ⟨_, _⟩)]
    constructor
    · rintro ⟨c', -, hsame, d', hd', hin⟩
      -- the evidence holds the date that its chunk has
      have hdate : c.meetingDate = c'.meetingDate := Option.some.inj (congrArg EvidenceItem.eventDate hsame)
      rw [← hdate, hd] at hd'
      cases hd'
      exact hin
    · exact fun hin => ⟨c, hc i hi, rfl, d, hd, hin⟩
  have hmono := periodDay_monotone first lookback
  simp only [Period.contains_iff]
  refine ⟨fun hin => ?_, fun hin => ?_⟩
  · obtain ⟨i, ⟨hi, hini⟩, hunique⟩ := existsUnique_interval hmono hin.1 hin.2
    exact ⟨i, ⟨hi, (hmem i hi).2 hini⟩, fun j hj => hunique j ⟨hj.1, (hmem j hj.1).1 hj.2⟩⟩
  · intro i hi hi'
    obtain ⟨hlow, hhigh⟩ := (hmem i hi).1 hi'
    exact hin ⟨(hmono (Nat.zero_le i)).trans hlow, hhigh.trans_le (hmono (Nat.succ_le_succ hi))⟩

/-- What the search of a client answers. -/
def searchAnswer (diarisation : DiarisationClient) : BackendCall → Nat → Option (List TranscriptChunk)
  | .searchTranscripts token groupId query, n => (diarisation.searchTranscripts n token groupId query).toOption
  | _, _ => none

theorem collectMeetings_ensures {E : Env Stmt World Exc} (out : Outside) (diarisation : DiarisationClient)
    (token : Text) (group : GroupSummary) (period : Period) (w : World) :
    Ensures E (fun h x _ => ∀ collected, x = .ok collected → collected.unavailable = [] →
        ∃ chunks ∈ answersOf (searchAnswer diarisation) h,
          WeeklySourceCollector.chunksEvidence out period chunks = .ok collected.evidence)
      (WeeklySourceCollector.collectMeetings out diarisation token group period) w := by
  refine Ensures.bind (catching_ensures _ (callBackend_ensures _ _ w)) (fun h found w₁ hfound => ?_)
    fun h e w₁ _ collected hx => by cases hx
  rcases hfound with ⟨y, hy, ⟨-, hanswer⟩, -⟩ | ⟨e, hy, -⟩
  · obtain rfl := Except.ok.inj hy
    cases found with
    | error e =>
      refine ensures_ret fun collected hx hnone => ?_
      rw [← Except.ok.inj hx] at hnone
      cases hnone
    | ok chunks =>
      obtain ⟨rfl, hsearch⟩ := hanswer chunks rfl
      have hanswered : chunks ∈ answersOf (searchAnswer diarisation) [⟨.backend (.searchTranscripts token group.id
          (cat ["meetings and decisions ", period.window])), w, none⟩] := by
        rw [answersOf_answered, searchAnswer, hsearch]
        exact List.mem_singleton_self chunks
      cases hevidence : WeeklySourceCollector.chunksEvidence out period chunks with
      | error e =>
        simp only [hevidence]
        exact ensures_raise fun collected hx => by cases hx
      | ok evidence =>
        simp only [hevidence]
        refine ensures_ret fun collected hx _ => ?_
        rw [← Except.ok.inj hx]
        refine ⟨chunks, ?_, hevidence⟩
        rwa [List.append_nil]
  · cases hy

/-- **A meeting is reported once.** The command runs every `lookback` days, `k + 1` times; the evidence of a chunk that
the search finds each time, and that has a date, goes into exactly one of the reports if the date is among their days,
and into none otherwise. -/
theorem evidence_once (out : Outside) {first lookback k : Nat} (hfirst : 1 ≤ first)
    (hlast : first + (k + 1) * lookback ≤ Instant.Date.maxOrdinal) {diarisation : Nat → DiarisationClient}
    {token : Nat → Text} {group : GroupSummary} {h : Nat → WorldHistory} {collected : Nat → SourceCollection}
    (hcollected : ∀ i ≤ k, ∃ period, reportingPeriod lookback (periodDay first lookback (i + 1)) = .ok period ∧
      (∃ w w', Exec Env.faulty (WeeklySourceCollector.collectMeetings out (diarisation i) (token i) group period) w (h i)
        (.ok (collected i)) w') ∧ (collected i).unavailable = [])
    {c : TranscriptChunk} (hc : ∀ i ≤ k, ∀ chunks ∈ answersOf (searchAnswer (diarisation i)) (h i), c ∈ chunks)
    {d : Instant.Date} (hd : out.dateFromIso (c.meetingDate.take 10) = .ok d) :
    let reported := Period.mk (periodDay first lookback 0) (periodDay first lookback (k + 1))
    (reported.Contains d → ∃! i, i ≤ k ∧ WeeklySourceCollector.chunkEvidence c ∈ (collected i).evidence) ∧
      (¬ reported.Contains d → ∀ i ≤ k, WeeklySourceCollector.chunkEvidence c ∉ (collected i).evidence) := by
  have hanswered : ∀ i, ∃ chunks, i ≤ k → c ∈ chunks ∧
      ∃ period, reportingPeriod lookback (periodDay first lookback (i + 1)) = .ok period ∧
        WeeklySourceCollector.chunksEvidence out period chunks = .ok (collected i).evidence := by
    intro i
    by_cases hi : i ≤ k
    · obtain ⟨period, hperiod, ⟨w, w', hexec⟩, hnone⟩ := hcollected i hi
      obtain ⟨chunks, hchunks, hevidence⟩ :=
        collectMeetings_ensures out (diarisation i) (token i) group period w _ _ _ hexec _ rfl hnone
      exact ⟨chunks, fun _ => ⟨hc i hi chunks hchunks, period, hperiod, hevidence⟩⟩
    · exact ⟨[], fun h => absurd h hi⟩
  choose chunks hchunks using hanswered
  exact chunks_once out hfirst hlast (fun i hi => (hchunks i hi).2) (fun i hi => (hchunks i hi).1) hd

/-- A piece of a meeting on a Wednesday. -/
def augustChunk : TranscriptChunk :=
  { chunkId := "c1", meetingId := "7", meetingTitle := "Weekly", meetingDate := "2026-08-12T10:00:00",
    speaker := "Alice", text := "We shipped it.", startTs := "00:00:01", endTs := "00:00:04" }

/-- The search finds it. -/
def augustClient : DiarisationClient :=
  { (smallWorker []).diarisation with searchTranscripts := fun _ _ _ _ => .ok [augustChunk] }

/-- What the runs of two Tuesdays collect from it. -/
def augustEvidence (i : Nat) : List EvidenceItem :=
  if i = 0 then [] else [WeeklySourceCollector.chunkEvidence augustChunk]

def augustPeriod (i : Nat) : Period := ⟨periodDay 739832 7 i, periodDay 739832 7 (i + 1)⟩

def augustMeetings (i : Nat) : M SourceCollection :=
  WeeklySourceCollector.collectMeetings .plain augustClient "token" ⟨7, "Team A"⟩ (augustPeriod i)

theorem augustMeetings_play {i : Nat} (hi : i ≤ 1) : ∃ query w', play [] (augustMeetings i) {} =
    ([⟨.backend (.searchTranscripts "token" 7 query), {}, none⟩], .ok { evidence := augustEvidence i }, w') := by
  have hevidence : WeeklySourceCollector.chunksEvidence .plain (augustPeriod i) [augustChunk] =
      .ok (augustEvidence i) := by
    interval_cases i
    · decide +kernel
    · decide +kernel
  let collected : List EvidenceItem → M SourceCollection := fun evidence => pure { evidence }
  have hplay : play [] (augustMeetings i) {} =
      (⟨.backend (.searchTranscripts "token" 7 (cat ["meetings and decisions ", (augustPeriod i).window])), {}, none⟩ ::
        (play [] ((Prog.ofExcept (WeeklySourceCollector.chunksEvidence .plain (augustPeriod i) [augustChunk])).bind
          collected) { backendCalls := 1 }).1,
        (play [] ((Prog.ofExcept (WeeklySourceCollector.chunksEvidence .plain (augustPeriod i) [augustChunk])).bind
          collected) { backendCalls := 1 }).2) := rfl
  rw [hplay, hevidence]
  exact ⟨_, _, rfl⟩

theorem evidence_once_august :
    ∃! i, i ≤ 1 ∧ WeeklySourceCollector.chunkEvidence augustChunk ∈ augustEvidence i := by
  have hcollected : ∀ i ≤ 1, ∃ period, reportingPeriod (7 : Nat) (periodDay 739832 7 (i + 1)) = .ok period ∧
      (∃ w w', Exec Env.faulty (WeeklySourceCollector.collectMeetings .plain augustClient "token" ⟨7, "Team A"⟩ period) w
        (play [] (augustMeetings i) {}).1 (.ok { evidence := augustEvidence i }) w') ∧ ([] : List Text) = [] := by
    intro i hi
    obtain ⟨query, w', hplay⟩ := augustMeetings_play hi
    have hexec := exec_play (E := Env.faulty) (fun _ _ => trivial) [] (augustMeetings i) {} fun _ _ _ _ => trivial
    refine ⟨augustPeriod i, reportingPeriod_periodDay (by decide) ?_, ⟨{}, w', ?_⟩, rfl⟩
    · rw [Instant.Date.maxOrdinal]
      omega
    · rw [hplay] at hexec ⊢
      exact hexec
  have hfound : ∀ i ≤ 1, ∀ chunks ∈ answersOf (searchAnswer augustClient) (play [] (augustMeetings i) {}).1,
      augustChunk ∈ chunks := by
    intro i hi chunks hchunks
    obtain ⟨query, w', hplay⟩ := augustMeetings_play hi
    rw [hplay, answersOf_answered] at hchunks
    rw [List.mem_singleton.1 hchunks]
    exact List.mem_cons_self
  have hdate : Outside.plain.dateFromIso (augustChunk.meetingDate.take 10) = .ok ⟨2026, 8, 12⟩ := by decide +kernel
  refine (evidence_once .plain ?_ ?_ hcollected hfound hdate).1 ?_
  · decide
  · decide
  · decide +kernel

end GroupAssessmentAgent
