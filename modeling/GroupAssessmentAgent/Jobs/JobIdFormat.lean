import GroupAssessmentAgent.Commands.JobReference
import GroupAssessmentAgent.Jobs.Numbering

/-!
# The job id and its readers

`create_job` writes the number of a job with at least four digits, and the two patterns that read an id back take
exactly four. `recognised_iff`: they agree up to the 9999th job of a day. The id of the job after that does not match
the schema's pattern, and in a mail its first four digits are found, which is the id of another job.
-/

namespace GroupAssessmentAgent
open Regex Prog

/-! ### The parts of an id -/

theorem jobIdOf_eq (d : Instant.Date) (k : Nat) : JobStore.jobIdOf (JobStore.jobIdPrefix d) k =
    "DIAR-".toList ++ (padded 4 d.year ++ ("-".toList ++ (monthDay d ++ ("-".toList ++ padded 4 k)))) := by
  rw [JobStore.jobIdOf, jobIdPrefix_eq]
  simp

theorem monthDay_length (t : Instant) : (monthDay t.date).length = 4 := by
  obtain ⟨hmonth, hday⟩ : t.date.month < 100 ∧ t.date.day < 100 := Instant.dateOfDay_lt _
  have htwo : ∀ n, n < 100 → (padded 2 n).length = 2 := fun n hn => (padded_length_iff (by decide)).2 hn
  rw [monthDay, List.length_append, htwo _ hmonth, htwo _ hday]

theorem padded_four_length (n : Nat) : (padded 4 n).length = 4 ↔ n ≤ 9999 := by
  rw [padded_length_iff (by decide)]
  exact Nat.lt_succ_iff

section
variable [PyChars]

/-! ### The pattern -/

/-- The text has no job id, or this one alone, between spaces. -/
def NamesOnly (id s : Text) : Prop :=
  findAll jobIdRe s = [] ∨ ∃ u v, s = u ++ ' ' :: (id ++ ' ' :: v) ∧ findAll jobIdRe u = [] ∧ findAll jobIdRe v = []

/-- The readers of a job id recognise this one. -/
structure Recognised (id : Text) : Prop where
  pattern : isJobId id = true
  found : ∀ u v, findAll jobIdRe u = [] → findAll jobIdRe v = [] →
    (findAll jobIdRe (u ++ ' ' :: (id ++ ' ' :: v))).map Match.text = [id]
  matched : ∀ (w : World) (msg : EmailMessage) (senderEmail jobId : Text),
    NamesOnly id msg.subject → NamesOnly id msg.bodyText →
      (referencedMessageIds msg.inReplyTo msg.references).findSome? (ThreadMatcher.findReference w senderEmail) = none →
        ThreadMatcher.findThread w msg senderEmail = some jobId → jobId = id

theorem jobIdRe_fixed : jobIdRe.Fixed 19 := by
  have hlen : "DIAR-".toList.length = 5 := by decide
  have hdash : "-".toList.length = 1 := by decide
  have hdiar := fixed_lit "DIAR-".toList
  have hsep := fixed_lit "-".toList
  rw [hlen] at hdiar
  rw [hdash] at hsep
  exact .seq hdiar (.seq (fixed_times 4 _) (.seq hsep (.seq (fixed_times 4 _) (.seq hsep (fixed_times 4 _)))))

theorem jobIdRe_avoids : jobIdRe.Avoids ' ' := by
  have hspace : isDecimal ' ' = false := by
    rw [PyChars.isDecimal_ascii ' ' (by decide)]
    rfl
  have htimes : ∀ n, (Re.times n isDecimal).Avoids ' ' := by
    intro n
    induction n with
    | zero => trivial
    | succ n ih => exact ⟨hspace, ih⟩
  exact ⟨avoids_lit (by decide), htimes 4, avoids_lit (by decide), htimes 4, avoids_lit (by decide), htimes 4⟩

theorem isJobId_jobIdOf (t : Instant) (k : Nat) :
    isJobId (JobStore.jobIdOf (JobStore.jobIdPrefix t.date) k) = true ↔ k ≤ 9999 ∧ t.date.year ≤ 9999 := by
  rw [← padded_four_length, ← padded_four_length]
  constructor
  · intro h
    obtain ⟨d, hd, hrest⟩ := List.any_eq_true.1 h
    have hlen := go_fixed jobIdRe_fixed hd
    have hyear := width_le_padded 4 t.date.year
    have hnumber := width_le_padded 4 k
    have hdiar : "DIAR-".toList.length = 5 := by decide
    have hdash : "-".toList.length = 1 := by decide
    rw [List.isEmpty_iff.1 hrest, List.length_nil, jobIdOf_eq] at hlen
    simp only [List.length_append, hdiar, hdash, monthDay_length] at hlen
    omega
  · rintro ⟨hnumber, hyear⟩
    have hdecimal : ∀ {s : Text}, (∀ c ∈ s, c.isDigit = true) → ∀ c ∈ s, isDecimal c = true :=
      fun hs c hc => isDecimal_of_isDigit (hs c hc)
    obtain ⟨prev, hgo⟩ : ∃ prev,
        jobIdRe.go ⟨none, JobStore.jobIdOf (JobStore.jobIdPrefix t.date) k ++ [], []⟩ = [⟨prev, [], []⟩] := by
      rw [jobIdOf_eq]
      simp only [List.append_assoc]
      rw [jobIdRe, go_seq, go_lit, List.flatMap_singleton, go_seq, go_times hyear (hdecimal fun c => padded_isDigit),
        List.flatMap_singleton, go_seq, go_lit, List.flatMap_singleton, go_seq,
        go_times (monthDay_length t) (hdecimal fun c => monthDay_isDigit), List.flatMap_singleton, go_seq, go_lit,
        List.flatMap_singleton, go_times hnumber (hdecimal fun c => padded_isDigit)]
      exact ⟨_, rfl⟩
    rw [List.append_nil] at hgo
    rw [isJobId, fullMatch, hgo]
    rfl

theorem recognised_of_isJobId {id : Text} (h : isJobId id = true) : Recognised id := by
  have hfound : ∀ u v, findAll jobIdRe u = [] → findAll jobIdRe v = [] →
      (findAll jobIdRe (u ++ ' ' :: (id ++ ' ' :: v))).map Match.text = [id] :=
    fun u v hu hv => findAll_between jobIdRe_fixed jobIdRe_avoids h hu hv
  refine ⟨h, hfound, fun w msg senderEmail jobId hsubject hbody hrefs hthread => ?_⟩
  have honly : ∀ s, NamesOnly id s → ∀ x ∈ (findAll jobIdRe s).map Match.text, x = id := by
    rintro s (hnone | ⟨u, v, rfl, hu, hv⟩) x hx
    · rw [hnone] at hx
      cases hx
    · rw [hfound u v hu hv] at hx
      exact List.mem_singleton.1 hx
  have hids : ∀ x ∈ ThreadMatcher.foundJobIds msg, x = id := by
    intro x hx
    rw [ThreadMatcher.foundJobIds, mem_fromKeys, List.mem_append] at hx
    rcases hx with hx | hx
    · exact honly _ hsubject x hx
    · exact honly _ hbody x hx
  rw [ThreadMatcher.findThread, hrefs, Option.map_none, Option.none_or] at hthread
  generalize ThreadMatcher.foundJobIds msg = ids at hids hthread
  obtain _ | ⟨x, _ | ⟨y, ids⟩⟩ := ids
  · cases hthread
  · obtain ⟨job, hjob, rfl⟩ := Option.map_eq_some_iff.1 hthread
    rw [← hids x (List.mem_singleton.2 rfl)]
    exact JobStore.findOwned_jobId hjob
  · cases hthread

theorem recognised_jobIdOf (t : Instant) (k : Nat) :
    Recognised (JobStore.jobIdOf (JobStore.jobIdPrefix t.date) k) ↔ k ≤ 9999 ∧ t.date.year ≤ 9999 := by
  rw [← isJobId_jobIdOf]
  exact ⟨Recognised.pattern, recognised_of_isJobId⟩

variable (out : Outside)

/-- Whatever jobs there are, `create_job` returns an id that is recognised. -/
def AlwaysRecognised : Prop :=
  ∀ (w : World) (results : List (Option Text)) (d : (Unit → M (Option Text)) × World), w.jobs = Table.empty →
    NumberingRun out w results d →
      ∀ (senderEmail : Text) (userId : Nat) (source operation : Text) (fields : List JobField) (id : Text) (w' : World),
        (createdId out senderEmail userId source operation fields).run d.2 = (.ok (some id), w') → Recognised id

/-- **The id of a job is recognised if and only if it is one of the first 9999 of its day.** -/
theorem recognised_iff {ι : Type} [DecidableEq ι] {w : World} (hempty : w.jobs = Table.empty)
    {results : List (Option Text)} {d : (ι → M (Option Text)) × World} (hrun : NumberingRun out w results d)
    (senderEmail : Text) (userId : Nat) (source operation : Text) (fields : List JobField) :
    ∃ id w', (createdId out senderEmail userId source operation fields).run d.2 = (.ok (some id), w') ∧
      (Recognised id ↔
        (idsOf (d.2.now out).date (jobIds d.2)).length < 9999 ∧ (d.2.now out).date.year ≤ 9999) := by
  obtain ⟨hnumbered, -, -⟩ := NumberingRun.allocated out hempty hrun
  obtain ⟨t, hcreate, -⟩ := createdId_run out senderEmail userId source operation fields hnumbered
  exact ⟨_, _, hcreate, recognised_jobIdOf (d.2.now out) _⟩

end

/-! ### A day with many jobs -/

section
attribute [local instance] asciiChars

theorem recognised_first : ∃ id w', createAlice.run {} = (.ok (some id), w') ∧ Recognised id := by
  have hstart : NumberingRun .plain {} [] (fun _ : Unit => ret none, {}) := .start
  obtain ⟨id, w', hrun, hiff⟩ := recognised_iff .plain rfl hstart "alice@uni.ac.uk" 12 "<1@uni.ac.uk>" "assess_query" []
  exact ⟨id, w', hrun, hiff.2 (by decide +kernel)⟩

-- the id of the 10000th job is read as that of the 1000th
example : (findAll jobIdRe " DIAR-2026-0811-10000 ".toList).map Match.text = ["DIAR-2026-0811-1000".toList] := by
  decide +kernel

theorem plain_date {n : Nat} (h : n < 86400000000) : (Outside.plain.clock n).date = ⟨2026, 8, 11⟩ := by
  have hday : (1786406400000000 + n) / 1000000 / 86400 = 20676 := by omega
  show Instant.dateOfDay ((1786406400000000 + n) / 1000000 / 86400) = _
  rw [hday]
  decide

/-- Some ten thousand jobs fit in a day. -/
theorem reaches_jobs (n : Nat) (hn : n < 10000) :
    ∃ results, ∃ d : (Unit → M (Option Text)) × World, NumberingRun .plain {} results d ∧
      d.2.ticks = 2 * n ∧ (idsOf ⟨2026, 8, 11⟩ (jobIds d.2)).length = n := by
  induction n with
  | zero => exact ⟨[], _, .start, rfl, rfl⟩
  | succ n ih =>
    obtain ⟨results, d, hrun, hticks, hcount⟩ := ih (by omega)
    obtain ⟨hnumbered, -, -⟩ := NumberingRun.allocated .plain rfl hrun
    obtain ⟨t, hcreate, htaken⟩ :=
      createdId_run .plain "alice@uni.ac.uk" 12 "<1@uni.ac.uk>" "assess_query" [] hnumbered
    have hdate : (d.2.now .plain).date = ⟨2026, 8, 11⟩ := plain_date (by omega)
    have hcall : Function.update d.1 () createAlice () = createAlice := Function.update_self ..
    have hnext :=
      (hrun.call (p := createAlice) (t := ()) (.create ..)).run hcall (Option.some_ne_none Stmt.clock) hcreate
    refine ⟨_, _, hnext, ?_, ?_⟩
    · show d.2.ticks + 1 + 1 = _
      omega
    · have hlike : likePrefix (JobStore.jobIdPrefix ⟨2026, 8, 11⟩) (nextId ⟨2026, 8, 11⟩ d.2) = true :=
        (likePrefix_jobIdOf _ _ _).2 rfl
      simp only [htaken, hdate]
      rw [idsOf, List.filter_append, List.filter_cons_of_pos hlike, List.filter_nil,
          List.length_append, ← idsOf, hcount]
      rfl

/-- The 10000th job of a day has an id that is not recognised. -/
theorem unrecognised : ¬ AlwaysRecognised .plain := by
  intro h
  obtain ⟨results, d, hrun, hticks, hcount⟩ := reaches_jobs 9999 (by decide)
  obtain ⟨hnumbered, -, -⟩ := NumberingRun.allocated .plain rfl hrun
  obtain ⟨t, hcreate, -⟩ := createdId_run .plain "alice@uni.ac.uk" 12 "<1@uni.ac.uk>" "assess_query" [] hnumbered
  have hrecognised := h {} results d rfl hrun _ _ _ _ _ _ _ hcreate
  have hdate : (d.2.now .plain).date = ⟨2026, 8, 11⟩ := plain_date (by omega)
  have hle := ((recognised_jobIdOf (d.2.now .plain) _).1 hrecognised).1
  rw [hdate, hcount] at hle
  omega

end

end GroupAssessmentAgent
