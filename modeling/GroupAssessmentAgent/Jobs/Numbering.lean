import GroupAssessmentAgent.Jobs.Effects
import GroupAssessmentAgent.Lib.Allocation

/-!
# The numbers of the jobs

`create_job` counts the jobs of the day and takes the next number. `Numbered` is the invariant that makes this right:
for each prefix the ids in the table are those with the numbers from 1 on, without a gap. So the count is the largest
number in use, the INSERT never meets a taken id, and `create_job` allocates (`createJob_allocates`): whatever the
threads do, and whichever date each of them has read, all the ids they get are distinct (`jobIds_numbered`).
-/

namespace GroupAssessmentAgent
open Prog

/-! ### Ids and their prefixes -/

theorem prefix_sep_iff {α : Type} {sep : α} {a a' x y : List α} (ha : sep ∉ a) (ha' : sep ∉ a') :
    a ++ sep :: x <+: a' ++ sep :: y ↔ a = a' ∧ x <+: y := by
  induction a generalizing a' with
  | nil =>
    cases a' with
    | nil => simp [List.cons_prefix_cons]
    | cons c a' =>
      have hne : sep ≠ c := fun h => ha' (h ▸ List.mem_cons_self)
      simp [List.cons_prefix_cons, hne]
  | cons c a ih =>
    cases a' with
    | nil =>
      have hne : c ≠ sep := fun h => ha (h ▸ List.mem_cons_self)
      simp [List.cons_prefix_cons, hne]
    | cons c' a' =>
      have hrest := @ih a' (fun h => ha (List.mem_cons_of_mem _ h)) fun h => ha' (List.mem_cons_of_mem _ h)
      rw [List.cons_append, List.cons_append, List.cons_prefix_cons, hrest, List.cons.injEq, and_assoc]

theorem sqlLower_digits {s : Text} (hs : ∀ c ∈ s, c.isDigit = true) : sqlLower s = s := by
  rw [sqlLower, List.map_congr_left fun c hc => toLower_of_isDigit (hs c hc)]
  exact List.map_id s

/-- The month and the day in a prefix. -/
def monthDay (d : Instant.Date) : Text := padded 2 d.month ++ padded 2 d.day

theorem monthDay_isDigit {d : Instant.Date} {c : Char} (h : c ∈ monthDay d) : c.isDigit = true := by
  rcases List.mem_append.1 h with h | h
  · exact padded_isDigit h
  · exact padded_isDigit h

theorem dash_notMem {s : Text} (hs : ∀ c ∈ s, c.isDigit = true) : '-' ∉ s := by
  intro h
  cases hs '-' h

theorem jobIdPrefix_eq (d : Instant.Date) :
    JobStore.jobIdPrefix d = "DIAR-".toList ++ (padded 4 d.year ++ '-' :: (monthDay d ++ '-' :: [])) := by
  simp [JobStore.jobIdPrefix, cat, monthDay]

theorem sqlLower_append (s t : Text) : sqlLower (s ++ t) = sqlLower s ++ sqlLower t := List.map_append

theorem sqlLower_jobIdPrefix (d : Instant.Date) (rest : Text) :
    sqlLower (JobStore.jobIdPrefix d) ++ rest =
      "diar-".toList ++ (padded 4 d.year ++ '-' :: (monthDay d ++ '-' :: rest)) := by
  have hdiar : sqlLower "DIAR-".toList = "diar-".toList := by decide
  have hdash : ∀ s : Text, sqlLower ('-' :: s) = '-' :: sqlLower s := fun _ => rfl
  rw [jobIdPrefix_eq, sqlLower_append, sqlLower_append, hdiar, hdash, sqlLower_append, hdash,
    sqlLower_digits fun c => padded_isDigit, sqlLower_digits fun c => monthDay_isDigit]
  simp [sqlLower]

theorem likePrefix_jobIdOf (d d' : Instant.Date) (k : Nat) :
    likePrefix (JobStore.jobIdPrefix d) (JobStore.jobIdOf (JobStore.jobIdPrefix d') k) = true ↔
      JobStore.jobIdPrefix d = JobStore.jobIdPrefix d' := by
  have hyear : ∀ e : Instant.Date, '-' ∉ padded 4 e.year := fun e => dash_notMem fun c => padded_isDigit
  have hday : ∀ e : Instant.Date, '-' ∉ monthDay e := fun e => dash_notMem fun c => monthDay_isDigit
  have hlower := sqlLower_jobIdPrefix d []
  rw [List.append_nil] at hlower
  rw [likePrefix, startsWith, List.isPrefixOf_iff_prefix, JobStore.jobIdOf, sqlLower_append, hlower,
    sqlLower_jobIdPrefix, List.prefix_append_right_inj, prefix_sep_iff (hyear d) (hyear d'),
    prefix_sep_iff (hday d) (hday d'), jobIdPrefix_eq, jobIdPrefix_eq]
  constructor
  · rintro ⟨hsame, hsame', _⟩
    rw [hsame, hsame']
  · intro heq
    have hpre : padded 4 d.year ++ '-' :: (monthDay d ++ '-' :: []) <+:
        padded 4 d'.year ++ '-' :: (monthDay d' ++ '-' :: []) :=
      ⟨[], (List.append_nil _).trans (List.append_cancel_left heq)⟩
    obtain ⟨hsame, hrest⟩ := (prefix_sep_iff (hyear d) (hyear d')).1 hpre
    exact ⟨hsame, ((prefix_sep_iff (hday d) (hday d')).1 hrest).1, List.nil_prefix⟩

/-! ### The invariant -/

def jobIds (w : World) : List Text := w.jobs.rows.map Job.jobId

/-- The ids with the prefix of the day. -/
def idsOf (d : Instant.Date) (ids : List Text) : List Text :=
  ids.filter fun id => likePrefix (JobStore.jobIdPrefix d) id

/-- Every id is one of a day, and for each day the numbers in use are those from 1 to their count. -/
structure Numbered (ids : List Text) : Prop where
  dated : ∀ id ∈ ids, ∃ d k, id = JobStore.jobIdOf (JobStore.jobIdPrefix d) k
  gapless : ∀ d, idsOf d ids = (List.range' 1 (idsOf d ids).length).map (JobStore.jobIdOf (JobStore.jobIdPrefix d))

theorem numbered_nil : Numbered [] := ⟨by simp, fun _ => rfl⟩

theorem jobIdOf_injective {pre : Text} {m n : Nat} (h : JobStore.jobIdOf pre m = JobStore.jobIdOf pre n) : m = n :=
  padded_injective (List.append_cancel_left h)

theorem Numbered.next_free {ids : List Text} (h : Numbered ids) (d : Instant.Date) :
    JobStore.jobIdOf (JobStore.jobIdPrefix d) ((idsOf d ids).length + 1) ∉ ids := by
  intro hmem
  have hday : JobStore.jobIdOf (JobStore.jobIdPrefix d) ((idsOf d ids).length + 1) ∈ idsOf d ids :=
    List.mem_filter.2 ⟨hmem, (likePrefix_jobIdOf d d _).2 rfl⟩
  rw [h.gapless d] at hday
  obtain ⟨k, hk, heq⟩ := List.mem_map.1 hday
  obtain rfl := jobIdOf_injective heq
  rw [List.mem_range'_1, List.length_map, List.length_range'] at hk
  omega

theorem Numbered.next {ids : List Text} (h : Numbered ids) (d : Instant.Date) :
    Numbered (ids ++ [JobStore.jobIdOf (JobStore.jobIdPrefix d) ((idsOf d ids).length + 1)]) := by
  refine ⟨fun id hid => ?_, fun d' => ?_⟩
  · rcases List.mem_append.1 hid with hid | hid
    · exact h.dated id hid
    · exact ⟨d, _, List.mem_singleton.1 hid⟩
  · by_cases hpre : JobStore.jobIdPrefix d' = JobStore.jobIdPrefix d
    · have hlike : likePrefix (JobStore.jobIdPrefix d)
          (JobStore.jobIdOf (JobStore.jobIdPrefix d) ((idsOf d ids).length + 1)) = true :=
            (likePrefix_jobIdOf d d _).2 rfl
      have happend : idsOf d (ids ++ [JobStore.jobIdOf (JobStore.jobIdPrefix d) ((idsOf d ids).length + 1)]) =
          idsOf d ids ++ [JobStore.jobIdOf (JobStore.jobIdPrefix d) ((idsOf d ids).length + 1)] := by
        rw [idsOf, List.filter_append, List.filter_cons_of_pos hlike, List.filter_nil, ← idsOf]
      rw [idsOf, hpre, ← idsOf, happend, List.length_append, List.length_singleton, List.range'_concat, List.map_append,
        ← h.gapless d]
      simp [Nat.add_comm]
    · have hlike : ¬ likePrefix (JobStore.jobIdPrefix d')
          (JobStore.jobIdOf (JobStore.jobIdPrefix d) ((idsOf d ids).length + 1)) = true :=
        fun hlike => hpre ((likePrefix_jobIdOf d' d _).1 hlike)
      have happend : idsOf d' (ids ++ [JobStore.jobIdOf (JobStore.jobIdPrefix d) ((idsOf d ids).length + 1)]) =
          idsOf d' ids := by
        rw [idsOf, List.filter_append, List.filter_cons_of_neg hlike, List.filter_nil, List.append_nil, ← idsOf]
      rw [happend]
      exact h.gapless d'

/-! ### The programs -/

/-- Not the exception that no id could be found. -/
def NotUnallocated (e : Exc) : Prop := e.kind ≠ .jobIdAllocationError

def WellNumbered (w : World) : Prop := Numbered (jobIds w)

/-- The steps take no id. -/
abbrev TakesNoId {α : Type} (p : M α) : Prop := Takes0 jobIds WellNumbered NotUnallocated p

theorem takesNoId_step {α : Type} {l : Stmt} {f : World → World} {k : World → M α} {r : Exc → M α}
    (hf : ∀ w, jobIds (f w) = jobIds w) (hk : ∀ w, TakesNoId (k w)) : TakesNoId (Prog.step l f k r) :=
  fun w hw => ⟨by rwa [WellNumbered, hf w], hf w, hk w⟩

section
variable (out : Outside)

theorem utcnow_takesNoId : TakesNoId (utcnow out) := takesNoId_step (fun _ => rfl) fun _ => trivial

theorem jobIds_modifyJob (w : World) (jobId : Text) (f : Job → Job) (hf : ∀ j, (f j).jobId = j.jobId) :
    jobIds (w.modifyJob jobId f hf) = jobIds w :=
  Table.map_modify Job.jobId w.jobs jobId f hf hf

theorem update_takesNoId (jobId : Text) (fields : List JobField) : TakesNoId (JobStore.update jobId fields) := by
  unfold JobStore.update
  split_ifs
  · trivial
  · exact takesNoId_step (fun w => jobIds_modifyJob w jobId _ _) fun _ => trivial

theorem stamp_takesNoId (wanted : Prop) [Decidable wanted] (column : Option Instant → JobField) :
    TakesNoId (JobStore.stamp out wanted column) := by
  unfold JobStore.stamp
  split_ifs
  · exact (utcnow_takesNoId out).bind fun _ => trivial
  · trivial

theorem setStatus_takesNoId (jobId : Text) (new : JobState) (extra : List JobField) :
    TakesNoId (JobStore.setStatus out jobId new extra) := by
  refine takesNoId_step (fun _ => rfl) fun w => ?_
  show TakesNoId (Prog.bind (ret ((w.jobs.find? jobId).map Job.status)) _)
  cases (w.jobs.find? jobId).map Job.status with
  | none =>
    intro h
    cases h
  | some current =>
    simp only [ret_bind]
    split_ifs
    · intro h
      cases h
    · refine (stamp_takesNoId out _ _).bind fun started => (stamp_takesNoId out _ _).bind fun completed => ?_
      exact takesNoId_step (fun w => jobIds_modifyJob w jobId _ _) fun _ => trivial

/-- The id of the job that `create_job` returns. -/
def createdId (senderEmail : Text) (userId : Nat) (source operation : Text) (fields : List JobField) :
    M (Option Text) := do
  let job ← JobStore.createJob out senderEmail userId source operation fields
  return job.map Job.jobId

/-- The id of the next job of the day. -/
def nextId (d : Instant.Date) (w : World) : Text :=
  JobStore.jobIdOf (JobStore.jobIdPrefix d) ((idsOf d (jobIds w)).length + 1)

theorem insertJob_run {w : World} (hw : WellNumbered w) (d : Instant.Date) {row : Text → Job}
    (hrow : ∀ jobId, (row jobId).jobId = jobId) (sourceMessageId : Text) :
    ∃ t, (JobStore.insertJob (JobStore.jobIdPrefix d) 0 row sourceMessageId).run w =
      (.ok (nextId d w), { w with jobs := t }) ∧ jobIds { w with jobs := t } = jobIds w ++ [nextId d w] := by
  have hcount : (w.jobs.rows.filter fun j => likePrefix (JobStore.jobIdPrefix d) j.jobId).length =
      (idsOf d (jobIds w)).length := by
    rw [idsOf, jobIds, List.filter_map, List.length_map]
    rfl
  have hnew : w.jobs.find? (row (nextId d w)).jobId = none := by
    rw [hrow]
    exact Table.find?_eq_none.2 (Numbered.next_free hw d)
  obtain ⟨t, ht⟩ := Option.isSome_iff_exists.1 ((Table.insert?_isSome _ _).2 hnew)
  refine ⟨t, ?_, ?_⟩
  · rw [nextId] at ht
    simp only [JobStore.insertJob, run_atomic, hcount, Nat.add_zero, ht, nextId]
  · rw [jobIds, Table.insert?_rows ht, List.map_append, List.map_singleton, hrow, jobIds]

theorem received_jobId (senderEmail : Text) (userId : Nat) (source operation : Text) (fields : List JobField)
    (createdAt : Instant) (jobId : Text) :
    (JobStore.received senderEmail userId source operation fields createdAt jobId).jobId = jobId := by
  simp [JobStore.received]

theorem insert_allocates (d : Instant.Date) {row : Text → Job} (hrow : ∀ jobId, (row jobId).jobId = jobId)
    (sourceMessageId : Text) (handler : Exc → M (Option Job)) :
    Allocates jobIds WellNumbered NotUnallocated
      ((((JobStore.insertJob (JobStore.jobIdPrefix d) 0 row sourceMessageId).bind JobStore.get).tryCatch handler).bind
        fun job => ret (job.map Job.jobId)) := by
  intro w hw
  obtain ⟨t, hrun, htaken⟩ := insertJob_run hw d hrow sourceMessageId
  rw [JobStore.insertJob, run_atomic] at hrun
  simp only [hrun]
  refine ⟨?_, .inr ⟨nextId d w, Numbered.next_free hw d, htaken, fun v hv hmem => ⟨hv, rfl, ?_⟩⟩⟩
  · rw [WellNumbered, htaken]
    exact Numbered.next hw d
  · obtain ⟨job, hjob, hid⟩ := List.mem_map.1 hmem
    have hfound : v.jobs.find? (nextId d w) = some job := hid ▸ Table.find?_of_mem hjob
    show (v.jobs.find? (nextId d w)).map Job.jobId = some (nextId d w)
    rw [hfound, Option.map_some, hid]

section
variable (senderEmail : Text) (userId : Nat) (source operation : Text) (fields : List JobField)

/-- **`create_job` allocates**: it takes the next number of the day it has read, in its first round. -/
theorem createdId_allocates :
    Allocates jobIds WellNumbered NotUnallocated (createdId out senderEmail userId source operation fields) := by
  rw [createdId, JobStore.createJob, bind_eq, bind_eq, bind_assoc]
  refine Allocates.bind (utcnow_takesNoId out) fun now => ?_
  rw [JobStore.createJobFrom, bind_eq, bind_assoc]
  refine Allocates.bind (utcnow_takesNoId out) fun createdAt => ?_
  exact insert_allocates now.date (received_jobId senderEmail userId source operation fields createdAt) source _

theorem createdId_run {w : World} (hw : WellNumbered w) :
    ∃ t, (createdId out senderEmail userId source operation fields).run w =
        (.ok (some (nextId (w.now out).date w)), { w.tick.tick with jobs := t }) ∧
      jobIds { w.tick.tick with jobs := t } = jobIds w ++ [nextId (w.now out).date w] := by
  let d := (w.now out).date
  have hrow := received_jobId senderEmail userId source operation fields (w.tick.now out)
  obtain ⟨t, hrun, htaken⟩ := insertJob_run (w := w.tick.tick) hw d hrow source
  have hmem : nextId d w ∈ jobIds { w.tick.tick with jobs := t } := by
    rw [htaken]
    exact List.mem_append_right _ (List.mem_singleton.2 rfl)
  obtain ⟨job, hjob, hid⟩ := List.mem_map.1 hmem
  have hfound : t.find? (nextId d w) = some job := hid ▸ Table.find?_of_mem hjob
  refine ⟨t, ?_, htaken⟩
  have hcreate : (JobStore.createJob out senderEmail userId source operation fields).run w =
      (.ok (some job), { w.tick.tick with jobs := t }) := by
    have hnow : (utcnow out).run w = (.ok (w.now out), w.tick) := rfl
    have hcreated : (utcnow out).run w.tick = (.ok (w.tick.now out), w.tick.tick) := rfl
    rw [JobStore.createJob, bind_eq, run_bind_ok hnow, JobStore.createJobFrom, bind_eq, run_bind_ok hcreated,
      onIntegrityError]
    have hget : ((JobStore.insertJob (JobStore.jobIdPrefix d) 0 (JobStore.received senderEmail userId source operation
        fields (w.tick.now out)) source).bind JobStore.get).run w.tick.tick =
        (.ok (some job), { w.tick.tick with jobs := t }) := by
      rw [run_bind_ok hrun]
      show (Except.ok (t.find? (nextId d w)), _) = _
      rw [hfound]
      rfl
    exact run_tryCatch_ok hget
  rw [createdId, bind_eq, run_bind_ok hcreate]
  show (Except.ok ((some job).map Job.jobId), _) = _
  rw [Option.map_some, hid]

end

/-- What the threads do: they create jobs and write them. -/
inductive NumberingCall : M (Option Text) → Prop
  | create (senderEmail : Text) (userId : Nat) (source operation : Text) (fields : List JobField) :
      NumberingCall (createdId out senderEmail userId source operation fields)
  | update (jobId : Text) (fields : List JobField) :
      NumberingCall (do JobStore.update jobId fields; return none)
  | setStatus (jobId : Text) (new : JobState) (extra : List JobField) :
      NumberingCall (do JobStore.setStatus out jobId new extra; return none)

/-- Everything else that happens leaves the jobs alone. -/
def SameJobs (w w' : World) : Prop := w'.jobs = w.jobs

theorem numberingCall_allocates {p : M (Option Text)} (hcall : NumberingCall out p) :
    Allocates jobIds WellNumbered NotUnallocated p := by
  cases hcall with
  | create senderEmail userId source operation fields => exact createdId_allocates out _ _ _ _ _
  | update jobId fields => exact Allocates.bind (update_takesNoId jobId fields) fun _ => rfl
  | setStatus jobId new extra => exact Allocates.bind (setStatus_takesNoId out jobId new extra) fun _ => rfl

theorem sameJobs_wellNumbered {w w' : World} (h : SameJobs w w') (hw : WellNumbered w) :
    WellNumbered w' ∧ jobIds w' = jobIds w := by
  have hids : jobIds w' = jobIds w := congrArg (fun t : Table Job.jobId => t.rows.map Job.jobId) h
  exact ⟨by rwa [WellNumbered, hids], hids⟩

/-- A run of the threads from an empty table. -/
abbrev NumberingRun {ι : Type} [DecidableEq ι] (w : World) :=
  PoolRun Env.calm SameJobs (fun (_ : ι) p _ => NumberingCall out p) (fun _ => ret none, w)

theorem NumberingRun.allocated {ι : Type} [DecidableEq ι] {w : World} (hempty : w.jobs = Table.empty)
    {results : List (Option Text)} {d : (ι → M (Option Text)) × World} (hrun : NumberingRun out w results d) :
    WellNumbered d.2 ∧ results.reduceOption.Nodup ∧ ∀ t e, d.1 t = raise e → NotUnallocated e := by
  have hstart : WellNumbered w := by
    rw [WellNumbered, jobIds, hempty]
    exact numbered_nil
  exact hrun.distinct (fun _ _ h hw => sameJobs_wellNumbered h hw) (fun _ _ _ => numberingCall_allocates out) hstart

/-- **The ids are distinct, and numbered without a gap.** -/
theorem jobIds_numbered {ι : Type} [DecidableEq ι] {w : World} (hempty : w.jobs = Table.empty)
    {results : List (Option Text)} {d : (ι → M (Option Text)) × World}
    (hrun : PoolRun Env.calm SameJobs (fun _ p _ => NumberingCall out p) (fun _ => ret none, w) results d) :
    results.reduceOption.Nodup ∧ Numbered (jobIds d.2) ∧
      ∀ t e, d.1 t = raise e → e.kind ≠ .jobIdAllocationError := by
  obtain ⟨hinv, hdistinct, hraised⟩ := NumberingRun.allocated out hempty hrun
  exact ⟨hdistinct, hinv, hraised⟩

end

/-- A job of alice's. -/
def createAlice : M (Option Text) := createdId .plain "alice@uni.ac.uk" 12 "<1@uni.ac.uk>" "assess_query" []

/-- One thread creates two jobs. -/
theorem createAlice_numbered : Numbered (jobIds (createAlice.run (createAlice.run {}).2).2) := by
  have hcall : ∀ c : Unit → M (Option Text), Function.update c () createAlice () = createAlice := fun _ => rfl
  have hfirst : createAlice.run {} = (.ok (some "DIAR-2026-0811-0001".toList), (createAlice.run {}).2) :=
    Prod.ext (by decide +kernel) rfl
  have hsecond : createAlice.run (createAlice.run {}).2 =
      (.ok (some "DIAR-2026-0811-0002".toList), (createAlice.run (createAlice.run {}).2).2) :=
    Prod.ext (by decide +kernel) rfl
  have hlabel : createAlice.label? ≠ none := Option.some_ne_none Stmt.clock
  have hstart : PoolRun Env.calm SameJobs (fun (_ : Unit) p _ => NumberingCall .plain p) (fun _ => ret none, {}) []
      (fun _ => ret none, {}) := .start
  have hone := (hstart.call (p := createAlice) (t := ()) (.create ..)).run (hcall _) hlabel hfirst
  have htwo := (hone.call (p := createAlice) (t := ()) (.create ..)).run (hcall _) hlabel hsecond
  exact (jobIds_numbered .plain rfl htwo).2.1

end GroupAssessmentAgent
