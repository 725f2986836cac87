import GroupAssessmentAgent.Jobs.Questions
import GroupAssessmentAgent.Lib.Exec

/-!
# Executions of the handlers

What a history says of the backends (`callsOf`, `answersOf`), and what `set_status` and `update` leave behind when they
are executed alone: the row as it was, or the row they write. Of the assignments that `set_status` adds of its own only
the two time columns are known; `Job.unstamped` is a row without them.
-/

namespace GroupAssessmentAgent
open Prog

abbrev WorldHistory := History Stmt World Exc

/-! ### Calls -/

/-- The call of a backend that a statement is. -/
def Stmt.call? : Stmt → Option BackendCall
  | .backend call => some call
  | _ => none

/-- The calls of the backends, in their order. -/
def callsOf (h : WorldHistory) : List BackendCall := h.filterMap fun t => t.label.call?

/-- What the calls were answered, where `ask` says what the n-th call of a backend gets. -/
def answersOf {α : Type} (ask : BackendCall → Nat → Option α) (h : WorldHistory) : List α :=
  h.filterMap fun t =>
    if t.fault.isNone then t.label.call?.bind fun call => ask call t.state.backendCalls else none

@[simp] theorem callsOf_nil : callsOf [] = [] := rfl

@[simp] theorem callsOf_append (h h' : WorldHistory) : callsOf (h ++ h') = callsOf h ++ callsOf h' :=
  List.filterMap_append

@[simp] theorem answersOf_append {α : Type} (ask : BackendCall → Nat → Option α) (h h' : WorldHistory) :
    answersOf ask (h ++ h') = answersOf ask h ++ answersOf ask h' :=
  List.filterMap_append

theorem answersOf_answered {α : Type} (ask : BackendCall → Nat → Option α) (call : BackendCall) (w : World) :
    answersOf ask [⟨.backend call, w, none⟩] = (ask call w.backendCalls).toList := by
  cases hanswer : ask call w.backendCalls <;> simp [answersOf, Stmt.call?, hanswer]

theorem answersOf_eq_nil {α : Type} {ask : BackendCall → Nat → Option α} {h : WorldHistory}
    (hask : ∀ call ∈ callsOf h, ∀ n, ask call n = none) : answersOf ask h = [] := by
  refine List.filterMap_eq_nil_iff.2 fun t ht => ?_
  split_ifs
  · cases hcall : t.label.call? with
    | none => rfl
    | some call => exact hask call (List.mem_filterMap.2 ⟨t, ht, hcall⟩) _
  · rfl

theorem answersOf_nil_calls {α : Type} {ask : BackendCall → Nat → Option α} {h : WorldHistory}
    (hnone : callsOf h = []) :
    answersOf ask h = [] :=
  answersOf_eq_nil fun call hcall => by
    rw [hnone] at hcall
    cases hcall

theorem answersOf_length_le {α : Type} {ask : BackendCall → Nat → Option α} {p : BackendCall → Bool}
    (hask : ∀ call n, p call = false → ask call n = none) (h : WorldHistory) :
    (answersOf ask h).length ≤ ((callsOf h).filter p).length := by
  induction h with
  | nil => exact Nat.le_refl _
  | cons t h ih =>
    rw [← List.singleton_append, answersOf_append, callsOf_append, List.filter_append, List.length_append,
      List.length_append]
    refine Nat.add_le_add ?_ ih
    by_cases hanswer : answersOf ask [t] = []
    · rw [hanswer]
      exact Nat.zero_le _
    · have hcall : (callsOf [t]).filter p ≠ [] := by
        intro hnone
        refine hanswer (answersOf_eq_nil fun call hcall n => hask call n ?_)
        simpa using List.filter_eq_nil_iff.1 hnone call hcall
      exact (List.length_filterMap_le _ _).trans (List.length_pos_iff.2 hcall)

/-- The same calls with the same answers. -/
structure SameCalls (h h' : WorldHistory) : Prop where
  calls : callsOf h = callsOf h'
  answers : ∀ {α : Type} (ask : BackendCall → Nat → Option α), answersOf ask h = answersOf ask h'

theorem sameCalls_within {before after : WorldHistory} (hbefore : callsOf before = []) (hafter : callsOf after = [])
    (h : WorldHistory) : SameCalls (before ++ (h ++ after)) h where
  calls := by rw [callsOf_append, callsOf_append, hbefore, hafter, List.nil_append, List.append_nil]
  answers ask := by
    rw [answersOf_append, answersOf_append, answersOf_nil_calls hbefore, answersOf_nil_calls hafter, List.nil_append,
      List.append_nil]

section
variable {E : Env Stmt World Exc}

theorem callBackend_ensures {α : Type} (call : BackendCall) (answer : Nat → Except Exc α) (w : World) :
    Ensures E (fun h x _ => callsOf h = [call] ∧
      ∀ a, x = .ok a → h = [⟨.backend call, w, none⟩] ∧ answer w.backendCalls = .ok a)
      (callBackend call answer) w := by
  refine ensures_atomic ⟨rfl, fun a ha => ⟨rfl, ha⟩⟩ fun e _ => ⟨rfl, fun a ha => by cases ha⟩

theorem catching_ensures {α : Type} {Q : WorldHistory → Except Exc α → World → Prop}
    (kinds : List ExcKind) {p : M α} {w : World} (hp : Ensures E Q p w) :
    Ensures E (fun h x w' => (∃ y, x = .ok y ∧ Q h y w' ∧ ∀ e, y = .error e → e.kind ∈ kinds) ∨
      ∃ e, x = .error e ∧ Q h (.error e) w' ∧ e.kind ∉ kinds) (catching kinds p) w := by
  have hmapped : Ensures E
      (fun h x w' => (∃ a, x = .ok (.ok a) ∧ Q h (.ok a) w') ∨ ∃ e, x = .error e ∧ Q h (.error e) w')
      (Except.ok <$> p : M (Except Exc α)) w := by
    refine Ensures.bind hp (fun h a w' hQ => ensures_ret (.inl ⟨a, rfl, ?_⟩)) fun h e w' hQ => .inr ⟨e, rfl, hQ⟩
    rw [List.append_nil]
    exact hQ
  refine Ensures.tryCatch hmapped (fun h y w' hend => ?_) fun h e w' hend => ?_
  · rcases hend with ⟨a, hy, hQ⟩ | ⟨e, hy, -⟩
    · exact .inl ⟨y, rfl, by rw [Except.ok.inj hy]; exact hQ, fun e he => by rw [Except.ok.inj hy] at he; cases he⟩
    · cases hy
  · rcases hend with ⟨a, hy, -⟩ | ⟨e', hy, hQ⟩
    · cases hy
    · obtain rfl := Except.error.inj hy
      rw [← List.append_nil h] at hQ
      split_ifs with hkind
      · refine ensures_ret (.inl ⟨.error e, rfl, hQ, fun e' he' => ?_⟩)
        rw [← Except.error.inj he']
        exact hkind
      · exact ensures_raise (.inr ⟨e, rfl, hQ, hkind⟩)

theorem covers_callFree : Covers (fun l _ => l.call? = none) (fun _ => True) fun _ => True where
  look l hl := by cases l <;> first | rfl | cases hl
  ask _ := rfl
  tick := rfl
  job _ _ _ := rfl
  status _ _ _ _ _ _ := rfl
  outbox _ _ _ := rfl
  put _ _ := rfl
  delete _ _ := rfl
  alert _ := rfl
  files l f hl _ := by rcases hl with rfl | rfl <;> rfl

theorem callFree_ensures {α : Type} {p : M α} (hp : Always (fun l _ => l.call? = none) p) (w : World) :
    Ensures E (fun h _ _ => callsOf h = []) p w :=
  hp.labels w |>.mono fun _ _ _ hlabels => List.filterMap_eq_nil_iff.2 hlabels

end

/-! ### Rows without their times -/

namespace Job

/-- The row, apart from the time columns that `set_status` writes. -/
def unstamped (j : Job) : Job := { j with startedAt := none, completedAt := none }

@[simp] theorem unstamped_status (j : Job) : j.unstamped.status = j.status := rfl

end Job

/-- An assignment that `set_status` adds of its own. -/
def JobField.IsStamp (v : JobField) : Prop := v.isStartedAt = true ∨ v.isCompletedAt = true

namespace Job

theorem unstamped_stamps (j : Job) {stamps : List JobField} (hstamps : ∀ v ∈ stamps, v.IsStamp) :
    (j.setAll stamps).unstamped = j.unstamped := by
  refine setAll_keeps (fun v hv j => ?_) j
  have hstamp := hstamps v hv
  cases v <;> first | rfl | simp [JobField.IsStamp, JobField.isStartedAt, JobField.isCompletedAt] at hstamp

end Job

/-! ### `set_status` and `update` -/

/-- The status may be set. -/
def Allowed (w : World) (jobId : Text) (new : JobState) : Prop :=
  ∃ current, statusOf w jobId = some current ∧ (new = current ∨ new ∈ current.allowedTransitions)

/-- A statement of a store has raised the exception. -/
def StoreFault (E : Env Stmt World Exc) (e : Exc) : Prop := ∃ l s, l.ofStore = true ∧ E.fault l s e

/-- A store has answered in `P`, or raised. -/
def Effective {α : Type} (E : Env Stmt World Exc) (P : α → Prop) (h : WorldHistory) : Except Exc α → Prop
  | .ok a => Clean h ∧ P a
  | .error e => StoreFault E e

/-- How `set_status` ends. -/
inductive StatusSet (E : Env Stmt World Exc) (jobId : Text) (new : JobState) (extra : List JobField) (w : World) :
    WorldHistory → Except Exc Unit → World → Prop
  | refused {h} (e : Exc) (n : Nat) : ¬ Allowed w jobId new ∨ StoreFault E e →
      StatusSet E jobId new extra w h (.error e) { w with ticks := n }
  | written {h} (stamps : List JobField) (n : Nat) : Clean h → Allowed w jobId new → (∀ v ∈ stamps, v.IsStamp) →
      StatusSet E jobId new extra w h (.ok ()) ({ w with ticks := n }.writeStatus jobId new (extra ++ stamps))

section
variable {E : Env Stmt World Exc} (out : Outside)

theorem effective_atomic {α : Type} {l : Stmt} (hl : l.ofStore = true) {a : World → α} {f : World → World} {w : World}
    {P : World → Prop} (hw : P w) (hf : P (f w)) :
    Ensures E (fun h x w' => P w' ∧ Effective E (fun b => b = a w) h x) (atomic l fun w => (.ok (a w), f w)) w :=
  ensures_atomic ⟨hf, clean_step _ _, rfl⟩ fun _ he => ⟨hw, l, w, hl, he⟩

theorem stamp_ensures (wanted : Prop) [Decidable wanted] {column : Option Instant → JobField}
    (hcolumn : ∀ now, (column now).IsStamp) (w : World) :
    Ensures E (fun h x w' => (∃ n, w' = { w with ticks := n }) ∧
        Effective E (fun fields : List JobField => ∀ v ∈ fields, v.IsStamp) h x)
      (JobStore.stamp out wanted column) w := by
  unfold JobStore.stamp
  split_ifs
  · have hclock := effective_atomic (E := E) (l := .clock) rfl (a := World.now out) (f := World.tick) (w := w)
      (P := fun w' => ∃ n, w' = { w with ticks := n }) ⟨w.ticks, rfl⟩ ⟨_, rfl⟩
    refine Ensures.bind hclock (fun h now w' hw' => ensures_ret ⟨hw'.1, ?_, ?_⟩) fun _ e w' hw' => hw'
    · exact hw'.2.1.append clean_nil
    · exact List.forall_mem_singleton.2 (hcolumn _)
  · exact ensures_ret ⟨⟨w.ticks, rfl⟩, clean_nil, nofun⟩

theorem setStatus_ensures (jobId : Text) (new : JobState) (extra : List JobField) (w : World) :
    Ensures E (StatusSet E jobId new extra w) (JobStore.setStatus out jobId new extra) w := by
  have hread := effective_atomic (E := E) (l := .selectJobs) rfl (a := fun w => statusOf w jobId) (f := id) (w := w)
    (P := fun w' => w' = w) rfl rfl
  refine Ensures.bind hread (fun h₀ row w' hrow => ?_) fun _ e w' hw' => ?_
  · obtain ⟨rfl, hclean₀, hrow⟩ := hrow
    cases row with
    | none =>
      refine ensures_raise (.refused _ w'.ticks (.inl fun ⟨current, hcurrent, _⟩ => ?_))
      rw [← hrow] at hcurrent
      cases hcurrent
    | some current =>
      simp only
      split_ifs with hguard
      · refine ensures_raise (.refused _ w'.ticks (.inl fun ⟨current', hcurrent, hallowed⟩ => ?_))
        rw [← hrow] at hcurrent
        obtain rfl := Option.some.inj hcurrent
        tauto
      · have hallowed : Allowed w' jobId new := ⟨current, hrow.symm, by tauto⟩
        refine Ensures.bind (stamp_ensures out _ (fun _ => .inl rfl) w') (fun h₁ started w₁ hstarted => ?_)
          fun _ e w₁ hw₁ => ?_
        · obtain ⟨⟨n, rfl⟩, hclean₁, hstarted⟩ := hstarted
          refine Ensures.bind (stamp_ensures out _ (fun _ => .inr rfl) _) (fun h₂ completed w₂ hcompleted => ?_)
            fun _ e w₂ hw₂ => ?_
          · obtain ⟨⟨m, rfl⟩, hclean₂, hcompleted⟩ := hcompleted
            refine ensures_change ?_ fun e he => .refused e m (.inr ⟨_, _, rfl, he⟩)
            rw [List.append_assoc]
            exact .written _ m (hclean₀.append (hclean₁.append (hclean₂.append (clean_step _ _)))) hallowed
              (List.forall_mem_append.2 ⟨hstarted, hcompleted⟩)
          · obtain ⟨⟨m, rfl⟩, hfault⟩ := hw₂
            exact .refused e m (.inr hfault)
        · obtain ⟨⟨n, rfl⟩, hfault⟩ := hw₁
          exact .refused e n (.inr hfault)
  · obtain ⟨rfl, hfault⟩ := hw'
    exact .refused e w'.ticks (.inr hfault)

/-- The statements of `set_status`, of which the last is the UPDATE: it assigns the extra fields and the times. -/
theorem setStatus_steps {A : Stmt → (World → World) → Prop} {F : JobField → Prop} (hstamps : ∀ v, v.IsStamp → F v)
    (hlook : A .selectJobs id) (htick : A .clock World.tick) {jobId : Text} {new : JobState} {extra : List JobField}
    (hextra : ∀ v ∈ extra, F v) (hwrite : ∀ current fields, (∀ v ∈ fields, F v) →
      A (.updateStatus jobId current new) fun w => w.writeStatus jobId new fields) :
    Always A (JobStore.setStatus out jobId new extra) := by
  have hstamp : ∀ (wanted : Prop) [Decidable wanted] (column : Option Instant → JobField)
      (g : List JobField → M Unit), (∀ now, (column now).IsStamp) →
      (∀ fields, (∀ v ∈ fields, F v) → Always A (g fields)) →
      Always A ((JobStore.stamp out wanted column).bind g) := by
    intro wanted _ column g hcolumn hg
    unfold JobStore.stamp
    split_ifs
    · have hclock : Always A (utcnow out) := always_atomic htick
      rw [bind_eq, bind_assoc]
      refine hclock.bind fun now => hg _ ?_
      exact List.forall_mem_singleton.2 (hstamps _ (hcolumn _))
    · exact hg [] (List.forall_mem_nil _)
  refine Always.bind (always_observe hlook _) fun row => ?_
  cases row with
  | none => trivial
  | some current =>
    simp only
    split_ifs
    · trivial
    · refine hstamp _ _ _ (fun _ => .inl rfl) fun started hstarted => ?_
      refine hstamp _ _ _ (fun _ => .inr rfl) fun completed hcompleted => always_change (hwrite current _ ?_)
      exact List.forall_mem_append.2 ⟨List.forall_mem_append.2 ⟨hextra, hstarted⟩, hcompleted⟩

theorem update_ensures (jobId : Text) {fields : List JobField} (hfields : fields ≠ []) (w : World) :
    Ensures E (fun h x w' => (w' = w.writeJob jobId fields ∧ x = .ok () ∧ Clean h) ∨
        w' = w ∧ ∃ e, x = .error e ∧ StoreFault E e)
      (JobStore.update jobId fields) w := by
  unfold JobStore.update
  rw [if_neg hfields]
  exact ensures_change (.inl ⟨rfl, rfl, clean_step _ _⟩) fun e he => .inr ⟨rfl, e, rfl, _, _, rfl, he⟩

end

/-! ### Statements beside the jobs -/

/-- A step that leaves the jobs as they are. -/
def JobsKept (_ : Stmt) (f : World → World) : Prop := ∀ w, (f w).jobs = w.jobs

theorem covers_jobsKept : Covers JobsKept (fun _ => False) fun _ => True where
  look _ _ _ := rfl
  ask _ _ := rfl
  tick _ := rfl
  job _ _ h := h.elim
  status _ _ _ _ h := h.elim
  outbox _ _ _ _ := rfl
  put _ h := h.elim
  delete _ h := h.elim
  alert _ _ := rfl
  files l f _ hf w := by
    obtain ⟨t, n, h⟩ := hf w
    rw [h]

theorem coversCalls_jobsKept : CoversCalls JobsKept := fun _ _ => rfl

theorem coversMarks_jobsKept : CoversMarks JobsKept fun _ => True := by
  refine ⟨⟨fun _ f _ hf w => ?_, fun _ f _ hf w => ?_⟩, fun _ _ => rfl⟩
  · obtain ⟨t, h, -⟩ := hf w
    rw [h]
  · obtain ⟨t, h, -⟩ := hf w
    rw [h]

theorem jobsKept_ensures {E : Env Stmt World Exc} {α : Type} {p : M α} (hp : Always JobsKept p) (w : World) :
    Ensures E (fun _ _ w' => w'.jobs = w.jobs) p w :=
  Keeps.ensures hp w

/-! ### The row of a job -/

/-- The row of the job, if there is one, has the property; its times are no matter. -/
def RowHas (jobId : Text) (P : Job → Prop) (w : World) : Prop :=
  ∀ row, w.jobs.find? jobId = some row → P row.unstamped

section
variable {jobId : Text} {P Q : Job → Prop} {w w' : World}

theorem RowHas.congr (h : RowHas jobId P w) (hjobs : w'.jobs = w.jobs) : RowHas jobId P w' := by
  rw [RowHas, hjobs]
  exact h

theorem RowHas.mono (h : RowHas jobId P w) (hQ : ∀ j, P j → Q j) : RowHas jobId Q w :=
  fun row hrow => hQ _ (h row hrow)

theorem RowHas.writeJob (h : RowHas jobId P w) {fields : List JobField}
    (hQ : ∀ j : Job, P j.unstamped → Q (j.setAll fields).unstamped) : RowHas jobId Q (w.writeJob jobId fields) := by
  intro row hrow
  rw [World.writeJob, World.modifyJob, Table.find?_modify, if_pos rfl] at hrow
  obtain ⟨j, hj, rfl⟩ := Option.map_eq_some_iff.1 hrow
  exact hQ j (h j hj)

theorem RowHas.writeStatus (h : RowHas jobId P w) {new : JobState} {extra stamps : List JobField} (n : Nat)
    (hstamps : ∀ v ∈ stamps, v.IsStamp)
    (hQ : ∀ j : Job, P j.unstamped → Q ({ j with status := new }.setAll extra).unstamped) :
    RowHas jobId Q ({ w with ticks := n }.writeStatus jobId new (extra ++ stamps)) := by
  intro row hrow
  rw [World.writeStatus, World.modifyJob, Table.find?_modify, if_pos rfl] at hrow
  obtain ⟨j, hj, rfl⟩ := Option.map_eq_some_iff.1 hrow
  have hset : ({ j with status := new }.setAll (extra ++ stamps)).unstamped =
      ({ j with status := new }.setAll extra).unstamped := by
    rw [Job.setAll, List.foldl_append]
    exact Job.unstamped_stamps _ hstamps
  rw [hset]
  exact hQ j (h j hj)

theorem StatusSet.row {new : JobState} {extra : List JobField} {x : Except Exc Unit}
    {E : Env Stmt World Exc} {t : WorldHistory} (hset : StatusSet E jobId new extra w t x w') (h : RowHas jobId P w)
    (hQ : ∀ j : Job, P j.unstamped → Q ({ j with status := new }.setAll extra).unstamped) :
    (x = .ok () ∧ RowHas jobId Q w') ∨ ∃ e, x = .error e ∧ RowHas jobId P w' := by
  cases hset with
  | refused e n _ => exact .inr ⟨e, rfl, h⟩
  | written stamps n _ _ hstamps => exact .inl ⟨rfl, h.writeStatus n hstamps hQ⟩

end

/-! ### Moving the file of a job -/

namespace SubmitTranscript
variable {E : Env Stmt World Exc} {φ : Job → Prop}

/-- The path of the file is no matter. -/
def IgnoresPath (φ : Job → Prop) : Prop := ∀ j path, φ j → φ { j with attachmentStoragePath := path }

theorem moved_ensures (hφ : IgnoresPath φ) {jobId : Text} (path dir : Text) {w : World} (hw : RowHas jobId φ w) :
    Ensures E (fun _ _ w' => RowHas jobId φ w') (do
      let moved ← moveTo path dir
      JobStore.update jobId [.attachmentStoragePath (some moved)]) w := by
  refine Ensures.bind (jobsKept_ensures (moveTo_always covers_jobsKept path dir) w) (fun _ moved w₁ hjobs => ?_)
    fun _ _ _ hjobs => hw.congr hjobs
  refine (update_ensures jobId (List.cons_ne_nil _ _) w₁).mono fun _ _ w' hw' => ?_
  rcases hw' with ⟨rfl, -⟩ | ⟨rfl, -⟩
  · exact (hw.congr hjobs).writeJob fun j hj => hφ _ _ hj
  · exact hw.congr hjobs

theorem moveStored_ensures (hφ : IgnoresPath φ) (job : Job) (dir : Text) {w : World} (hw : RowHas job.jobId φ w) :
    Ensures E (fun _ _ w' => RowHas job.jobId φ w') (moveStored job dir) w := by
  unfold moveStored
  cases truthy job.attachmentStoragePath with
  | none => exact ensures_ret hw
  | some path => exact moved_ensures hφ path dir hw

theorem moveFailedFile_ensures (hφ : IgnoresPath φ) (storage : StorageSettings) (job : Job) {w : World}
    (hw : RowHas job.jobId φ w) :
    Ensures E (fun _ _ w' => RowHas job.jobId φ w') (moveFailedFile storage job) w := by
  unfold moveFailedFile
  cases truthy job.attachmentStoragePath with
  | none => exact ensures_ret hw
  | some path =>
    refine Ensures.bind (jobsKept_ensures (fileExists_always covers_jobsKept path) w) (fun _ found w₁ hjobs => ?_)
      fun _ _ _ hjobs => hw.congr hjobs
    split_ifs
    · exact moved_ensures hφ path _ (hw.congr hjobs)
    · exact ensures_ret (hw.congr hjobs)

end SubmitTranscript

end GroupAssessmentAgent
