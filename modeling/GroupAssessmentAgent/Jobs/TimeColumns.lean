import Mathlib.Data.List.Induction
import GroupAssessmentAgent.Jobs.Executions
import GroupAssessmentAgent.Jobs.Numbering

/-!
# The time columns of the jobs

Calls of `create_job` and `set_status`, one after another, from an empty table. A call writes one row or none
(`StatusCall.Ends`), and a row it writes is stamped by the status it gets (`RowStep`). So `completed_at` says that the
status is terminal, since nothing leads out of a terminal status, and `started_at` that the job has been PROCESSING at
some time, since nothing takes it back.
-/

namespace GroupAssessmentAgent
open Prog

inductive StatusCall where
  | create (senderEmail : Text) (backendUserId : Nat) (sourceMessageId operation : Text) (fields : List JobField)
  | setStatus (jobId : Text) (new : JobState) (extra : List JobField)
  deriving DecidableEq

/-- None of the assignments is one of a time column. -/
def Untimed (fields : List JobField) : Prop := ∀ v ∈ fields, v.isStartedAt = false ∧ v.isCompletedAt = false

namespace StatusCall

def fields : StatusCall → List JobField
  | create _ _ _ _ fields => fields
  | setStatus _ _ extra => extra

/-- The call, with the id of its own job as its result. -/
def prog (out : Outside) : StatusCall → M (Option Text)
  | create senderEmail backendUserId sourceMessageId operation fields =>
    createdId out senderEmail backendUserId sourceMessageId operation fields
  | setStatus jobId new extra => do
    JobStore.setStatus out jobId new extra
    return some jobId

/-- The call, alone and without faults. -/
def leave (out : Outside) (w : World) (call : StatusCall) : World := ((call.prog out).run w).2

end StatusCall

/-- The state after a history of calls. -/
def afterStatusCalls (out : Outside) (w : World) (calls : List StatusCall) : World :=
  calls.foldl (StatusCall.leave out) w

/-- The job has had the status at some time in a history. -/
def HasBeen (out : Outside) (w : World) (calls : List StatusCall) (jobId : Text) (s : JobState) : Prop :=
  ∃ past, past <+: calls ∧ statusOf (afterStatusCalls out w past) jobId = some s

/-! ### One call -/

/-- What a call makes of the row of its job. -/
inductive RowStep : Option Job → Job → Prop
  | created {row : Job} : row.status = .received → row.startedAt = none → row.completedAt = none → RowStep none row
  | moved {row row' : Job} : (row'.status = row.status ∨ row'.status ∈ row.status.allowedTransitions) →
      (row'.startedAt.isSome ↔ row.startedAt.isSome ∨ row'.status = .processing) →
      (row'.completedAt.isSome ↔ row.completedAt.isSome ∨ row'.status.Terminal) → RowStep (some row) row'

/-- How a call ends: with an exception and the table as it was, or with one row written. -/
inductive StatusCall.Ends (w : World) : Except Exc (Option Text) → World → Prop
  | raised {e : Exc} {w' : World} : w'.jobs = w.jobs → Ends w (.error e) w'
  | written {jobId : Text} {row : Job} {w' : World} :
      (∀ id, w'.jobs.find? id = if id = jobId then some row else w.jobs.find? id) →
      RowStep (w.jobs.find? jobId) row → Ends w (.ok (some jobId)) w'

theorem StatusCall.Ends.congr {w₀ w w' : World} {x : Except Exc (Option Text)} (h : StatusCall.Ends w x w')
    (hjobs : w.jobs = w₀.jobs) : StatusCall.Ends w₀ x w' := by
  cases h with
  | raised hsame => exact .raised (hsame.trans hjobs)
  | written hfind hstep =>
    rw [hjobs] at hfind hstep
    exact .written hfind hstep

theorem Untimed.startedAt {fields : List JobField} (h : Untimed fields) (j : Job) :
    (j.setAll fields).startedAt = j.startedAt :=
  Job.setAll_keeps (fun v hv j => by
    have hv := (h v hv).1
    cases v <;> first | rfl | cases hv) j

theorem Untimed.completedAt {fields : List JobField} (h : Untimed fields) (j : Job) :
    (j.setAll fields).completedAt = j.completedAt :=
  Job.setAll_keeps (fun v hv j => by
    have hv := (h v hv).2
    cases v <;> first | rfl | cases hv) j

/-! #### `create_job` -/

section
variable (out : Outside) (senderEmail : Text) (backendUserId : Nat) (sourceMessageId operation : Text)
  {fields : List JobField}

theorem insert_get_run (pre : Text) (attempt : Nat) {row : Text → Job} (hrow : ∀ jobId, (row jobId).jobId = jobId)
    (w : World) :
    let r := ((JobStore.insertJob pre attempt row sourceMessageId).bind JobStore.get).run w
    (r.2 = w ∧ ∃ e, r.1 = .error e ∧ e.kind = .integrityError) ∨
      ∃ jobId t, w.jobs.insert? (row jobId) = some t ∧ r = (.ok (some (row jobId)), { w with jobs := t }) := by
  intro r
  let jobId := JobStore.jobIdOf pre ((w.jobs.rows.filter fun j => likePrefix pre j.jobId).length + 1 + attempt)
  cases ht : w.jobs.insert? (row jobId) with
  | none =>
    have hinsert : (JobStore.insertJob pre attempt row sourceMessageId).run w =
        (.error ⟨.integrityError, "UNIQUE constraint failed: jobs.job_id"⟩, w) := by
      rw [JobStore.insertJob, run_atomic]
      simp only [jobId] at ht
      simp only [ht]
    have hr : r = (.error ⟨.integrityError, "UNIQUE constraint failed: jobs.job_id"⟩, w) := run_bind_error hinsert
    exact .inl ⟨congrArg Prod.snd hr, _, congrArg Prod.fst hr, rfl⟩
  | some t =>
    have hinsert : (JobStore.insertJob pre attempt row sourceMessageId).run w = (.ok jobId, { w with jobs := t }) := by
      rw [JobStore.insertJob, run_atomic]
      simp only [jobId] at ht
      simp only [ht, jobId]
    have hfound : t.find? jobId = some (row jobId) := by rw [Table.find?_insert? ht, if_pos (hrow jobId)]
    have hr : r = (.ok (t.find? jobId), { w with jobs := t }) := run_bind_ok hinsert
    exact .inr ⟨jobId, t, ht, by rw [hr, hfound]⟩

theorem createJobFrom_ends (hfields : Untimed fields) (pre : Text) (rounds attempt : Nat) (w : World) :
    let r := ((JobStore.createJobFrom out senderEmail backendUserId sourceMessageId operation fields pre rounds
      attempt).bind fun job => ret (job.map Job.jobId)).run w
    StatusCall.Ends w r.1 r.2 := by
  induction rounds generalizing attempt w with
  | zero => exact .raised rfl
  | succ rounds ih =>
    have hclock : (utcnow out).run w = (.ok (w.now out), w.tick) := rfl
    let row := JobStore.received senderEmail backendUserId sourceMessageId operation fields (w.now out)
    have hrow := received_jobId senderEmail backendUserId sourceMessageId operation fields (w.now out)
    rw [JobStore.createJobFrom, bind_eq, Prog.bind_assoc, run_bind_ok hclock, onIntegrityError]
    rcases insert_get_run sourceMessageId pre attempt hrow w.tick with ⟨hstate, e, herror, hkind⟩ | ⟨jobId, t, ht, hr⟩
    · have hretry : ((JobStore.insertJob pre attempt row sourceMessageId).bind JobStore.get).run w.tick =
          (.error e, w.tick) := Prod.ext herror hstate
      rw [run_bind, bind_eq, tryCatch_eq, run_tryCatch, hretry]
      simp only [if_pos hkind]
      have hrest := ih (attempt + 1) w.tick
      rw [run_bind] at hrest
      exact hrest.congr rfl
    · rw [bind_eq, tryCatch_eq, run_bind_ok (run_tryCatch_ok hr)]
      have hnone : w.jobs.find? jobId = none := by
        have hfree := (Table.insert?_isSome _ _).1 (by rw [ht]; rfl : (w.tick.jobs.insert? (row jobId)).isSome)
        rwa [hrow] at hfree
      have hstep : RowStep (w.jobs.find? jobId) (row jobId) := by
        rw [hnone]
        refine .created ?_ ?_ ?_
        · exact Job.setAll_status ..
        · exact hfields.startedAt _
        · exact hfields.completedAt _
      have hfind : ∀ id, t.find? id = if id = jobId then some (row jobId) else w.jobs.find? id := by
        intro id
        rw [Table.find?_insert? ht, hrow]
        simp only [eq_comm]
        rfl
      show StatusCall.Ends w (.ok (some (row jobId).jobId)) _
      rw [hrow]
      exact .written hfind hstep

theorem createdId_ends (hfields : Untimed fields) (w : World) :
    let r := (createdId out senderEmail backendUserId sourceMessageId operation fields).run w
    StatusCall.Ends w r.1 r.2 := by
  have hclock : (utcnow out).run w = (.ok (w.now out), w.tick) := rfl
  rw [createdId, JobStore.createJob, bind_eq, bind_eq, Prog.bind_assoc, run_bind_ok hclock]
  exact (createJobFrom_ends out senderEmail backendUserId sourceMessageId operation hfields _ 10 0 w.tick).congr rfl

end

/-! #### `set_status` -/

/-- The assignments that `stamp` returns. -/
def Stamped (wanted : Prop) (column : Option Instant → JobField) (stamps : List JobField) : Prop :=
  ¬ wanted ∧ stamps = [] ∨ wanted ∧ ∃ t, stamps = [column (some t)]

theorem stamp_run (out : Outside) (wanted : Prop) [Decidable wanted] (column : Option Instant → JobField) (w : World) :
    ∃ stamps n, (JobStore.stamp out wanted column).run w = (.ok stamps, { w with ticks := n }) ∧
      Stamped wanted column stamps := by
  unfold JobStore.stamp
  split_ifs with hwanted
  · exact ⟨_, _, rfl, .inr ⟨hwanted, _, rfl⟩⟩
  · exact ⟨_, w.ticks, rfl, .inl ⟨hwanted, rfl⟩⟩

theorem Job.setAll_append (j : Job) (fields fields' : List JobField) :
    j.setAll (fields ++ fields') = (j.setAll fields).setAll fields' :=
  List.foldl_append

theorem Stamped.startedAt {wanted : Prop} {stamps : List JobField} (h : Stamped wanted .startedAt stamps) (j : Job) :
    ((j.setAll stamps).startedAt.isSome ↔ j.startedAt.isSome ∨ wanted) ∧
      (j.setAll stamps).completedAt = j.completedAt := by
  obtain ⟨hwanted, rfl⟩ | ⟨hwanted, t, rfl⟩ := h
  · exact ⟨by simp [Job.setAll, hwanted], rfl⟩
  · exact ⟨by simp [Job.setAll, Job.set, hwanted], rfl⟩

theorem Stamped.completedAt {wanted : Prop} {stamps : List JobField} (h : Stamped wanted .completedAt stamps)
    (j : Job) : ((j.setAll stamps).completedAt.isSome ↔ j.completedAt.isSome ∨ wanted) ∧
      (j.setAll stamps).startedAt = j.startedAt := by
  obtain ⟨hwanted, rfl⟩ | ⟨hwanted, t, rfl⟩ := h
  · exact ⟨by simp [Job.setAll, hwanted], rfl⟩
  · exact ⟨by simp [Job.setAll, Job.set, hwanted], rfl⟩

theorem rowStep_setAll {row : Job} {new : JobState} {extra started completed : List JobField}
    (hallowed : new = row.status ∨ new ∈ row.status.allowedTransitions) (hextra : Untimed extra)
    (hstarted : Stamped (new = .processing ∧ extra.all (!·.isStartedAt)) .startedAt started)
    (hcompleted : Stamped (new.Terminal ∧ extra.all (!·.isCompletedAt)) .completedAt completed) :
    RowStep (some row) ({ row with status := new }.setAll (extra ++ started ++ completed)) := by
  have hnoStart : extra.all (!·.isStartedAt) = true := List.all_eq_true.2 fun v hv => by rw [(hextra v hv).1]; rfl
  have hnoEnd : extra.all (!·.isCompletedAt) = true := List.all_eq_true.2 fun v hv => by rw [(hextra v hv).2]; rfl
  rw [Job.setAll_append, Job.setAll_append]
  generalize hj₁ : { row with status := new }.setAll extra = j₁
  have hstart₁ : j₁.startedAt = row.startedAt := hj₁ ▸ hextra.startedAt _
  have hend₁ : j₁.completedAt = row.completedAt := hj₁ ▸ hextra.completedAt _
  have hstatus : ((j₁.setAll started).setAll completed).status = new := by
    rw [Job.setAll_status, Job.setAll_status, ← hj₁, Job.setAll_status]
  obtain ⟨hstart₂, hend₂⟩ := hstarted.startedAt j₁
  obtain ⟨hend₃, hstart₃⟩ := hcompleted.completedAt (j₁.setAll started)
  refine .moved ?_ ?_ ?_
  · rwa [hstatus]
  · rw [hstart₃, hstart₂, hstart₁, hstatus, hnoStart]
    simp
  · rw [hend₃, hend₂, hend₁, hstatus, hnoEnd]
    simp

theorem find?_writeStatus (w : World) (jobId : Text) (new : JobState) (fields : List JobField) (id : Text) :
    (w.writeStatus jobId new fields).jobs.find? id =
      if id = jobId then (w.jobs.find? id).map fun j => { j with status := new }.setAll fields else w.jobs.find? id :=
  Table.find?_modify w.jobs jobId _ (fun _ => by simp) id

theorem setStatus_ends (out : Outside) (jobId : Text) (new : JobState) {extra : List JobField} (hextra : Untimed extra)
    (w : World) :
    let r := ((JobStore.setStatus out jobId new extra).bind fun _ => ret (some jobId)).run w
    StatusCall.Ends w r.1 r.2 := by
  rw [JobStore.setStatus, bind_eq, Prog.bind_assoc]
  have hread : (observe .selectJobs fun w => (w.jobs.find? jobId).map Job.status : M (Option JobState)).run w =
      (.ok ((w.jobs.find? jobId).map Job.status), w) := rfl
  rw [run_bind_ok hread]
  cases hrow : w.jobs.find? jobId with
  | none => exact .raised rfl
  | some row =>
    simp only [Option.map_some]
    split_ifs with hguard
    · exact .raised rfl
    · have hallowed : new = row.status ∨ new ∈ row.status.allowedTransitions := by tauto
      obtain ⟨started, n, hstart, hstarted⟩ :=
        stamp_run out (new = .processing ∧ extra.all (!·.isStartedAt)) .startedAt w
      obtain ⟨completed, m, hend, hcompleted⟩ :=
        stamp_run out (new.Terminal ∧ extra.all (!·.isCompletedAt)) .completedAt { w with ticks := n }
      rw [bind_eq, Prog.bind_assoc, run_bind_ok hstart, bind_eq, Prog.bind_assoc, run_bind_ok hend]
      let row' := { row with status := new }.setAll (extra ++ started ++ completed)
      refine .written (fun id => (?_ : _ = if id = jobId then some row' else w.jobs.find? id)) ?_
      · refine (find?_writeStatus { w with ticks := m } jobId new _ id).trans ?_
        split_ifs with hid
        · rw [hid, hrow]
          rfl
        · rfl
      · rw [hrow]
        exact rowStep_setAll hallowed hextra hstarted hcompleted

/-- **One call** raises and leaves the table as it was, or writes the row of its own job. -/
theorem statusCall_ends (out : Outside) {call : StatusCall} (hcall : Untimed call.fields) (w : World) :
    StatusCall.Ends w ((call.prog out).run w).1 ((call.prog out).run w).2 := by
  cases call with
  | create senderEmail backendUserId sourceMessageId operation fields =>
    exact createdId_ends out senderEmail backendUserId sourceMessageId operation hcall w
  | setStatus jobId new extra => exact setStatus_ends out jobId new hcall w

/-! ### Histories of calls -/

/-- The time columns of a row that may have been PROCESSING. -/
structure TimesFit (row : Job) (started : Prop) : Prop where
  completedAt : row.completedAt.isSome ↔ row.status.Terminal
  startedAt : row.startedAt.isSome ↔ started

theorem RowStep.fits {old : Option Job} {row : Job} (h : RowStep old row) {started : Prop}
    (hold : ∀ r, old = some r → TimesFit r started) (hnone : old = none → ¬ started) :
    TimesFit row (started ∨ row.status = .processing) := by
  cases h with
  | created hstatus hstart hend =>
    refine ⟨?_, ?_⟩
    · simp [hend, hstatus, JobState.Terminal]
    · simp [hstart, hstatus, hnone rfl]
  | @moved old _ hmove hstart hend =>
    obtain ⟨hcompleted, hstarted⟩ := hold old rfl
    refine ⟨?_, by rw [hstart, hstarted]⟩
    rw [hend, hcompleted]
    refine ⟨fun h => h.elim (fun hterminal => ?_) id, .inr⟩
    rw [(JobState.terminal_iff _).1 hterminal] at hmove
    rcases hmove with heq | hmem
    · rwa [heq]
    · cases hmem

section
variable (out : Outside) (w : World)

theorem afterStatusCalls_append (calls : List StatusCall) (call : StatusCall) :
    afterStatusCalls out w (calls ++ [call]) = call.leave out (afterStatusCalls out w calls) :=
  List.foldl_append

theorem hasBeen_append (calls : List StatusCall) (call : StatusCall) (jobId : Text) (s : JobState) :
    HasBeen out w (calls ++ [call]) jobId s ↔
      HasBeen out w calls jobId s ∨ statusOf (afterStatusCalls out w (calls ++ [call])) jobId = some s := by
  constructor
  · rintro ⟨past, hpast, hs⟩
    rcases List.prefix_concat_iff.1 hpast with rfl | hpast
    · exact .inr hs
    · exact .inl ⟨past, hpast, hs⟩
  · rintro (⟨past, hpast, hs⟩ | hs)
    · exact ⟨past, hpast.trans (List.prefix_append ..), hs⟩
    · exact ⟨_, List.prefix_rfl, hs⟩

variable {out w}

theorem hasBeen_same {calls : List StatusCall} {call : StatusCall} {jobId : Text}
    (hsame : (call.leave out (afterStatusCalls out w calls)).jobs.find? jobId =
      (afterStatusCalls out w calls).jobs.find? jobId) (s : JobState) :
    HasBeen out w (calls ++ [call]) jobId s ↔ HasBeen out w calls jobId s := by
  rw [hasBeen_append, afterStatusCalls_append, statusOf, hsame, ← statusOf]
  exact ⟨fun h => h.elim id fun hs => ⟨calls, List.prefix_rfl, hs⟩, .inl⟩

theorem timesFit_after (hw : w.jobs.rows = []) {calls : List StatusCall}
    (hcalls : ∀ call ∈ calls, Untimed call.fields) (jobId : Text) :
    (∀ row, (afterStatusCalls out w calls).jobs.find? jobId = some row →
        TimesFit row (HasBeen out w calls jobId .processing)) ∧
      ((afterStatusCalls out w calls).jobs.find? jobId = none → ¬ HasBeen out w calls jobId .processing) := by
  induction calls using List.reverseRecOn with
  | nil =>
    have hnone : w.jobs.find? jobId = none := Table.find?_eq_none.2 (by simp [hw])
    refine ⟨fun row hrow => ?_, fun _ ⟨past, hpast, hs⟩ => ?_⟩
    · rw [afterStatusCalls, List.foldl_nil, hnone] at hrow
      cases hrow
    · obtain rfl := List.prefix_nil.1 hpast
      rw [afterStatusCalls, List.foldl_nil, statusOf, hnone] at hs
      cases hs
  | append_singleton calls call ih =>
    obtain ⟨hfits, hnone⟩ := ih fun c hc => hcalls c (List.mem_append_left _ hc)
    have hends := statusCall_ends out (hcalls call (by simp)) (afterStatusCalls out w calls)
    have hother : (call.leave out (afterStatusCalls out w calls)).jobs.find? jobId =
        (afterStatusCalls out w calls).jobs.find? jobId →
        (∀ row, (afterStatusCalls out w (calls ++ [call])).jobs.find? jobId = some row →
          TimesFit row (HasBeen out w (calls ++ [call]) jobId .processing)) ∧
        ((afterStatusCalls out w (calls ++ [call])).jobs.find? jobId = none →
          ¬ HasBeen out w (calls ++ [call]) jobId .processing) := by
      intro hsame
      rw [hasBeen_same hsame, afterStatusCalls_append, hsame]
      exact ⟨hfits, hnone⟩
    unfold StatusCall.leave at hother
    generalize hrun : (call.prog out).run (afterStatusCalls out w calls) = r at hends hother
    obtain ⟨x, w'⟩ := r
    have hafter : afterStatusCalls out w (calls ++ [call]) = w' := by
      rw [afterStatusCalls_append, StatusCall.leave, hrun]
    cases hends with
    | raised hsame => exact hother (by rw [hsame])
    | @written own row _ hfind hstep =>
      by_cases hid : jobId = own
      · subst hid
        have hrow : w'.jobs.find? jobId = some row := by rw [hfind, if_pos rfl]
        have hfit := hstep.fits hfits hnone
        have hbeen : HasBeen out w (calls ++ [call]) jobId .processing ↔
            HasBeen out w calls jobId .processing ∨ row.status = .processing := by
          rw [hasBeen_append, hafter, statusOf, hrow, Option.map_some, Option.some.injEq]
        rw [hafter, hrow, hbeen]
        refine ⟨fun row' hrow' => ?_, fun h => by cases h⟩
        obtain rfl := Option.some.inj hrow'
        exact hfit
      · exact hother (by rw [hfind, if_neg hid])

end

/-- **The time columns**, after any history of calls: `completed_at` is set exactly in a terminal status, and
`started_at` exactly if the job has been PROCESSING at some time. A call that raises leaves the table as it is, and one
that returns changes no row but that of its own job. -/
theorem times_fit (out : Outside) {w : World} (hw : w.jobs.rows = []) {calls : List StatusCall}
    (hcalls : ∀ call ∈ calls, Untimed call.fields) :
    (∀ jobId row, (afterStatusCalls out w calls).jobs.find? jobId = some row →
      (row.completedAt.isSome ↔ row.status = .completed ∨ row.status = .failed ∨ row.status = .cancelled) ∧
      (row.startedAt.isSome ↔ HasBeen out w calls jobId .processing)) ∧
    ∀ call : StatusCall, Untimed call.fields →
      (∀ e w', (call.prog out).run (afterStatusCalls out w calls) = (.error e, w') →
        w'.jobs = (afterStatusCalls out w calls).jobs) ∧
      ∀ own w', (call.prog out).run (afterStatusCalls out w calls) = (.ok own, w') →
        ∃ jobId, own = some jobId ∧ ∀ id, id ≠ jobId →
          w'.jobs.find? id = (afterStatusCalls out w calls).jobs.find? id := by
  refine ⟨fun jobId row hrow => ?_, fun call hcall => ⟨fun e w' hrun => ?_, fun own w' hrun => ?_⟩⟩
  · obtain ⟨hcompleted, hstarted⟩ := (timesFit_after hw hcalls jobId).1 row hrow
    exact ⟨hcompleted, hstarted⟩
  · have hends := statusCall_ends out hcall (afterStatusCalls out w calls)
    rw [hrun] at hends
    cases hends with
    | raised hsame => exact hsame
  · have hends := statusCall_ends out hcall (afterStatusCalls out w calls)
    rw [hrun] at hends
    cases hends with
    | @written jobId row _ hfind _ => exact ⟨jobId, rfl, fun id hid => by rw [hfind, if_neg hid]⟩

/-- A job that is given up at once. -/
def givenUp : List StatusCall :=
  [.create "alice@uni.ac.uk" 12 "<1@uni.ac.uk>" "assess_query" [],
    .setStatus "DIAR-2026-0811-0001" .failed [.error (some "No such group")]]

theorem times_fit_failed : ((afterStatusCalls .plain {} givenUp).jobs.find? "DIAR-2026-0811-0001").any
    (·.completedAt.isSome) = true := by
  have huntimed : ∀ call ∈ givenUp, Untimed call.fields := by
    simp [givenUp, Untimed, StatusCall.fields, JobField.isStartedAt, JobField.isCompletedAt]
  have hstatus : ((afterStatusCalls .plain {} givenUp).jobs.find? "DIAR-2026-0811-0001").map Job.status =
      some .failed := by decide +kernel
  obtain ⟨row, hrow, hfailed⟩ := Option.map_eq_some_iff.1 hstatus
  have hfit := ((times_fit .plain (w := {}) rfl huntimed).1 _ row hrow).1
  rw [hrow]
  exact hfit.2 (.inr (.inl hfailed))

end GroupAssessmentAgent
