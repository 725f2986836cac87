import GroupAssessmentAgent.Jobs.Rows
import GroupAssessmentAgent.Lib.Refinement

/-!
# The job store on SQLite's rows

`RowStore` is `JobStore`, method by method, with the statements of `JobRows`. `jobs_stored`: however many threads call the
methods at once, and whatever steps of theirs raise, the model is in lockstep: by the same calls and the same steps in the
same order it comes to the jobs whose rows these are, and each call ends as it does there.
-/

namespace GroupAssessmentAgent
open Prog

/-! ### The methods -/

/-- The world with the rows of `jobs`. The jobs of `rest` are not looked at. -/
structure RowWorld where
  jobRows : List JobRow := []
  rest : World := {}

namespace RowStore

abbrev RowM := Prog Stmt RowWorld Exc

def utcnow (out : Outside) : RowM Instant :=
  Prog.atomic .clock fun d => (.ok (d.rest.now out), { d with rest := d.rest.tick })

def get (jobId : Text) : RowM (Option JobRecord) := observe .selectJobs fun d => JobRows.get d.jobRows jobId

def insertJob (pre : Text) (attempt : Nat) (values : Text → List (JobColumn × Cell)) (sourceMessageId : Text) :
    RowM Text :=
  atomic (.insertJob sourceMessageId) fun d =>
    let inserted := JobRows.insert d.jobRows pre attempt values
    (inserted.1, { d with jobRows := inserted.2 })

section
variable (out : Outside) (senderEmail : Text) (backendUserId : Nat) (sourceMessageId operation : Text)
  (initialFields : List JobField) (pre : Text)

def createJobFrom : Nat → Nat → RowM (Option JobRecord)
  | 0, _ => throw ⟨.jobIdAllocationError,
      cat ["Could not allocate a unique job id with prefix ", pre, " after 10 attempts"]⟩
  | rounds + 1, attempt => do
    let createdAt ← utcnow out
    tryCatch (do
        let values := JobRows.created senderEmail backendUserId sourceMessageId operation initialFields createdAt
        let jobId ← insertJob pre attempt values sourceMessageId
        get jobId)
      fun e => if e.kind = .integrityError then createJobFrom rounds (attempt + 1) else throw e

def createJob : RowM (Option JobRecord) := do
  let now ← utcnow out
  createJobFrom out senderEmail backendUserId sourceMessageId operation initialFields
    (JobStore.jobIdPrefix now.date) 10 0

end

def update (jobId : Text) (fields : List JobField) : RowM Unit :=
  if fields = [] then pure ()
  else change (.updateJob jobId) fun d =>
    { d with jobRows := JobRows.update d.jobRows jobId (fields.map JobField.encode) }

def stamp (out : Outside) (wanted : Prop) [Decidable wanted] (column : Option Instant → JobField) :
    RowM (List JobField) :=
  if wanted then do
    let now ← utcnow out
    return [column (some now)]
  else
    return []

def setStatus (out : Outside) (jobId : Text) (newStatus : JobState) (extra : List JobField) : RowM Unit := do
  let row ← observe .selectJobs fun d => JobRows.getStatus d.jobRows jobId
  match row with
  | none => throw ⟨.invalidTransition, cat ["Job ", jobId, " does not exist"]⟩
  | some none => throw ⟨.valueError, "not a valid JobState"⟩
  | some (some current) =>
    if newStatus ∉ current.allowedTransitions ∧ newStatus ≠ current then
      throw ⟨.invalidTransition, cat ["Cannot move job ", jobId, " from ", current.str, " to ", newStatus.str]⟩
    else
      let started ← stamp out (newStatus = .processing ∧ extra.all (!·.isStartedAt)) .startedAt
      let completed ← stamp out (newStatus.Terminal ∧ extra.all (!·.isCompletedAt)) .completedAt
      let values := (.status, .text newStatus.value) :: (extra ++ started ++ completed).map JobField.encode
      change (.updateStatus jobId current newStatus) fun d =>
        { d with jobRows := JobRows.update d.jobRows jobId values }

end RowStore

/-- A call of a method of `JobStore`. -/
inductive StoreCall where
  | create (senderEmail : Text) (backendUserId : Nat) (sourceMessageId operation : Text) (initialFields : List JobField)
  | get (jobId : Text)
  | getOwned (jobId senderEmail : Text)
  | update (jobId : Text) (fields : List JobField)
  | setStatus (jobId : Text) (newStatus : JobState) (extra : List JobField)
  | getByLastResponse (messageId senderEmail : Text)
  | getByResponse (messageId senderEmail : Text)
  | listQueued

namespace StoreCall
variable [PyChars] (out : Outside)

/-- The call in the model, with the jobs that it returns. -/
def prog : StoreCall → M (List Job)
  | create senderEmail backendUserId sourceMessageId operation initialFields => do
    let job ← JobStore.createJob out senderEmail backendUserId sourceMessageId operation initialFields
    return job.toList
  | get jobId => do
    let job ← JobStore.get jobId
    return job.toList
  | getOwned jobId senderEmail => do
    let job ← JobStore.getOwned jobId senderEmail
    return job.toList
  | update jobId fields => do
    JobStore.update jobId fields
    return []
  | setStatus jobId newStatus extra => do
    JobStore.setStatus out jobId newStatus extra
    return []
  | getByLastResponse messageId senderEmail => do
    let job ← observe .selectJobs fun w => JobStore.findByLastResponse w messageId senderEmail
    return job.toList
  | getByResponse messageId senderEmail => do
    let job ← observe .selectJobs fun w => JobStore.findByResponse w messageId senderEmail
    return job.toList
  | listQueued => JobStore.listQueued

/-- The call on the rows. -/
def onRows : StoreCall → RowStore.RowM (List JobRecord)
  | create senderEmail backendUserId sourceMessageId operation initialFields => do
    let job ← RowStore.createJob out senderEmail backendUserId sourceMessageId operation initialFields
    return job.toList
  | get jobId => do
    let job ← RowStore.get jobId
    return job.toList
  | getOwned jobId senderEmail => do
    let job ← observe .selectJobs fun d => JobRows.getOwned d.jobRows jobId senderEmail
    return job.toList
  | update jobId fields => do
    RowStore.update jobId fields
    return []
  | setStatus jobId newStatus extra => do
    RowStore.setStatus out jobId newStatus extra
    return []
  | getByLastResponse messageId senderEmail => do
    let job ← observe .selectJobs fun d => JobRows.getByLastResponse d.jobRows messageId senderEmail
    return job.toList
  | getByResponse messageId senderEmail => do
    let job ← observe .selectJobs fun d => JobRows.getByResponse d.rest.messageLinks.rows d.jobRows messageId senderEmail
    return job.toList
  | listQueued => observe .selectJobs fun d => JobRows.listQueued d.jobRows

end StoreCall

/-! ### The refinement -/

/-- The rows are those of the jobs of the model, all of them created before the year 10000, and the rest is the same. -/
structure HoldsJobs (w : World) (d : RowWorld) : Prop where
  stored : Stored d.jobRows w.jobs.rows
  rest : w = { d.rest with jobs := w.jobs }
  years : ∀ j ∈ w.jobs.rows, j.createdAt.date.year ≤ 9999

namespace HoldsJobs
variable {w w' : World} {d : RowWorld}

theorem jobs (h : HoldsJobs w d) {t : Table Job.jobId} {rows : List JobRow} (hstored : Stored rows t.rows)
    (hyears : ∀ j ∈ t.rows, j.createdAt.date.year ≤ 9999) :
    HoldsJobs { w with jobs := t } { d with jobRows := rows } where
  stored := hstored
  rest := by
    rw [h.rest]
  years := hyears

theorem tick (h : HoldsJobs w d) : HoldsJobs w.tick { d with rest := d.rest.tick } where
  stored := h.stored
  rest := by
    rw [World.tick, h.rest]
    rfl
  years := h.years

theorem now (h : HoldsJobs w d) (out : Outside) : w.now out = d.rest.now out := by
  rw [World.now, h.rest]
  rfl

end HoldsJobs

/-- Results of the two stores: the same jobs, and what `Job.from_row` gives for them. -/
def JobsRead (job : Option Job) (record : Option JobRecord) : Prop := record = job.map Job.record

/-- Readings of the clock before the year 10000. -/
def ReadAlike (a b : Instant) : Prop := a = b ∧ a.date.year ≤ 9999

theorem createdAt_setAll (j : Job) (fields : List JobField) : (j.setAll fields).createdAt = j.createdAt :=
  Job.setAll_keeps (fun v _ j => by cases v <;> rfl) j

theorem get_onRows (jobId : Text) : Implements HoldsJobs JobsRead (JobStore.get jobId) (RowStore.get jobId) :=
  implements_observe fun _ _ h => h.stored.get jobId

theorem insertJob_onRows (pre : Text) (attempt : Nat) (sourceMessageId : Text) {row : Text → Job}
    {values : Text → List (JobColumn × Cell)}
    (hvalues : ∀ jobId, (JobRow.assign JobColumn.default (values jobId)).filled = (row jobId).row)
    (hyear : ∀ jobId, (row jobId).createdAt.date.year ≤ 9999) :
    Implements HoldsJobs Eq (JobStore.insertJob pre attempt row sourceMessageId)
      (RowStore.insertJob pre attempt values sourceMessageId) := by
  refine implements_atomic fun w d h => ?_
  obtain ⟨jobId, hjobId⟩ :
      ∃ id, JobStore.jobIdOf pre ((w.jobs.rows.filter fun j => likePrefix pre j.jobId).length + 1 + attempt) = id :=
    ⟨_, rfl⟩
  obtain ⟨hadded, htaken⟩ := h.stored.insert pre attempt hvalues hjobId
  simp only [hjobId]
  cases hnew : w.jobs.insert? (row jobId) with
  | none =>
    rw [htaken hnew]
    exact ⟨.error, h⟩
  | some jobs =>
    obtain ⟨hresult, hstored⟩ := hadded jobs hnew
    rw [hresult]
    refine ⟨.ok rfl, h.jobs hstored fun j hj => ?_⟩
    rw [Table.insert?_rows hnew] at hj
    rcases List.mem_append.1 hj with hj | hj
    · exact h.years j hj
    · rw [List.mem_singleton.1 hj]
      exact hyear jobId

theorem HoldsJobs.modify {w : World} {d : RowWorld} (h : HoldsJobs w d) (jobId : Text)
    {values : List (JobColumn × Cell)} (hvalues : Filled values) {f : Job → Job} (hid : ∀ j, (f j).jobId = j.jobId)
    (hassign : ∀ j : Job, JobRow.assign j.row values = (f j).row) (hcreated : ∀ j, (f j).createdAt = j.createdAt) :
    HoldsJobs (w.modifyJob jobId f hid) { d with jobRows := JobRows.update d.jobRows jobId values } := by
  refine h.jobs (h.stored.update jobId hvalues hassign) fun j hj => ?_
  obtain ⟨j, hmem, rfl⟩ := List.mem_map.1 hj
  split_ifs
  · rw [hcreated]
    exact h.years j hmem
  · exact h.years j hmem

theorem update_onRows (jobId : Text) (fields : List JobField) :
    Implements HoldsJobs (fun _ _ => True) (JobStore.update jobId fields) (RowStore.update jobId fields) := by
  unfold JobStore.update RowStore.update
  by_cases hfields : fields = []
  · rw [if_pos hfields, if_pos hfields]
    exact .ret trivial
  · rw [if_neg hfields, if_neg hfields]
    exact implements_change trivial fun w d h => h.modify jobId (filled_encode fields) _
      (fun j => row_setAll j fields) fun j => createdAt_setAll j fields

theorem assign_status (j : Job) (s : JobState) (fields : List JobField) :
    JobRow.assign j.row ((.status, .text s.value) :: fields.map JobField.encode) =
      ({ j with status := s }.setAll fields).row := by
  have hstatus : Function.update j.row .status (.text s.value) = ({ j with status := s } : Job).row := by
    funext column
    by_cases h : column = .status
    · subst h
      rw [Function.update_self]
      rfl
    · rw [Function.update_of_ne h]
      cases column <;> first | rfl | exact absurd rfl h
  rw [← row_setAll, ← hstatus]
  rfl

section
variable {out : Outside} (hclock : ∀ n, (out.clock n).date.year ≤ 9999)
include hclock

theorem utcnow_onRows : Implements HoldsJobs ReadAlike (utcnow out) (RowStore.utcnow out) :=
  implements_atomic fun w _ h => ⟨.ok ⟨h.now out, hclock w.ticks⟩, h.tick⟩

theorem createJobFrom_onRows (senderEmail : Text) (backendUserId : Nat) (sourceMessageId operation : Text)
    (initialFields : List JobField) (pre : Text) (rounds attempt : Nat) :
    Implements HoldsJobs JobsRead
      (JobStore.createJobFrom out senderEmail backendUserId sourceMessageId operation initialFields pre rounds attempt)
      (RowStore.createJobFrom out senderEmail backendUserId sourceMessageId operation initialFields pre rounds
        attempt) := by
  induction rounds generalizing attempt with
  | zero => exact .raise
  | succ rounds ih =>
    refine (utcnow_onRows hclock).bind fun createdAt createdAt' h => ?_
    obtain ⟨rfl, hyear⟩ := h
    refine Implements.tryCatch ?_ fun e => ?_
    · refine (insertJob_onRows pre attempt sourceMessageId
        (assign_created senderEmail backendUserId sourceMessageId operation initialFields createdAt) fun jobId => ?_).bind
          fun jobId jobId' h => ?_
      · rw [JobStore.received, createdAt_setAll]
        exact hyear
      · subst h
        exact get_onRows jobId
    · by_cases he : e.kind = .integrityError
      · rw [if_pos he, if_pos he]
        exact ih (attempt + 1)
      · rw [if_neg he, if_neg he]
        exact .raise

theorem createJob_onRows (senderEmail : Text) (backendUserId : Nat) (sourceMessageId operation : Text)
    (initialFields : List JobField) :
    Implements HoldsJobs JobsRead
      (JobStore.createJob out senderEmail backendUserId sourceMessageId operation initialFields)
      (RowStore.createJob out senderEmail backendUserId sourceMessageId operation initialFields) := by
  refine (utcnow_onRows hclock).bind fun now now' h => ?_
  obtain ⟨rfl, -⟩ := h
  exact createJobFrom_onRows hclock senderEmail backendUserId sourceMessageId operation initialFields _ 10 0

theorem stamp_onRows (wanted : Prop) [Decidable wanted] (column : Option Instant → JobField) :
    Implements HoldsJobs Eq (JobStore.stamp out wanted column) (RowStore.stamp out wanted column) := by
  unfold JobStore.stamp RowStore.stamp
  split_ifs
  · refine (utcnow_onRows hclock).bind fun now now' h => ?_
    obtain ⟨rfl, -⟩ := h
    exact .ret rfl
  · exact .ret rfl

theorem setStatus_onRows (jobId : Text) (newStatus : JobState) (extra : List JobField) :
    Implements HoldsJobs (fun _ _ => True) (JobStore.setStatus out jobId newStatus extra)
      (RowStore.setStatus out jobId newStatus extra) := by
  refine (implements_observe (V := fun row row' => row' = row.map some) fun w d h => ?_).bind fun row row' h => ?_
  · rw [h.stored.getStatus, Option.map_map]
    rfl
  · subst h
    cases row with
    | none => exact .raise
    | some current =>
      show Implements HoldsJobs _ (ite _ _ _) (ite _ _ _)
      by_cases hbad : newStatus ∉ current.allowedTransitions ∧ newStatus ≠ current
      · rw [if_pos hbad, if_pos hbad]
        exact .raise
      · rw [if_neg hbad, if_neg hbad]
        refine (stamp_onRows hclock _ _).bind fun started started' h => ?_
        subst h
        refine (stamp_onRows hclock _ _).bind fun completed completed' h => ?_
        subst h
        refine implements_change trivial fun w d h => ?_
        have hvalues : Filled ((JobColumn.status, Cell.text newStatus.value) ::
            (extra ++ started ++ completed).map JobField.encode) :=
          List.forall_mem_cons.2 ⟨fun h => absurd h Bool.false_ne_true, filled_encode _⟩
        exact h.modify jobId hvalues _ (fun j => assign_status j newStatus _) fun j => createdAt_setAll _ _

/-- **A method on the rows does what the method of the model does.** -/
theorem storeCall_onRows [PyChars] (call : StoreCall) :
    Implements HoldsJobs (fun jobs records => records = jobs.map Job.record) (call.prog out) (call.onRows out) := by
  have hread : ∀ (job : Option Job) (record : Option JobRecord), JobsRead job record →
      record.toList = job.toList.map Job.record := fun job record h => by
    rw [h]
    cases job <;> rfl
  cases call with
  | create senderEmail backendUserId sourceMessageId operation initialFields =>
    exact (createJob_onRows hclock senderEmail backendUserId sourceMessageId operation initialFields).bind
      fun job record h => .ret (hread job record h)
  | get jobId => exact (get_onRows jobId).bind fun job record h => .ret (hread job record h)
  | getOwned jobId senderEmail =>
    exact (implements_observe fun w d h => h.stored.getOwned jobId senderEmail).bind
      fun job record h => .ret (hread job record h)
  | update jobId fields => exact (update_onRows jobId fields).bind fun _ _ _ => .ret rfl
  | setStatus jobId newStatus extra => exact (setStatus_onRows hclock jobId newStatus extra).bind fun _ _ _ => .ret rfl
  | getByLastResponse messageId senderEmail =>
    exact (implements_observe fun w d h => h.stored.getByLastResponse h.years messageId senderEmail).bind
      fun job record h => .ret (hread job record h)
  | getByResponse messageId senderEmail =>
    refine (implements_observe (V := JobsRead) fun w d h => ?_).bind fun job record h => .ret (hread job record h)
    have hlinks : w.messageLinks = d.rest.messageLinks := by
      rw [h.rest]
    have hfound := h.stored.getByResponse d.rest.messageLinks.rows messageId senderEmail
    rw [← hlinks] at hfound ⊢
    exact hfound
  | listQueued => exact implements_observe fun w d h => h.stored.listQueued h.years

end

/-! ### Runs -/

section
variable [PyChars] (out : Outside)

/-- The methods on the jobs of the model. What else is done to the database leaves the jobs alone. -/
def jobInterface : Interface StoreCall World Stmt World Exc (List Job) where
  prog := StoreCall.prog out
  around rest w := { rest with jobs := w.jobs }

/-- The methods on rows. What else is done to the database leaves the rows of `jobs` alone. -/
def rowInterface : Interface StoreCall World Stmt RowWorld Exc (List JobRecord) where
  prog := StoreCall.onRows out
  around rest d := { d with rest }

variable {ι : Type} [DecidableEq ι] (schedule : List (Move ι StoreCall World Exc))

/-- The run of the model that a schedule gives, from an empty table. -/
def jobsAfter : (ι → M (List Job)) × World := (jobInterface out).replay (fun _ => pure [], {}) schedule

/-- The run on rows by the same schedule. -/
def rowsAfter : (ι → RowStore.RowM (List JobRecord)) × RowWorld :=
  (rowInterface out).replay (fun _ => pure [], {}) schedule

end

theorem ended_map {α β : Type} {f : α → β} {x : Option (Except Exc α)} {y : Option (Except Exc β)}
    (h : Option.Rel (Outcomes fun a b => b = f a) x y) : y = x.map (Except.map f) := by
  cases h with
  | none => rfl
  | some h =>
    cases h with
    | ok h =>
      rw [h]
      rfl
    | error => rfl

/-- **The database holds the jobs.** Whatever the threads call, in whatever order their steps follow each other and
whichever of them raise: at the end of the schedule, and so at each point of it, the rows are those of the jobs that the
model has come to by the same schedule, each thread has the same statement before it as there, and each call that has
ended has ended with the same exception, or with the jobs that `Job.from_row` read. -/
theorem jobs_stored [PyChars] {out : Outside} (hclock : ∀ n, (out.clock n).date.year ≤ 9999) {ι : Type} [DecidableEq ι]
    (schedule : List (Move ι StoreCall World Exc)) :
    (rowsAfter out schedule).2.jobRows.map JobRow.filled = (jobsAfter out schedule).2.jobs.rows.map Job.row ∧
      (rowsAfter out schedule).2.jobRows.map fromRow = (jobsAfter out schedule).2.jobs.rows.map Job.record ∧
      ∀ i, ((rowsAfter out schedule).1 i).label? = ((jobsAfter out schedule).1 i).label? ∧
        ((rowsAfter out schedule).1 i).ended? =
          ((jobsAfter out schedule).1 i).ended?.map (Except.map (List.map Job.record)) := by
  have himplements : (jobInterface out).Implements HoldsJobs (fun jobs records => records = jobs.map Job.record)
      (rowInterface out) :=
    { prog := storeCall_onRows hclock
      around := fun rest w d h => ⟨h.stored, rfl, h.years⟩ }
  have hstart : Interface.Lockstep HoldsJobs (fun jobs records => records = jobs.map Job.record)
      ((fun _ => pure [], {}) : (ι → M (List Job)) × World) (fun _ => pure [], {}) :=
    ⟨fun _ => .ret rfl, rfl, rfl, fun _ hj => absurd hj List.not_mem_nil⟩
  obtain ⟨hthreads, hholds⟩ := himplements.lockstep schedule hstart
  refine ⟨hholds.stored, ?_, fun i => ⟨(hthreads i).alike.1, ended_map (hthreads i).alike.2⟩⟩
  have hrow : fromRow ∘ JobRow.filled = fromRow := funext fromRow_filled
  have hjob : fromRow ∘ Job.row = Job.record := funext fromRow_row
  have hstored : (rowsAfter out schedule).2.jobRows.map JobRow.filled =
    (jobsAfter out schedule).2.jobs.rows.map Job.row := hholds.stored
  rw [← hrow, ← List.map_map, hstored, List.map_map, hjob]

section
attribute [local instance] asciiChars

def stillTime : Instant := 1786406400000000

/-- An outside whose clock stands still. -/
def stillOutside : Outside := { Outside.plain with clock := fun _ => stillTime }

def oneCreate : StoreCall := .create "alice@uni.ac.uk" 12 "<m1@uni.ac.uk>" "submit_transcript"
  [.speakers ["Ann", "Bo"]]

/-- A thread creates the job, and another one lists the queue in between. -/
def twoCalls : List (Move Bool StoreCall World Exc) :=
  [.call true oneCreate, .step true none, .call false .listQueued, .step true none, .step true none, .step false none,
   .step true none]

theorem jobs_stored_one : (rowsAfter stillOutside twoCalls).2.jobRows.map fromRow =
    (jobsAfter stillOutside twoCalls).2.jobs.rows.map Job.record ∧
      (jobsAfter stillOutside twoCalls).2.jobs.rows.length = 1 := by
  have hyear : stillTime.date.year ≤ 9999 := by decide
  have hclock : ∀ n, (stillOutside.clock n).date.year ≤ 9999 := fun _ => hyear
  exact ⟨(jobs_stored hclock twoCalls).2.1, by decide⟩

example : (rowsAfter stillOutside twoCalls).2.jobRows.map (fun r => (r .jobId, r .speakersJson, r .groupHint)) =
    [(.text "DIAR-2026-0811-0001", .text "[\"Ann\", \"Bo\"]", .null)] := by decide

end

end GroupAssessmentAgent
