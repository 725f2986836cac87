import GroupAssessmentAgent.Jobs.Columns
import GroupAssessmentAgent.Jobs.CreationOrder

/-!
# The statements on the rows of jobs

The SQL statements of `JobStore` on rows of cells, with the constraints of the table, texts compared as texts, and every
job that is read made by `Job.from_row`. On rows that hold the jobs of the model (`Stored`), each of them finds what the
model finds, and leaves rows that hold the jobs that the model then has.
-/

namespace GroupAssessmentAgent

/-! ### Statements -/

/-- What `Job.from_row` gives: the attribute of each column, or nothing where it cannot be read. -/
abbrev JobRecord := JobColumn → Option Value

def Job.record (j : Job) : JobRecord := fun column => some (j.value column)

namespace JobRows

/-- `SELECT * FROM jobs WHERE job_id = ?`. -/
def select (rows : List JobRow) (jobId : Text) : Option JobRow := rows.find? fun r => r .jobId = .text jobId

/-- `job_id LIKE pre%`. -/
def isOfDay (pre : Text) (r : JobRow) : Bool :=
  match r .jobId with
  | .text s => likePrefix pre s
  | _ => false

/-- The columns of a new row. -/
def created (senderEmail : Text) (backendUserId : Nat) (sourceMessageId operation : Text) (initialFields : List JobField)
    (createdAt : Instant) (jobId : Text) : List (JobColumn × Cell) :=
  [(.jobId, .text jobId), (.senderEmail, .text senderEmail), (.backendUserId, .int backendUserId),
    (.sourceMessageId, .text sourceMessageId), (.operation, .text operation), (.status, .text JobState.received.value),
    (.createdAt, .text createdAt.isoformat)] ++ initialFields.map JobField.encode

/-- The INSERT of `create_job`, with the constraints of the table. -/
def insert (rows : List JobRow) (pre : Text) (attempt : Nat) (values : Text → List (JobColumn × Cell)) :
    Except Exc Text × List JobRow :=
  let n := (rows.filter (isOfDay pre)).length
  let jobId := JobStore.jobIdOf pre (n + 1 + attempt)
  let row := JobRow.assign JobColumn.default (values jobId)
  match JobColumn.required.find? fun c => row c.1 = .null with
  | some c => (.error ⟨.integrityError, cat ["NOT NULL constraint failed: jobs.", c.2]⟩, rows)
  | none =>
    if ∃ r ∈ rows, r .jobId = row .jobId then
      (.error ⟨.integrityError, "UNIQUE constraint failed: jobs.job_id"⟩, rows)
    else (.ok jobId, rows ++ [row])

/-- `UPDATE jobs SET ... WHERE job_id = ?`. -/
def update (rows : List JobRow) (jobId : Text) (values : List (JobColumn × Cell)) : List JobRow :=
  rows.map fun r => if r .jobId = .text jobId then JobRow.assign r values else r

def get (rows : List JobRow) (jobId : Text) : Option JobRecord := (select rows jobId).map fromRow

/-- `get_owned`. -/
def getOwned [PyChars] (rows : List JobRow) (jobId senderEmail : Text) : Option JobRecord :=
  (get rows jobId).filter fun job =>
    match job .senderEmail with
    | some (.text s) => lower s = lower senderEmail
    | _ => false

/-- `JobState(row["status"])`, of the SELECT of `set_status`. -/
def getStatus (rows : List JobRow) (jobId : Text) : Option (Option JobState) :=
  (select rows jobId).map fun r => (r .status).readStatus

/-- The order of the texts of a column; a cell with no text is before them. -/
def lt : Cell → Cell → Prop
  | .text s, .text t => s < t
  | _, .text _ => True
  | _, _ => False

instance : (a b : Cell) → Decidable (lt a b)
  | .text s, .text t => inferInstanceAs (Decidable (s < t))
  | .null, .text _ => .isTrue trivial
  | .int _, .text _ => .isTrue trivial
  | .null, .null | .null, .int _ | .int _, .null | .int _, .int _ | .text _, .null | .text _, .int _ => .isFalse id

/-- `get_by_last_response_message_id`. -/
def getByLastResponse (rows : List JobRow) (messageId senderEmail : Text) : Option JobRecord :=
  let found := rows.filter fun r => r .lastResponseMessageId = .text messageId ∧ r .senderEmail = .text senderEmail
  (found.insertionSort fun a b => ¬ lt (a .createdAt) (b .createdAt)).head?.map fromRow

/-- `LOWER` of a cell. -/
def lowerCell : Cell → Cell
  | .text s => .text (sqlLower s)
  | c => c

/-- `get_by_response_message_id`. -/
def getByResponse (links : List MessageLink) (rows : List JobRow) (messageId senderEmail : Text) : Option JobRecord :=
  let joined := links.flatMap fun l =>
    (rows.filter fun r => l.jobId.map Cell.text = some (r .jobId)).map fun r => (l, r)
  let found := joined.filter fun p =>
    p.1.messageId = messageId ∧ lowerCell (p.2 .senderEmail) = lowerCell (.text senderEmail)
  (latest (fun p => p.1.createdAt) found).map fun p => fromRow p.2

/-- `list_queued`. -/
def listQueued (rows : List JobRow) : List JobRecord :=
  let found := rows.filter fun r => r .status = .text JobState.queued.value
  (found.insertionSort fun a b => ¬ lt (b .createdAt) (a .createdAt)).map fromRow

end JobRows

/-! ### Lists with one image -/

section
variable {α β γ δ : Type} {f : α → γ} {g : β → γ} {l : List α} {l' : List β}

theorem map_filter_eq (h : l.map f = l'.map g) {p : α → Bool} {q : β → Bool} (r : γ → Bool) (hp : ∀ a, r (f a) = p a)
    (hq : ∀ b, r (g b) = q b) : (l.filter p).map f = (l'.filter q).map g := by
  obtain rfl : (fun a => r (f a)) = p := funext hp
  obtain rfl : (fun b => r (g b)) = q := funext hq
  have hl : (l.map f).filter r = (l.filter fun a => r (f a)).map f := List.filter_map
  have hl' : (l'.map g).filter r = (l'.filter fun b => r (g b)).map g := List.filter_map
  rw [← hl, h, hl']

theorem map_find?_eq (h : l.map f = l'.map g) {p : α → Bool} {q : β → Bool} (r : γ → Bool) (hp : ∀ a, r (f a) = p a)
    (hq : ∀ b, r (g b) = q b) : (l.find? p).map f = (l'.find? q).map g := by
  obtain rfl : (fun a => r (f a)) = p := funext hp
  obtain rfl : (fun b => r (g b)) = q := funext hq
  have hl : (l.map f).find? r = (l.find? fun a => r (f a)).map f := List.find?_map
  have hl' : (l'.map g).find? r = (l'.find? fun b => r (g b)).map g := List.find?_map
  rw [← hl, h, hl']

theorem map_head?_eq (h : l.map f = l'.map g) : l.head?.map f = l'.head?.map g := by
  rw [← List.head?_map, h, List.head?_map]

theorem map_insertionSort_eq (h : l.map f = l'.map g) (r : α → α → Prop) (r' : β → β → Prop) (s : γ → γ → Prop)
    [DecidableRel r] [DecidableRel r'] [DecidableRel s] (hr : ∀ a ∈ l, ∀ b ∈ l, r a b ↔ s (f a) (f b))
    (hr' : ∀ a ∈ l', ∀ b ∈ l', r' a b ↔ s (g a) (g b)) : (l.insertionSort r).map f = (l'.insertionSort r').map g := by
  rw [List.map_insertionSort r s f l hr, List.map_insertionSort r' s g l' hr', h]

end

/-! ### Statements on the rows of jobs -/

/-- The rows hold the jobs. -/
def Stored (rows : List JobRow) (jobs : List Job) : Prop := rows.map JobRow.filled = jobs.map Job.row

theorem row_jobId (j : Job) (jobId : Text) : j.row .jobId = .text jobId ↔ j.jobId = jobId :=
  ⟨fun h => Cell.text.inj h, fun h => congrArg Cell.text h⟩

theorem assign_created (senderEmail : Text) (backendUserId : Nat) (sourceMessageId operation : Text)
    (initialFields : List JobField) (createdAt : Instant) (jobId : Text) :
    (JobRow.assign JobColumn.default
        (JobRows.created senderEmail backendUserId sourceMessageId operation initialFields createdAt jobId)).filled =
      (JobStore.received senderEmail backendUserId sourceMessageId operation initialFields createdAt jobId).row := by
  have hnew : (JobRow.assign JobColumn.default
      (JobRows.created senderEmail backendUserId sourceMessageId operation [] createdAt jobId)).filled =
        Job.row { jobId, senderEmail, backendUserId, sourceMessageId, operation, status := .received, createdAt } := by
    funext column
    cases column <;> rfl
  have hparts : JobRow.assign JobColumn.default
      (JobRows.created senderEmail backendUserId sourceMessageId operation initialFields createdAt jobId) =
        JobRow.assign (JobRow.assign JobColumn.default
          (JobRows.created senderEmail backendUserId sourceMessageId operation [] createdAt jobId))
          (initialFields.map JobField.encode) := by
    rw [JobRows.created, JobRow.assign, List.foldl_append]
    rfl
  rw [hparts, filled_assign (filled_encode _), hnew, row_setAll, JobStore.received]

theorem required_row (j : Job) : JobColumn.required.find? (fun c => j.row c.1 = .null) = none := by
  have hcolumns : ∀ c ∈ JobColumn.required, c.1 = .senderEmail ∨ c.1 = .backendUserId ∨ c.1 = .sourceMessageId ∨
      c.1 = .operation ∨ c.1 = .status ∨ c.1 = .retryCount ∨ c.1 = .createdAt := by
    decide
  refine List.find?_eq_none.2 fun c hc hnull => ?_
  have hempty : j.row c.1 = .null := of_decide_eq_true hnull
  rcases hcolumns c hc with h | h | h | h | h | h | h <;> rw [h] at hempty <;> cases hempty

theorem lt_created {a b : Job} (ha : a.createdAt.date.year ≤ 9999) (hb : b.createdAt.date.year ≤ 9999) :
    JobRows.lt (a.row .createdAt) (b.row .createdAt) ↔ a.createdAt < b.createdAt := by
  refine ⟨fun h => ?_, fun h => Instant.isoformat_lt h ha hb⟩
  by_contra hlt
  have htexts : a.createdAt.isoformat < b.createdAt.isoformat := h
  rcases Nat.lt_or_eq_of_le (Nat.le_of_not_lt hlt) with hba | heq
  · exact List.lt_asymm htexts (Instant.isoformat_lt hba hb ha)
  · rw [heq] at htexts
    exact List.lt_irrefl _ htexts

namespace Stored
variable {rows : List JobRow} {jobs : List Job}

theorem filter (h : Stored rows jobs) {p : JobRow → Bool} {q : Job → Bool} (hp : ∀ r, p r.filled = p r)
    (hq : ∀ j : Job, p j.row = q j) : Stored (rows.filter p) (jobs.filter q) := map_filter_eq h p hp hq

theorem find? (h : Stored rows jobs) {p : JobRow → Bool} {q : Job → Bool} (hp : ∀ r, p r.filled = p r)
    (hq : ∀ j : Job, p j.row = q j) : (rows.find? p).map JobRow.filled = (jobs.find? q).map Job.row :=
  map_find?_eq h p hp hq

theorem fromRow_eq {row : Option JobRow} {job : Option Job} (h : row.map JobRow.filled = job.map Job.row) :
    row.map fromRow = job.map Job.record := by
  have hrow : fromRow ∘ JobRow.filled = fromRow := funext fromRow_filled
  have hjob : fromRow ∘ Job.row = Job.record := funext fromRow_row
  rw [← hrow, ← Option.map_map, h, Option.map_map, hjob]

theorem select (h : Stored rows jobs) (jobId : Text) :
    (JobRows.select rows jobId).map JobRow.filled = (jobs.find? fun j => j.jobId = jobId).map Job.row :=
  h.find? (fun r => by rw [r.filled_of_not_json rfl]) fun j => decide_eq_decide.2 (row_jobId j jobId)

theorem get (h : Stored rows jobs) (jobId : Text) :
    JobRows.get rows jobId = (jobs.find? fun j => j.jobId = jobId).map Job.record :=
  fromRow_eq (h.select jobId)

theorem update (h : Stored rows jobs) (jobId : Text) {values : List (JobColumn × Cell)} (hvalues : Filled values)
    {f : Job → Job} (hf : ∀ j : Job, JobRow.assign j.row values = (f j).row) :
    Stored (JobRows.update rows jobId values) (jobs.map fun j => if j.jobId = jobId then f j else j) := by
  have hrow : JobRow.filled ∘ (fun r => if r .jobId = .text jobId then JobRow.assign r values else r) =
      (fun r => if r .jobId = .text jobId then JobRow.assign r values else r) ∘ JobRow.filled := by
    funext r
    rw [Function.comp, Function.comp, r.filled_of_not_json rfl, apply_ite JobRow.filled, filled_assign hvalues]
  have hjob : (fun r => if r .jobId = .text jobId then JobRow.assign r values else r) ∘ Job.row =
      Job.row ∘ fun j => if j.jobId = jobId then f j else j := by
    funext j
    rw [Function.comp, Function.comp, apply_ite Job.row, hf]
    by_cases hj : j.jobId = jobId
    · rw [if_pos hj, if_pos ((row_jobId j jobId).2 hj)]
    · rw [if_neg hj, if_neg fun hr => hj ((row_jobId j jobId).1 hr)]
  rw [Stored, JobRows.update, List.map_map, hrow, ← List.map_map, h, List.map_map, hjob, List.map_map]

theorem getOwned [PyChars] (h : Stored rows jobs) (jobId senderEmail : Text) :
    JobRows.getOwned rows jobId senderEmail =
      ((jobs.find? fun j => j.jobId = jobId).filter fun j => lower j.senderEmail = lower senderEmail).map Job.record := by
  rw [JobRows.getOwned, h.get]
  cases jobs.find? fun j => j.jobId = jobId with
  | none => rfl
  | some j =>
    show Option.filter _ (some j.record) = _
    rw [Option.filter_some, Option.filter_some, apply_ite (Option.map Job.record)]
    rfl

theorem getStatus (h : Stored rows jobs) (jobId : Text) :
    JobRows.getStatus rows jobId = (jobs.find? fun j => j.jobId = jobId).map fun j => some j.status := by
  have hrow : (fun r : JobRow => (r .status).readStatus) ∘ JobRow.filled = fun r => (r .status).readStatus := by
    funext r
    rw [Function.comp, r.filled_of_not_json rfl]
  have hjob : (fun r : JobRow => (r .status).readStatus) ∘ Job.row = fun j => some j.status := by
    funext j
    exact readStatus_encode j.status
  rw [JobRows.getStatus, ← hrow, ← Option.map_map, h.select, Option.map_map, hjob]

theorem insert {jobs : Table Job.jobId} (h : Stored rows jobs.rows) (pre : Text) (attempt : Nat)
    {values : Text → List (JobColumn × Cell)} {row : Text → Job}
    (hvalues : ∀ jobId, (JobRow.assign JobColumn.default (values jobId)).filled = (row jobId).row) {jobId : Text}
    (hjobId : JobStore.jobIdOf pre ((jobs.rows.filter fun j => likePrefix pre j.jobId).length + 1 + attempt) = jobId) :
    (∀ jobs', jobs.insert? (row jobId) = some jobs' → (JobRows.insert rows pre attempt values).1 = .ok jobId ∧
        Stored (JobRows.insert rows pre attempt values).2 jobs'.rows) ∧
      (jobs.insert? (row jobId) = none → JobRows.insert rows pre attempt values =
        (.error ⟨.integrityError, "UNIQUE constraint failed: jobs.job_id"⟩, rows)) := by
  have hday : Stored (rows.filter (JobRows.isOfDay pre)) (jobs.rows.filter fun j => likePrefix pre j.jobId) :=
    h.filter (fun r => by rw [JobRows.isOfDay, JobRows.isOfDay, r.filled_of_not_json rfl]) fun _ => rfl
  have hcount : (rows.filter (JobRows.isOfDay pre)).length =
      (jobs.rows.filter fun j => likePrefix pre j.jobId).length := by
    have hlengths := congrArg List.length hday
    rwa [List.length_map, List.length_map] at hlengths
  have hnew : ∀ column, column.isJson = false →
      JobRow.assign JobColumn.default (values jobId) column = (row jobId).row column := fun column hcolumn => by
    rw [← hvalues, JobRow.filled_of_not_json _ hcolumn]
  have hrequired : JobColumn.required.find? (fun c => JobRow.assign JobColumn.default (values jobId) c.1 = .null) =
      none := by
    have hall : ∀ c ∈ JobColumn.required, c.1.isJson = false := by decide
    have hnone := List.find?_eq_none.1 (required_row (row jobId))
    refine List.find?_eq_none.2 fun c hc hnull => hnone c hc ?_
    rwa [← hnew c.1 (hall c hc)]
  have htaken : (∃ r ∈ rows, r .jobId = JobRow.assign JobColumn.default (values jobId) .jobId) ↔
      (row jobId).jobId ∈ jobs.rows.map Job.jobId := by
    have hids : rows.map (fun r => r .jobId) = jobs.rows.map fun j => Cell.text j.jobId := by
      have hfilled : (fun r : JobRow => r .jobId) ∘ JobRow.filled = fun r => r .jobId :=
        funext fun r => r.filled_of_not_json rfl
      rw [← hfilled, ← List.map_map, h, List.map_map]
      rfl
    have hrows : (∃ r ∈ rows, r .jobId = (row jobId).row .jobId) ↔
        Cell.text (row jobId).jobId ∈ rows.map fun r => r .jobId := List.mem_map.symm
    rw [hnew _ rfl, hrows, hids, List.mem_map, List.mem_map]
    exact exists_congr fun j => and_congr_right fun _ => ⟨fun heq => Cell.text.inj heq, fun heq => congrArg _ heq⟩
  have hinsert : JobRows.insert rows pre attempt values =
      if (row jobId).jobId ∈ jobs.rows.map Job.jobId then
        (.error ⟨.integrityError, "UNIQUE constraint failed: jobs.job_id"⟩, rows)
      else (.ok jobId, rows ++ [JobRow.assign JobColumn.default (values jobId)]) := by
    rw [JobRows.insert, hcount, hjobId, hrequired]
    exact if_congr htaken rfl rfl
  rw [hinsert, Table.insert?]
  by_cases hold : (row jobId).jobId ∈ jobs.rows.map Job.jobId
  · rw [dif_pos hold, if_pos hold]
    exact ⟨fun _ hnew => absurd hnew.symm (Option.some_ne_none _), fun _ => rfl⟩
  · rw [dif_neg hold, if_neg hold]
    refine ⟨fun jobs' hnew => ⟨rfl, ?_⟩, fun hnone => absurd hnone (Option.some_ne_none _)⟩
    cases hnew
    show _ = (jobs.rows ++ [row jobId]).map Job.row
    rw [List.map_append, List.map_append, h, List.map_singleton, hvalues, List.map_singleton]

theorem getByLastResponse (h : Stored rows jobs) (hyears : ∀ j ∈ jobs, j.createdAt.date.year ≤ 9999)
    (messageId senderEmail : Text) :
    JobRows.getByLastResponse rows messageId senderEmail = (latest Job.createdAt (jobs.filter fun j =>
      j.lastResponseMessageId = some messageId ∧ j.senderEmail = senderEmail)).map Job.record := by
  have hfound : Stored
      (rows.filter fun r => r .lastResponseMessageId = .text messageId ∧ r .senderEmail = .text senderEmail)
      (jobs.filter fun j => j.lastResponseMessageId = some messageId ∧ j.senderEmail = senderEmail) := by
    refine h.filter (fun r => ?_) fun j => ?_
    · rw [r.filled_of_not_json rfl, r.filled_of_not_json rfl]
    · refine decide_eq_decide.2 (and_congr ?_ ⟨fun heq => Cell.text.inj heq, fun heq => congrArg _ heq⟩)
      show (Value.ofText j.lastResponseMessageId).encode = _ ↔ _
      cases j.lastResponseMessageId with
      | none => exact iff_of_false (fun heq => Cell.noConfusion heq) (Option.some_ne_none _).symm
      | some m => exact ⟨fun heq => congrArg some (Cell.text.inj heq), fun heq => congrArg Cell.text (Option.some.inj heq)⟩
  refine fromRow_eq (map_head?_eq (map_insertionSort_eq hfound _ _
    (fun a b => ¬ JobRows.lt (a .createdAt) (b .createdAt)) (fun a _ b _ => ?_) fun a ha b hb => ?_))
  · rw [a.filled_of_not_json rfl, b.filled_of_not_json rfl]
  · have hyear : ∀ j ∈ jobs.filter fun j => j.lastResponseMessageId = some messageId ∧ j.senderEmail = senderEmail,
        j.createdAt.date.year ≤ 9999 := fun j hj => hyears j (List.mem_of_mem_filter hj)
    rw [lt_created (hyear a ha) (hyear b hb), Nat.not_lt]

theorem listQueued (h : Stored rows jobs) (hyears : ∀ j ∈ jobs, j.createdAt.date.year ≤ 9999) :
    JobRows.listQueued rows = (orderBy Job.createdAt (jobs.filter fun j => j.status = .queued)).map Job.record := by
  have hfound : Stored (rows.filter fun r => r .status = .text JobState.queued.value)
      (jobs.filter fun j => j.status = .queued) := by
    refine h.filter (fun r => by rw [r.filled_of_not_json rfl]) fun j => decide_eq_decide.2 ?_
    exact ⟨fun heq => JobState.value_injective (Cell.text.inj heq), fun heq => by rw [← heq]; rfl⟩
  have hsorted := map_insertionSort_eq hfound (fun a b => ¬ JobRows.lt (b .createdAt) (a .createdAt))
    (fun a b => a.createdAt ≤ b.createdAt) (fun a b => ¬ JobRows.lt (b .createdAt) (a .createdAt))
    (fun a _ b _ => by rw [a.filled_of_not_json rfl, b.filled_of_not_json rfl]) fun a ha b hb => by
      have hyear : ∀ j ∈ jobs.filter fun j => j.status = .queued, j.createdAt.date.year ≤ 9999 := fun j hj =>
        hyears j (List.mem_of_mem_filter hj)
      rw [lt_created (hyear b hb) (hyear a ha), Nat.not_lt]
  have hrow : fromRow ∘ JobRow.filled = fromRow := funext fromRow_filled
  have hjob : fromRow ∘ Job.row = Job.record := funext fromRow_row
  rw [JobRows.listQueued, ← hrow, ← List.map_map, hsorted, List.map_map, hjob]
  rfl

theorem getByResponse (h : Stored rows jobs) (links : List MessageLink) (messageId senderEmail : Text) :
    JobRows.getByResponse links rows messageId senderEmail =
      ((latest (fun r => r.1.createdAt) ((links.flatMap fun l =>
        (jobs.filter fun j => l.jobId = some j.jobId).map fun j => (l, j)).filter fun r =>
          r.1.messageId = messageId ∧ sqlLower r.2.senderEmail = sqlLower senderEmail)).map Prod.snd).map Job.record := by
  have hjoined : ∀ l : MessageLink, Stored (rows.filter fun r => l.jobId.map Cell.text = some (r .jobId))
      (jobs.filter fun j => l.jobId = some j.jobId) := fun l => by
    refine h.filter (fun r => by rw [r.filled_of_not_json rfl]) fun j => decide_eq_decide.2 ?_
    cases l.jobId with
    | none => exact iff_of_false (Option.some_ne_none _).symm (Option.some_ne_none _).symm
    | some id => exact ⟨fun heq => congrArg some (Cell.text.inj (Option.some.inj heq)),
        fun heq => congrArg (Option.map Cell.text) heq⟩
  have hpairs : (links.flatMap fun l => (rows.filter fun r => l.jobId.map Cell.text = some (r .jobId)).map
        fun r => (l, r)).map (Prod.map id JobRow.filled) =
      (links.flatMap fun l => (jobs.filter fun j => l.jobId = some j.jobId).map fun j => (l, j)).map
        (Prod.map id Job.row) := by
    rw [List.map_flatMap, List.map_flatMap]
    congr 1
    funext l
    have hl := congrArg (List.map (Prod.mk l)) (hjoined l)
    rw [List.map_map, List.map_map] at hl
    rw [List.map_map, List.map_map]
    exact hl
  have hfound := map_filter_eq hpairs
    (p := fun p => p.1.messageId = messageId ∧
      JobRows.lowerCell (p.2 .senderEmail) = JobRows.lowerCell (.text senderEmail))
    (q := fun p => p.1.messageId = messageId ∧ sqlLower p.2.senderEmail = sqlLower senderEmail)
    (fun p => p.1.messageId = messageId ∧
      JobRows.lowerCell (p.2 .senderEmail) = JobRows.lowerCell (.text senderEmail))
    (fun p => by rw [Prod.map_fst, Prod.map_snd, p.2.filled_of_not_json rfl]; rfl)
    fun p => decide_eq_decide.2 (and_congr_right fun _ =>
      ⟨fun heq => Cell.text.inj heq, fun heq => congrArg Cell.text heq⟩)
  have hsorted := map_head?_eq (map_insertionSort_eq hfound (fun a b => b.1.createdAt ≤ a.1.createdAt)
    (fun a b => b.1.createdAt ≤ a.1.createdAt) (fun a b => b.1.createdAt ≤ a.1.createdAt) (fun _ _ _ _ => Iff.rfl)
    fun _ _ _ _ => Iff.rfl)
  have hlast := congrArg (Option.map fun p : MessageLink × JobRow => fromRow p.2) hsorted
  have hrow : (fun p : MessageLink × JobRow => fromRow p.2) ∘ Prod.map id JobRow.filled = fun p => fromRow p.2 :=
    funext fun p => fromRow_filled p.2
  have hjob : (fun p : MessageLink × JobRow => fromRow p.2) ∘ Prod.map id Job.row = Job.record ∘ Prod.snd :=
    funext fun p => fromRow_row p.2
  rw [Option.map_map, Option.map_map, hrow, hjob] at hlast
  rw [Option.map_map]
  exact hlast

end Stored

end GroupAssessmentAgent
