import GroupAssessmentAgent.Jobs.Models
import GroupAssessmentAgent.Storage.Json

/-!
# The columns of a job

A row of `jobs` as SQLite has it: a cell for each column, with the lists as JSON, the status by its value and the times as
texts. `JobField.encode` is what `_encode_job_fields` makes of an assignment, and `fromRow` is `Job.from_row`. What is
written is read back (`fromRow_row`), and assigning the cells is assigning the fields (`row_setAll`).
-/

namespace GroupAssessmentAgent

/-! ### Cells -/

/-- What a cell of a row holds. -/
inductive Cell where
  | null
  | int (n : Nat)
  | text (s : Text)
  deriving DecidableEq

/-- The value of an attribute of `Job`. -/
inductive Value where
  | none
  | int (n : Nat)
  | text (s : Text)
  | texts (items : List Text)
  | status (s : JobState)
  deriving DecidableEq

namespace Value

def ofText (v : Option Text) : Value := v.elim none text

def ofInt (v : Option Nat) : Value := v.elim none int

/-- A time is held as a text. -/
def ofTime (v : Option Instant) : Value := ofText (v.map Instant.isoformat)

/-- The cell for a value, by `_encode_job_fields`. -/
def encode : Value → Cell
  | none => .null
  | int n => .int n
  | text s => .text s
  | texts items => .text (dumpTexts items)
  | status s => .text s.value

end Value

/-- The columns of `jobs`. -/
inductive JobColumn where
  | jobId | senderEmail | backendUserId | sourceMessageId | operation | status | groupHint | resolvedGroupId
  | resolvedGroupName | attachmentFilename | attachmentStoragePath | meetingDate | meetingDateSource | speakersJson
  | backendMeetingId | backendRawFileId | resolvedAttendeesJson | unresolvedSpeakersJson | transcriptFocus | githubFocus
  | trelloFocus | error | retryCount | createdAt | startedAt | completedAt | lastResponseMessageId | inReplyToMessageId
  deriving DecidableEq

abbrev JobRow := JobColumn → Cell

namespace JobColumn

/-- The columns that hold JSON. -/
def isJson : JobColumn → Bool
  | speakersJson | resolvedAttendeesJson | unresolvedSpeakersJson => true
  | _ => false

/-- The columns that are declared NOT NULL, with their names. -/
def required : List (JobColumn × Text) :=
  [(senderEmail, "sender_email"), (backendUserId, "backend_user_id"), (sourceMessageId, "source_message_id"),
    (operation, "operation"), (status, "status"), (retryCount, "retry_count"), (createdAt, "created_at")]

/-- What an INSERT puts into a column it does not name. -/
def default : JobColumn → Cell
  | operation => .text "submit_transcript"
  | retryCount => .int 0
  | _ => .null

end JobColumn

namespace JobState

/-- `JobState(value)`. -/
def ofValue (value : Text) : Option JobState :=
  [received, validating, needsClarification, queued, processing, completed, failed, cancelled].find? fun s =>
    s.value = value

theorem ofValue_value (s : JobState) : ofValue s.value = some s := by
  cases s <;> decide

theorem value_injective {s t : JobState} (h : s.value = t.value) : s = t :=
  Option.some.inj ((ofValue_value s).symm.trans ((congrArg ofValue h).trans (ofValue_value t)))

end JobState

/-- `json.loads(cell) if cell else []`. -/
def Cell.readTexts : Cell → Option (List Text)
  | .null | .text [] => some []
  | .text s => loadTexts s
  | .int _ => none

def Cell.readStatus : Cell → Option JobState
  | .text s => JobState.ofValue s
  | _ => none

def Cell.readValue : Cell → Value
  | .null => .none
  | .int n => .int n
  | .text s => .text s

/-- An attribute as `Job.from_row` reads it. -/
def JobColumn.read (column : JobColumn) (cell : Cell) : Option Value :=
  if column.isJson then cell.readTexts.map .texts
  else if column = .status then cell.readStatus.map .status
  else some cell.readValue

/-- `Job.from_row`. -/
def fromRow (row : JobRow) (column : JobColumn) : Option Value := column.read (row column)

/-! ### The row of a job -/

namespace JobField

def column : JobField → JobColumn
  | groupHint _ => .groupHint
  | resolvedGroupId _ => .resolvedGroupId
  | resolvedGroupName _ => .resolvedGroupName
  | attachmentFilename _ => .attachmentFilename
  | attachmentStoragePath _ => .attachmentStoragePath
  | meetingDate _ => .meetingDate
  | meetingDateSource _ => .meetingDateSource
  | speakers _ => .speakersJson
  | backendMeetingId _ => .backendMeetingId
  | backendRawFileId _ => .backendRawFileId
  | resolvedAttendees _ => .resolvedAttendeesJson
  | unresolvedSpeakers _ => .unresolvedSpeakersJson
  | transcriptFocus _ => .transcriptFocus
  | githubFocus _ => .githubFocus
  | trelloFocus _ => .trelloFocus
  | error _ => .error
  | startedAt _ => .startedAt
  | completedAt _ => .completedAt
  | lastResponseMessageId _ => .lastResponseMessageId
  | inReplyToMessageId _ => .inReplyToMessageId

def value : JobField → Value
  | groupHint v | resolvedGroupName v | attachmentFilename v | attachmentStoragePath v | meetingDate v
  | meetingDateSource v | transcriptFocus v | githubFocus v | trelloFocus v | error v | lastResponseMessageId v
  | inReplyToMessageId v => .ofText v
  | resolvedGroupId v | backendMeetingId v | backendRawFileId v => .ofInt v
  | speakers v | resolvedAttendees v | unresolvedSpeakers v => .texts v
  | startedAt v | completedAt v => .ofTime v

/-- `_encode_job_fields`, for one of the fields. -/
def encode (v : JobField) : JobColumn × Cell := (v.column, v.value.encode)

end JobField

namespace Job

def value (j : Job) : JobColumn → Value
  | .jobId => .text j.jobId
  | .senderEmail => .text j.senderEmail
  | .backendUserId => .int j.backendUserId
  | .sourceMessageId => .text j.sourceMessageId
  | .operation => .text j.operation
  | .status => .status j.status
  | .groupHint => .ofText j.groupHint
  | .resolvedGroupId => .ofInt j.resolvedGroupId
  | .resolvedGroupName => .ofText j.resolvedGroupName
  | .attachmentFilename => .ofText j.attachmentFilename
  | .attachmentStoragePath => .ofText j.attachmentStoragePath
  | .meetingDate => .ofText j.meetingDate
  | .meetingDateSource => .ofText j.meetingDateSource
  | .speakersJson => .texts j.speakers
  | .backendMeetingId => .ofInt j.backendMeetingId
  | .backendRawFileId => .ofInt j.backendRawFileId
  | .resolvedAttendeesJson => .texts j.resolvedAttendees
  | .unresolvedSpeakersJson => .texts j.unresolvedSpeakers
  | .transcriptFocus => .ofText j.transcriptFocus
  | .githubFocus => .ofText j.githubFocus
  | .trelloFocus => .ofText j.trelloFocus
  | .error => .ofText j.error
  | .retryCount => .int 0
  | .createdAt => .text j.createdAt.isoformat
  | .startedAt => .ofTime j.startedAt
  | .completedAt => .ofTime j.completedAt
  | .lastResponseMessageId => .ofText j.lastResponseMessageId
  | .inReplyToMessageId => .ofText j.inReplyToMessageId

/-- The row that holds a job. -/
def row (j : Job) : JobRow := fun column => (j.value column).encode

end Job

/-- Assignments of columns, the last of a column counting. -/
def JobRow.assign (row : JobRow) (values : List (JobColumn × Cell)) : JobRow :=
  values.foldl (fun row v => Function.update row v.1 v.2) row

theorem dumpTexts_ne_nil (items : List Text) : dumpTexts items ≠ [] := by
  rcases items with _ | ⟨x, xs⟩
  · decide
  · rw [dumpTexts_cons]
    exact List.cons_ne_nil _ _

theorem readTexts_encode (items : List Text) : (Value.texts items).encode.readTexts = some items := by
  obtain ⟨c, s, hs⟩ := List.exists_cons_of_ne_nil (dumpTexts_ne_nil items)
  have hload := loadTexts_dumpTexts items
  rw [hs] at hload
  rw [Value.encode, hs]
  exact hload

theorem readStatus_encode (s : JobState) : (Value.status s).encode.readStatus = some s := s.ofValue_value

theorem readValue_ofText (v : Option Text) : (Value.ofText v).encode.readValue = .ofText v := by
  cases v <;> rfl

theorem readValue_ofInt (v : Option Nat) : (Value.ofInt v).encode.readValue = .ofInt v := by
  cases v <;> rfl

theorem fromRow_row (j : Job) : fromRow j.row = fun column => some (j.value column) := by
  have htexts : ∀ items, (Value.texts items).encode.readTexts.map Value.texts = some (.texts items) := fun items =>
    congrArg (Option.map Value.texts) (readTexts_encode items)
  have hstatus : (Value.status j.status).encode.readStatus.map Value.status = some (.status j.status) :=
    congrArg (Option.map Value.status) (readStatus_encode j.status)
  funext column
  cases column
  case status => exact hstatus
  case speakersJson | resolvedAttendeesJson | unresolvedSpeakersJson => exact htexts _
  case resolvedGroupId | backendMeetingId | backendRawFileId => exact congrArg some (readValue_ofInt _)
  case jobId | senderEmail | backendUserId | sourceMessageId | operation | retryCount | createdAt => rfl
  all_goals exact congrArg some (readValue_ofText _)

theorem row_set (j : Job) (v : JobField) : Function.update j.row v.column v.value.encode = (j.set v).row := by
  funext column
  by_cases h : column = v.column
  · subst h
    rw [Function.update_self]
    cases v <;> rfl
  · rw [Function.update_of_ne h]
    cases v <;> cases column <;> first | rfl | exact absurd rfl h

theorem row_setAll (j : Job) (fields : List JobField) :
    JobRow.assign j.row (fields.map JobField.encode) = (j.setAll fields).row := by
  induction fields generalizing j with
  | nil => rfl
  | cons v fields ih =>
    show JobRow.assign (Function.update j.row v.column v.value.encode) (fields.map JobField.encode) = _
    rw [row_set, ih]
    rfl

/-! ### Columns that were never written -/

/-- The row with the empty list for a list that was never written: an INSERT leaves such a column NULL. -/
def JobRow.filled (row : JobRow) : JobRow := fun column =>
  if column.isJson = true ∧ row column = .null then .text (dumpTexts []) else row column

theorem JobRow.filled_of_not_json (row : JobRow) {column : JobColumn} (h : column.isJson = false) :
    row.filled column = row column := by
  rw [filled, if_neg]
  rintro ⟨hjson, -⟩
  exact Bool.false_ne_true (h.symm.trans hjson)

theorem fromRow_filled (row : JobRow) : fromRow row.filled = fromRow row := by
  funext column
  rw [fromRow, fromRow, JobRow.filled]
  split_ifs with h
  · rw [h.2, JobColumn.read, JobColumn.read, if_pos h.1, if_pos h.1]
    rfl
  · rfl

theorem filled_update (row : JobRow) {column : JobColumn} {cell : Cell} (h : column.isJson = true → cell ≠ .null) :
    JobRow.filled (Function.update row column cell) = Function.update row.filled column cell := by
  funext c
  by_cases hc : c = column
  · subst hc
    rw [JobRow.filled, Function.update_self, Function.update_self, if_neg fun hnull => h hnull.1 hnull.2]
  · rw [JobRow.filled, Function.update_of_ne hc, Function.update_of_ne hc, JobRow.filled]

/-- No list among the values is NULL. -/
def Filled (values : List (JobColumn × Cell)) : Prop := ∀ v ∈ values, v.1.isJson = true → v.2 ≠ .null

theorem filled_encode (fields : List JobField) : Filled (fields.map JobField.encode) := by
  intro v hv hjson
  obtain ⟨field, -, rfl⟩ := List.mem_map.1 hv
  cases field <;> first | exact Cell.noConfusion | cases hjson

theorem filled_assign {values : List (JobColumn × Cell)} (h : Filled values) (row : JobRow) :
    (JobRow.assign row values).filled = JobRow.assign row.filled values := by
  induction values generalizing row with
  | nil => rfl
  | cons v values ih =>
    obtain ⟨hv, hvalues⟩ := List.forall_mem_cons.1 h
    show (JobRow.assign (Function.update row v.1 v.2) values).filled = _
    rw [ih hvalues, filled_update row hv]
    rfl

end GroupAssessmentAgent
