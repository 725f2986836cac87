import GroupAssessmentAgent.Python.Clock

/-!
# Jobs

The states of a job with the transitions `JobStore.set_status` lets through, a row of the `jobs` table, and the
columns that `update` and `set_status` assign.
-/

namespace GroupAssessmentAgent

inductive JobState where
  | received | validating | needsClarification | queued | processing | completed | failed | cancelled
  deriving DecidableEq, Repr

namespace JobState

def value : JobState → Text
  | received => "RECEIVED"
  | validating => "VALIDATING"
  | needsClarification => "NEEDS_CLARIFICATION"
  | queued => "QUEUED"
  | processing => "PROCESSING"
  | completed => "COMPLETED"
  | failed => "FAILED"
  | cancelled => "CANCELLED"

/-- The text of a member in an f-string. -/
def str (s : JobState) : Text := cat ["JobState.", s.value]

/-- `ALLOWED_TRANSITIONS`. -/
def allowedTransitions : JobState → List JobState
  | received => [validating, failed]
  | validating => [queued, needsClarification, failed]
  | needsClarification => [queued, cancelled, failed]
  | queued => [processing, cancelled]
  | processing => [completed, failed, needsClarification]
  | completed => []
  | failed => []
  | cancelled => []

/-- The states with no way out. -/
def Terminal (s : JobState) : Prop := s = completed ∨ s = failed ∨ s = cancelled

instance (s : JobState) : Decidable s.Terminal := inferInstanceAs (Decidable (_ ∨ _ ∨ _))

theorem terminal_iff (s : JobState) : s.Terminal ↔ s.allowedTransitions = [] := by
  cases s <;> simp [Terminal, allowedTransitions]

end JobState

/-- A row of `jobs`. -/
structure Job where
  jobId : Text
  senderEmail : Text
  backendUserId : Nat
  sourceMessageId : Text
  operation : Text
  status : JobState
  groupHint : Option Text := none
  resolvedGroupId : Option Nat := none
  resolvedGroupName : Option Text := none
  attachmentFilename : Option Text := none
  attachmentStoragePath : Option Text := none
  meetingDate : Option Text := none
  meetingDateSource : Option Text := none
  speakers : List Text := []
  backendMeetingId : Option Nat := none
  backendRawFileId : Option Nat := none
  resolvedAttendees : List Text := []
  unresolvedSpeakers : List Text := []
  transcriptFocus : Option Text := none
  githubFocus : Option Text := none
  trelloFocus : Option Text := none
  error : Option Text := none
  createdAt : Instant
  startedAt : Option Instant := none
  completedAt : Option Instant := none
  lastResponseMessageId : Option Text := none
  inReplyToMessageId : Option Text := none
  deriving DecidableEq

/-- An assignment of a column by `update(job_id, **fields)` or by the extra fields of `set_status`. Callers never
assign the id, the status, or the columns that a row is created with. -/
inductive JobField where
  | groupHint (v : Option Text)
  | resolvedGroupId (v : Option Nat)
  | resolvedGroupName (v : Option Text)
  | attachmentFilename (v : Option Text)
  | attachmentStoragePath (v : Option Text)
  | meetingDate (v : Option Text)
  | meetingDateSource (v : Option Text)
  | speakers (v : List Text)
  | backendMeetingId (v : Option Nat)
  | backendRawFileId (v : Option Nat)
  | resolvedAttendees (v : List Text)
  | unresolvedSpeakers (v : List Text)
  | transcriptFocus (v : Option Text)
  | githubFocus (v : Option Text)
  | trelloFocus (v : Option Text)
  | error (v : Option Text)
  | startedAt (v : Option Instant)
  | completedAt (v : Option Instant)
  | lastResponseMessageId (v : Option Text)
  | inReplyToMessageId (v : Option Text)
  deriving DecidableEq

namespace JobField

def isStartedAt : JobField → Bool
  | startedAt _ => true
  | _ => false

def isCompletedAt : JobField → Bool
  | completedAt _ => true
  | _ => false

end JobField

namespace Job

def set (j : Job) : JobField → Job
  | .groupHint v => { j with groupHint := v }
  | .resolvedGroupId v => { j with resolvedGroupId := v }
  | .resolvedGroupName v => { j with resolvedGroupName := v }
  | .attachmentFilename v => { j with attachmentFilename := v }
  | .attachmentStoragePath v => { j with attachmentStoragePath := v }
  | .meetingDate v => { j with meetingDate := v }
  | .meetingDateSource v => { j with meetingDateSource := v }
  | .speakers v => { j with speakers := v }
  | .backendMeetingId v => { j with backendMeetingId := v }
  | .backendRawFileId v => { j with backendRawFileId := v }
  | .resolvedAttendees v => { j with resolvedAttendees := v }
  | .unresolvedSpeakers v => { j with unresolvedSpeakers := v }
  | .transcriptFocus v => { j with transcriptFocus := v }
  | .githubFocus v => { j with githubFocus := v }
  | .trelloFocus v => { j with trelloFocus := v }
  | .error v => { j with error := v }
  | .startedAt v => { j with startedAt := v }
  | .completedAt v => { j with completedAt := v }
  | .lastResponseMessageId v => { j with lastResponseMessageId := v }
  | .inReplyToMessageId v => { j with inReplyToMessageId := v }

def setAll (j : Job) (fields : List JobField) : Job := fields.foldl set j

theorem setAll_keeps {α : Type} {φ : Job → α} {fields : List JobField} (h : ∀ v ∈ fields, ∀ j : Job, φ (j.set v) = φ j)
    (j : Job) : φ (j.setAll fields) = φ j := by
  induction fields generalizing j with
  | nil => rfl
  | cons v fields ih =>
    obtain ⟨hv, hrest⟩ := List.forall_mem_cons.1 h
    exact (ih hrest (j.set v)).trans (hv j)

/-- The columns that no assignment touches. -/
def identity (j : Job) : Text × Text × Text × JobState := (j.jobId, j.senderEmail, j.sourceMessageId, j.status)

theorem set_identity (j : Job) (v : JobField) : (j.set v).identity = j.identity := by
  cases v <;> rfl

theorem setAll_identity (j : Job) (fields : List JobField) : (j.setAll fields).identity = j.identity :=
  setAll_keeps (fun v _ j => set_identity j v) j

@[simp] theorem setAll_jobId (j : Job) (fields : List JobField) : (j.setAll fields).jobId = j.jobId :=
  congrArg (·.1) (setAll_identity j fields)

@[simp] theorem setAll_senderEmail (j : Job) (fields : List JobField) : (j.setAll fields).senderEmail = j.senderEmail :=
  congrArg (·.2.1) (setAll_identity j fields)

@[simp] theorem setAll_sourceMessageId (j : Job) (fields : List JobField) :
    (j.setAll fields).sourceMessageId = j.sourceMessageId :=
  congrArg (·.2.2.1) (setAll_identity j fields)

@[simp] theorem setAll_status (j : Job) (fields : List JobField) : (j.setAll fields).status = j.status :=
  congrArg (·.2.2.2) (setAll_identity j fields)

end Job

end GroupAssessmentAgent
