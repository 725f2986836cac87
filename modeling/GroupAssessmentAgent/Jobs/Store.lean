import Mathlib.Data.List.Sort
import GroupAssessmentAgent.World

/-!
# The stores

`JobStore`, `ProcessedMessageStore`, `Outbox` and `PendingClarificationStore`, one definition for each of their
methods, statement by statement. A transaction is one step. A caught `IntegrityError` is the only exception that
the stores themselves handle.
-/

namespace GroupAssessmentAgent
open Prog

def maxProcessingAttempts : Nat := 3

/-- `ORDER BY key ASC`. -/
def orderBy {α : Type} (key : α → Nat) (rows : List α) : List α := rows.insertionSort fun a b => key a ≤ key b

/-- `ORDER BY key DESC LIMIT 1`. -/
def latest {α : Type} (key : α → Nat) (rows : List α) : Option α :=
  (rows.insertionSort fun a b => key b ≤ key a).head?

theorem latest_of_mem {α : Type} (key : α → Nat) {rows : List α} {a : α} (ha : a ∈ rows) :
    ∃ b ∈ rows, latest key rows = some b := by
  have hne : rows.insertionSort (fun a b => key b ≤ key a) ≠ [] :=
    List.ne_nil_of_mem ((List.mem_insertionSort _).2 ha)
  obtain ⟨b, bs, hsorted⟩ := List.exists_cons_of_ne_nil hne
  have hb : b ∈ rows.insertionSort (fun a b => key b ≤ key a) := by
    rw [hsorted]
    exact List.mem_cons_self
  exact ⟨b, (List.mem_insertionSort _).1 hb, by rw [latest, hsorted]; rfl⟩

theorem latest_mem {α : Type} {key : α → Nat} {rows : List α} {a : α} (h : latest key rows = some a) : a ∈ rows :=
  (List.mem_insertionSort _).1 (List.mem_of_head? h)

/-- SQLite's `LOWER`. -/
def sqlLower (s : Text) : Text := s.map Char.toLower

/-- `column LIKE 'pre%'`, for a `pre` without wildcards. -/
def likePrefix (pre column : Text) : Bool := startsWith (sqlLower column) (sqlLower pre)

/-- Run `p`, and `h` in the place of an `IntegrityError`. -/
def onIntegrityError {α : Type} (p h : M α) : M α :=
  tryCatch p fun e => if e.kind = .integrityError then h else throw e

namespace World

def modifyJob (w : World) (jobId : Text) (f : Job → Job) (hf : ∀ j, (f j).jobId = j.jobId) : World :=
  { w with jobs := w.jobs.modify jobId f hf }

/-- The row that `set_status` writes. -/
def writeStatus (w : World) (jobId : Text) (new : JobState) (fields : List JobField) : World :=
  w.modifyJob jobId (fun j => { j with status := new }.setAll fields) fun _ => by simp

def writeJob (w : World) (jobId : Text) (fields : List JobField) : World :=
  w.modifyJob jobId (fun j => j.setAll fields) fun _ => by simp

def modifyProcessed (w : World) (messageId : Text) (f : ProcessedMessage → ProcessedMessage)
    (hf : ∀ r, (f r).messageId = r.messageId) : World :=
  { w with processedMessages := w.processedMessages.modify messageId f hf }

def modifyOutbox (w : World) (id : Nat) (f : OutboxMessage → OutboxMessage) (hf : ∀ r, (f r).id = r.id) : World :=
  { w with outbox := w.outbox.modify id f hf }

end World

/-! ### JobStore -/

namespace JobStore

/-- The prefix of the job ids of a day. -/
def jobIdPrefix (d : Instant.Date) : Text :=
  cat ["DIAR-", padded 4 d.year, "-", padded 2 d.month, padded 2 d.day, "-"]

def jobIdOf (pre : Text) (seq : Nat) : Text := pre ++ padded 4 seq

def get (jobId : Text) : M (Option Job) := observe .selectJobs fun w => w.jobs.find? jobId

/-- The transaction of `create_job`: count the jobs of the day, and insert the next one. -/
def insertJob (pre : Text) (attempt : Nat) (row : Text → Job) (sourceMessageId : Text) : M Text :=
  atomic (.insertJob sourceMessageId) fun w =>
    let n := (w.jobs.rows.filter fun j => likePrefix pre j.jobId).length
    let jobId := jobIdOf pre (n + 1 + attempt)
    match w.jobs.insert? (row jobId) with
    | some jobs => (.ok jobId, { w with jobs := jobs })
    | none => (.error ⟨.integrityError, "UNIQUE constraint failed: jobs.job_id"⟩, w)

section
variable (out : Outside) (senderEmail : Text) (backendUserId : Nat) (sourceMessageId operation : Text)
  (initialFields : List JobField) (pre : Text)

/-- A new row. -/
def received (createdAt : Instant) (jobId : Text) : Job :=
  Job.setAll { jobId, senderEmail, backendUserId, sourceMessageId, operation, status := .received, createdAt }
    initialFields

/-- The remaining rounds of `create_job`. -/
def createJobFrom : Nat → Nat → M (Option Job)
  | 0, _ => throw ⟨.jobIdAllocationError,
      cat ["Could not allocate a unique job id with prefix ", pre, " after 10 attempts"]⟩
  | rounds + 1, attempt => do
    let createdAt ← utcnow out
    onIntegrityError (do
        let row := received senderEmail backendUserId sourceMessageId operation initialFields createdAt
        let jobId ← insertJob pre attempt row sourceMessageId
        get jobId)
      (createJobFrom rounds (attempt + 1))

/-- `create_job`. -/
def createJob : M (Option Job) := do
  let now ← utcnow out
  createJobFrom out senderEmail backendUserId sourceMessageId operation initialFields (jobIdPrefix now.date) 10 0

end

/-- `get_owned`, on the rows of the table. -/
def findOwned [PyChars] (w : World) (jobId senderEmail : Text) : Option Job :=
  (w.jobs.find? jobId).filter fun j => lower j.senderEmail = lower senderEmail

theorem findOwned_jobId [PyChars] {w : World} {jobId senderEmail : Text} {j : Job}
    (h : findOwned w jobId senderEmail = some j) : j.jobId = jobId :=
  Table.find?_key (Option.filter_eq_some_iff.1 h).1

def getOwned [PyChars] (jobId senderEmail : Text) : M (Option Job) :=
  observe .selectJobs fun w => findOwned w jobId senderEmail

def update (jobId : Text) (fields : List JobField) : M Unit :=
  if fields = [] then pure () else change (.updateJob jobId) fun w => w.writeJob jobId fields

/-- The assignment of the current time to a column, where it is wanted. -/
def stamp (out : Outside) (wanted : Prop) [Decidable wanted] (column : Option Instant → JobField) :
    M (List JobField) :=
  if wanted then do
    let now ← utcnow out
    return [column (some now)]
  else
    return []

def setStatus (out : Outside) (jobId : Text) (newStatus : JobState) (extra : List JobField) : M Unit := do
  let row ← observe .selectJobs fun w => (w.jobs.find? jobId).map Job.status
  match row with
  | none => throw ⟨.invalidTransition, cat ["Job ", jobId, " does not exist"]⟩
  | some current =>
    if newStatus ∉ current.allowedTransitions ∧ newStatus ≠ current then
      throw ⟨.invalidTransition, cat ["Cannot move job ", jobId, " from ", current.str, " to ", newStatus.str]⟩
    else
      let started ← stamp out (newStatus = .processing ∧ extra.all (!·.isStartedAt)) .startedAt
      let completed ← stamp out (newStatus.Terminal ∧ extra.all (!·.isCompletedAt)) .completedAt
      change (.updateStatus jobId current newStatus) fun w =>
        w.writeStatus jobId newStatus (extra ++ started ++ completed)

/-- `get_by_last_response_message_id`, on the rows of the table. -/
def findByLastResponse (w : World) (messageId senderEmail : Text) : Option Job :=
  latest Job.createdAt (w.jobs.rows.filter fun j =>
    j.lastResponseMessageId = some messageId ∧ j.senderEmail = senderEmail)

/-- `get_by_response_message_id`, on the rows of the tables. -/
def findByResponse (w : World) (messageId senderEmail : Text) : Option Job :=
  let joined := w.messageLinks.rows.flatMap fun l =>
    (w.jobs.rows.filter fun j => l.jobId = some j.jobId).map fun j => (l, j)
  (latest (fun r => r.1.createdAt) (joined.filter fun r =>
    r.1.messageId = messageId ∧ sqlLower r.2.senderEmail = sqlLower senderEmail)).map Prod.snd

def listQueued : M (List Job) :=
  observe .selectJobs fun w => orderBy Job.createdAt (w.jobs.rows.filter fun j => j.status = .queued)

end JobStore

/-! ### ProcessedMessageStore -/

/-- The outcome of a message that is being handled. -/
def inProgress : Text := "in_progress"

namespace ProcessedMessageStore

/-- The transaction of `begin`. -/
def insertRow (row : ProcessedMessage) : M Bool :=
  atomic (.insertProcessed row.messageId) fun w =>
    match w.processedMessages.insert? row with
    | some t => (.ok true, { w with processedMessages := t })
    | none => (.error ⟨.integrityError, "UNIQUE constraint failed: processed_messages.message_id"⟩, w)

/-- One more attempt. -/
def retry (messageId : Text) : M Unit :=
  change (.updateProcessed messageId) fun w =>
    w.modifyProcessed messageId (fun r => { r with attemptCount := r.attemptCount + 1 }) fun _ => rfl

def begin (out : Outside) (messageId senderEmail authResult : Text) : M Bool := do
  let receivedAt ← utcnow out
  let inserted ← onIntegrityError
    (insertRow { messageId, receivedAt, senderEmail, authResult, outcome := inProgress }) (pure false)
  if inserted then
    return true
  let row ← observe .selectProcessed fun w => w.processedMessages.find? messageId
  match row with
  | none => return false
  | some row =>
    if row.outcome = inProgress ∧ row.attemptCount < maxProcessingAttempts then
      retry messageId
      return true
    else
      return false

def finalize (out : Outside) (messageId outcome : Text) (jobId operation : Option Text) : M Unit := do
  let now ← utcnow out
  change (.updateProcessed messageId) fun w =>
    w.modifyProcessed messageId (fun r => { r with outcome, jobId, operation, processedAt := some now })
      fun _ => rfl

def getOutcome (messageId : Text) : M (Option Text) :=
  observe .selectProcessed fun w => (w.processedMessages.find? messageId).map ProcessedMessage.outcome

end ProcessedMessageStore

/-! ### Outbox -/

namespace Outbox

def maxSendAttempts : Nat := 5

def enqueue (out : Outside) (toEmail subject bodyText : Text) (jobId : Option Text) (attachments : List Text)
    (inReplyTo references : Option Text) : M Nat := do
  let createdAt ← utcnow out
  atomic .insertOutbox fun w =>
    let row := fun id => { id, jobId, toEmail, subject, bodyText, attachments, inReplyToMessageId := inReplyTo,
                           referencesHeader := references, createdAt : OutboxMessage }
    (.ok w.outbox.next, { w with outbox := w.outbox.append row fun _ => rfl })

/-- The PENDING rows, oldest first. -/
def pendingRows (w : World) : List OutboxMessage :=
  orderBy OutboxMessage.createdAt (w.outbox.rows.filter fun m => m.status = .pending)

def pending : M (List OutboxMessage) := observe .selectOutbox pendingRows

/-- The UPDATE of `mark_sent`. -/
def recordSent (w : World) (outboxId : Nat) (now : Instant) : World :=
  w.modifyOutbox outboxId (fun r => { r with status := .sent, sentAt := some now }) fun _ => rfl

def setSent (outboxId : Nat) (now : Instant) : M Unit :=
  change (.updateOutbox outboxId .sent) fun w => recordSent w outboxId now

def link (l : MessageLink) : M Unit :=
  atomic (.insertLink l.outboxId l.messageId) fun w =>
    match w.messageLinks.insert l with
    | .ok t => (.ok (), { w with messageLinks := t })
    | .error e => (.error e, w)

def markSent (out : Outside) (outboxId : Nat) (providerMessageId : Text) : M Unit := do
  let row ← observe .selectOutbox fun w => w.outbox.find? outboxId
  let now ← utcnow out
  setSent outboxId now
  if providerMessageId ≠ [] then
    let createdAt ← utcnow out
    link { outboxId, jobId := row.bind OutboxMessage.jobId, messageId := providerMessageId, createdAt }

/-- The status of a message after its `attempts`-th failure. -/
def failureStatus (attempts : Nat) : OutboxStatus := if attempts ≥ maxSendAttempts then .failed else .pending

/-- The UPDATE of `mark_failed`. -/
def recordFailure (w : World) (outboxId attempts : Nat) (error : Text) : World :=
  w.modifyOutbox outboxId (fun r => { r with status := failureStatus attempts, attempts, lastError := some error })
    fun _ => rfl

def markFailed (outboxId : Nat) (error : Text) : M Unit := do
  let row ← observe .selectOutbox fun w => w.outbox.find? outboxId
  let attempts := (row.map OutboxMessage.attempts).getD 0 + 1
  change (.updateOutbox outboxId (failureStatus attempts)) fun w => recordFailure w outboxId attempts error

end Outbox

/-! ### PendingClarificationStore -/

namespace PendingClarificationStore

def put (out : Outside) (jobId question expectedField : Text) (options : List Text) : M Unit := do
  let createdAt ← utcnow out
  change .putClarification fun w =>
    { w with pendingClarifications :=
        w.pendingClarifications.upsert { jobId, question, expectedField, options, createdAt } }

def get (jobId : Text) : M (Option PendingClarification) :=
  observe .selectClarifications fun w => w.pendingClarifications.find? jobId

def delete (jobId : Text) : M Unit :=
  change .deleteClarification fun w => { w with pendingClarifications := w.pendingClarifications.erase jobId }

end PendingClarificationStore

end GroupAssessmentAgent
