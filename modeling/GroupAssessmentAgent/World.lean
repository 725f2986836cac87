import GroupAssessmentAgent.Commands.Schema
import GroupAssessmentAgent.Jobs.Models
import GroupAssessmentAgent.Lib.Prog
import GroupAssessmentAgent.Lib.Table

/-!
# The world the program acts on

The tables of the database with the constraints of its schema, the disk, and the mail provider, in one state
`World`. A program of type `M α` is a tree of atomic steps on it: one SQL statement (or one transaction), one file
operation, one call of the provider or of Ollama, one reading of the clock. Each step carries a label of type
`Stmt` that says what it is.

What nobody here decides stands in `Outside`: the readings of the clock, the generated names, the answers of the
language model, and the library functions whose code is elsewhere. `Exc` is a Python exception: its class and its
text.
-/

namespace GroupAssessmentAgent

abbrev Bytes := List UInt8

/-- A `datetime`, by its `isoformat()`. -/
abbrev Datetime := Text

/-! ### Rows -/

structure ProcessedMessage where
  messageId : Text
  receivedAt : Instant
  senderEmail : Text
  authResult : Text
  operation : Option Text := none
  jobId : Option Text := none
  outcome : Text
  attemptCount : Nat := 1
  processedAt : Option Instant := none
  deriving DecidableEq

inductive OutboxStatus where
  | pending | sent | failed
  deriving DecidableEq, Repr

structure OutboxMessage where
  id : Nat
  jobId : Option Text := none
  toEmail : Text
  subject : Text
  bodyText : Text
  attachments : List Text := []
  inReplyToMessageId : Option Text := none
  referencesHeader : Option Text := none
  status : OutboxStatus := .pending
  attempts : Nat := 0
  lastError : Option Text := none
  createdAt : Instant
  sentAt : Option Instant := none
  deriving DecidableEq

structure MessageLink where
  outboxId : Nat
  jobId : Option Text
  messageId : Text
  createdAt : Instant
  deriving DecidableEq

structure PendingClarification where
  jobId : Text
  question : Text
  expectedField : Text
  options : List Text
  createdAt : Instant
  deriving DecidableEq

inductive ReportStatus where
  | received | collecting | synthesising | completed | queued | sent | failed
  deriving DecidableEq, Repr

structure WeeklyReport where
  reportId : Text
  groupId : Nat
  groupName : Text
  ownerEmail : Text
  backendUserId : Nat
  periodStart : Text
  periodEnd : Text
  status : ReportStatus := .received
  reportText : Option Text := none
  lastError : Option Text := none
  createdAt : Instant
  completedAt : Option Instant := none
  deriving DecidableEq

/-- A row of `report_evidence`. -/
structure ReportEvidence where
  id : Nat
  reportId : Text
  source : Text
  evidenceId : Text
  title : Text
  eventDate : Option Text
  content : Text
  citation : Text
  rawJson : Text
  deriving DecidableEq

inductive AdminCategory where
  | unauthorisedSender | llmParseFailure | backendSubmissionFailure | assessQueryFailure | infrastructure
  deriving DecidableEq, Repr

structure AdminAlert where
  category : AdminCategory
  lastSentAt : Instant
  deriving DecidableEq

structure StoredFile where
  path : Text
  content : Bytes
  deriving DecidableEq

/-- A mail the provider has accepted. `outboxId` is no part of the mail: it says which outbox row the call was
made for. -/
structure Delivery where
  outboxId : Nat
  toEmail : Text
  subject : Text
  bodyText : Text
  attachments : List (Text × Bytes)
  inReplyTo : Option Text
  references : Option Text
  messageId : Text
  deriving DecidableEq

/-! ### Exceptions -/

inductive ExcKind where
  | attributeError | lookupError | integrityError | operationalError | osError | assertionError | invalidTransition
  | jobIdAllocationError | clarificationRequired | rejected | commandParsingFailed | ollamaUnavailable
  | vttParseError | valueError | overflowError
    | typeError | providerError | diarisationApiError | githubRaginatorApiError
  deriving DecidableEq, Repr

/-- An exception: its class, and `str(e)`. -/
structure Exc where
  kind : ExcKind
  message : Text
  deriving DecidableEq

/-! ### Links -/

/-- `message_links`, distinct in both of its UNIQUE columns. -/
structure MessageLinks where
  table : Table MessageLink.messageId
  outboxNodup : (table.rows.map MessageLink.outboxId).Nodup

namespace MessageLinks

def rows (t : MessageLinks) : List MessageLink := t.table.rows

def empty : MessageLinks := ⟨Table.empty, List.nodup_nil⟩

/-- Neither UNIQUE column holds the value. -/
def Free (t : MessageLinks) (outboxId : Nat) (messageId : Text) : Prop :=
  (∀ l ∈ t.rows, l.outboxId ≠ outboxId) ∧ ∀ l ∈ t.rows, l.messageId ≠ messageId

instance (t : MessageLinks) (n : Nat) (m : Text) : Decidable (t.Free n m) :=
  inferInstanceAs (Decidable (_ ∧ _))

def insert (t : MessageLinks) (l : MessageLink) : Except Exc MessageLinks :=
  if hout : l.outboxId ∈ t.rows.map MessageLink.outboxId then
    .error ⟨.integrityError, "UNIQUE constraint failed: message_links.outbox_id"⟩
  else
    match h : t.table.insert? l with
    | none => .error ⟨.integrityError, "UNIQUE constraint failed: message_links.message_id"⟩
    | some table => .ok ⟨table, by
        rw [Table.insert?_rows h, List.map_append]
        exact t.outboxNodup.append (List.nodup_singleton _) (by simpa [rows] using hout)⟩

theorem insert_isOk (t : MessageLinks) (l : MessageLink) :
    (∃ t', t.insert l = .ok t') ↔ t.Free l.outboxId l.messageId := by
  have hfree : t.Free l.outboxId l.messageId ↔
      l.outboxId ∉ t.rows.map MessageLink.outboxId ∧ t.table.find? l.messageId = none := by
    simp only [Free, Table.find?_eq_none, List.mem_map, not_exists, not_and, rows]
  rw [hfree, insert]
  split_ifs with hout
  · simp [hout]
  · have hsome := t.table.insert?_isSome l
    split
    · next h =>
      have hne : t.table.find? l.messageId ≠ none := fun hnone => by simp [h] at hsome; exact hsome hnone
      simp [hne]
    · next table h =>
      have hnone : t.table.find? l.messageId = none := hsome.1 (by simp [h])
      simp [hout, hnone]

theorem insert_rows {t t' : MessageLinks} {l : MessageLink} (h : t.insert l = .ok t') :
    t'.rows = t.rows ++ [l] := by
  rw [insert] at h
  split_ifs at h
  split at h
  · cases h
  · next table hinsert =>
    cases h
    exact Table.insert?_rows hinsert

end MessageLinks

/-! ### State -/

structure World where
  jobs : Table Job.jobId := Table.empty
  processedMessages : Table ProcessedMessage.messageId := Table.empty
  outbox : Table OutboxMessage.id := Table.empty
  messageLinks : MessageLinks := MessageLinks.empty
  pendingClarifications : Table PendingClarification.jobId := Table.empty
  weeklyReports : Table WeeklyReport.reportId := Table.empty
  reportEvidence : Table ReportEvidence.id := Table.empty
  adminAlerts : Table AdminAlert.category := Table.empty
  files : Table StoredFile.path := Table.empty
  /-- The provider references marked processed, newest first. -/
  seen : List Text := []
  /-- The mails the provider has accepted, newest first. -/
  deliveries : List Delivery := []
  ollamaUp : Bool := true
  /-- How often the clock was read, a name was generated, and the model was asked. -/
  ticks : Nat := 0
  uuids : Nat := 0
  generations : Nat := 0
  /-- How often one of the two backends was called. -/
  backendCalls : Nat := 0

/-- A call of one of the two backends, with its arguments. -/
inductive BackendCall where
  | login (userId : Nat)
  | listGroups (token : Text)
  | createMeeting (token : Text) (groupId : Nat) (date : Datetime)
  | uploadFile (token : Text) (groupId meetingId : Nat) (filename : Option Text) (content : Bytes)
  | addAttendee (token : Text) (groupId meetingId memberId : Nat)
  | resolveAliases (token : Text) (groupId : Nat) (names : List Text)
  | searchTranscripts (token : Text) (groupId : Nat) (query : Text)
  | findRepoByGroupName (groupName : Text)
  | query (repoId : Nat) (question : Text)
  deriving DecidableEq

/-- What a step is. -/
inductive Stmt where
  | clock
  | selectJobs
  | insertJob (sourceMessageId : Text)
  | updateJob (jobId : Text)
  | updateStatus (jobId : Text) (current new : JobState)
  | selectProcessed
  | insertProcessed (messageId : Text)
  | updateProcessed (messageId : Text)
  | selectOutbox
  | insertOutbox
  | updateOutbox (id : Nat) (status : OutboxStatus)
  | insertLink (outboxId : Nat) (messageId : Text)
  | selectClarifications
  | putClarification
  | deleteClarification
  | selectReports
  | insertReport (reportId : Text)
  | updateReport (reportId : Text)
  | deleteEvidence
  | insertEvidence
  | selectAlerts
  | putAlert
  | readFile
  | checkFile
  | writeFile
  | moveFile
  | fetch
  | markProcessed (providerRef : Text)
  | send (outboxId : Nat)
  | ollama
  | generate
  | backend (call : BackendCall)
  deriving DecidableEq

/-- The statements that only look, `should_send` apart. -/
def Stmt.looks : Stmt → Bool
  | .selectJobs | .selectProcessed | .selectOutbox | .selectClarifications | .selectReports | .readFile | .checkFile
  | .fetch => true
  | _ => false

abbrev M := Prog Stmt World Exc

/-- Run `p`, and return an exception of one of the `kinds` instead of raising it. -/
def catching {α : Type} (kinds : List ExcKind) (p : M α) : M (Except Exc α) :=
  tryCatch (Except.ok <$> p) fun e => if e.kind ∈ kinds then pure (Except.error e) else throw e

/-- What happens outside. -/
structure Outside where
  /-- The n-th reading of the clock. -/
  clock : Nat → Instant
  /-- The n-th `uuid4().hex`. -/
  uuid : Nat → Text
  /-- The id that the provider gives to the n-th mail. -/
  messageId : Nat → Text
  /-- The model's n-th answer, to a system and a user prompt. -/
  generate : Nat → Text → Text → Text
  /-- `json.loads`, and the schema's conversion of the values it finds to their declared types. -/
  decodeCommand : Text → Except Text RawCommand
  /-- The text of the schema's report of failed checks. -/
  errorText : List FieldError → Text
  /-- `bytes.decode(charset, errors="replace")`. -/
  decode : Text → Bytes → Except Exc Text
  /-- `dateutil.parser.parse(value)`. -/
  parseDate : Text → Except Exc Datetime
  /-- `dateutil.parser.parse(value, fuzzy=True)`. -/
  parseDateFuzzy : Text → Except Exc Datetime
  /-- `secure_filename`. -/
  secureFilename : Text → Text
  /-- `str(make_header(decode_header(value)))`, where it does not raise. -/
  decodeHeader : Text → Option Text
  /-- A `Date` header in one of the two formats that `strptime` is called with. -/
  parseDatetime : Text → Option Datetime
  /-- `date.fromisoformat(value)`. -/
  dateFromIso : Text → Except Exc Instant.Date
  /-- `datetime.fromisoformat(value)`. -/
  datetimeFromIso : Text → Except Exc Datetime

/-- The text of ASCII bytes. -/
def asciiText (b : Bytes) : Text := b.map fun c => Char.ofNat c.toNat

/-- A date written as `YYYY-MM-DD`. -/
def plainDate (s : Text) : Except Exc Instant.Date :=
  let digits := fun n => Nat.ofDigitChars 10 n 0
  if s.length = 10 then .ok ⟨digits (s.take 4), digits ((s.drop 5).take 2), digits (s.drop 8)⟩
  else .error ⟨.valueError, cat ["Invalid isoformat string: '", s, "'"]⟩

/-- An outside for concrete runs: a clock that ticks, names by number, a model that always asks for help, the charsets
`utf-8`, `utf-8-sig` and `us-ascii` on ASCII bytes, and dates in one format. -/
def Outside.plain : Outside where
  clock n := 1786406400000000 + n
  uuid n := natText n
  messageId n := cat ["<", natText n, "@out>"]
  generate _ _ _ := []
  decodeCommand _ := .ok { operation := "help" }
  errorText _ := []
  decode charset b :=
    if charset = "utf-8" ∨ charset = "utf-8-sig" ∨ charset = "us-ascii" then .ok (asciiText b)
    else .error ⟨.lookupError, cat ["unknown encoding: ", charset]⟩
  parseDate _ := .error ⟨.valueError, "Unknown string format"⟩
  parseDateFuzzy _ := .error ⟨.valueError, "Unknown string format"⟩
  secureFilename name := name
  decodeHeader v := some v
  parseDatetime v := some v
  dateFromIso := plainDate
  datetimeFromIso v := .ok v

namespace World

/-- What `datetime.now` gives next. -/
def now (out : Outside) (w : World) : Instant := out.clock w.ticks

def tick (w : World) : World := { w with ticks := w.ticks + 1 }

end World

/-- `datetime.now(timezone.utc)`. -/
def utcnow (out : Outside) : M Instant := Prog.atomic .clock fun w => (.ok (w.now out), w.tick)

end GroupAssessmentAgent
