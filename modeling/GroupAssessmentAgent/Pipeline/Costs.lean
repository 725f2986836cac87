import GroupAssessmentAgent.Lib.Credits
import GroupAssessmentAgent.Pipeline.Ledger

/-!
# What one attempt at a message costs

An attempt costs in two ways: the model generates answers, and mails are put into the outbox. With a price `a` for an
answer and a price `b` for a mail, everything on the way through a message has its charge (`Charge`), and one attempt is
charged `maxRetries + 1` answers and two mails at most (`handleOwner_charge`, `handleStranger_charge`): a reply, and an
alert or the refusal that follows the reply of a handler.
-/

namespace GroupAssessmentAgent
open Prog

/-- What a statement costs, where an answer of the model costs `a` and a mail `b`. -/
def Stmt.cost (a b : Nat) : Stmt → Nat
  | .generate => a
  | .insertOutbox => b
  | _ => 0

/-- The attempts at a message that are used up. -/
def attemptsUsed (w : World) (messageId : Text) : Nat := (entryOf w messageId).used maxProcessingAttempts

theorem attemptsUsed_le (w : World) (messageId : Text) : attemptsUsed w messageId ≤ maxProcessingAttempts :=
  Entry.used_le_limit _

theorem LedgerMove.attemptsUsed {w w' : World} (h : LedgerMove w w') (messageId : Text) :
    attemptsUsed w messageId ≤ attemptsUsed w' messageId :=
  (h.2 messageId).used_le

/-- The statements after `begin`: no message is begun, and no attempt is given back. -/
def Forward (l : Stmt) (f : World → World) : Prop :=
  (∀ messageId, l ≠ .insertProcessed messageId) ∧ ∀ w messageId, attemptsUsed w messageId ≤ attemptsUsed (f w) messageId

/-- Those that cost nothing. -/
def Costless (l : Stmt) (f : World → World) : Prop := Forward l f ∧ l ≠ .generate ∧ l ≠ .insertOutbox

theorem Costless.free {l : Stmt} {f : World → World} (h : Costless l f) (a b : Nat) : Forward l f ∧ l.cost a b = 0 := by
  refine ⟨h.1, ?_⟩
  cases l with
  | generate => exact absurd rfl h.2.1
  | insertOutbox => exact absurd rfl h.2.2
  | _ => rfl

theorem forward_of_ledger {l : Stmt} {f : World → World} (hl : ∀ messageId, l ≠ .insertProcessed messageId)
    (hf : ∀ w, (f w).processedMessages = w.processedMessages) : Forward l f := by
  refine ⟨hl, fun w messageId => ?_⟩
  rw [attemptsUsed, attemptsUsed, entryOf, entryOf, hf]

theorem covers_costless : Covers Costless (fun _ => True) fun _ => False where
  look l hl := by
    refine ⟨forward_of_ledger ?_ fun _ => rfl, ?_, ?_⟩
    · rintro messageId rfl
      cases hl
    · rintro rfl
      cases hl
    · rintro rfl
      cases hl
  ask _ := ⟨forward_of_ledger nofun fun _ => rfl, nofun, nofun⟩
  tick := ⟨forward_of_ledger nofun fun _ => rfl, nofun, nofun⟩
  job _ _ _ := ⟨forward_of_ledger nofun fun _ => rfl, nofun, nofun⟩
  status _ _ _ _ _ _ := ⟨forward_of_ledger nofun fun _ => rfl, nofun, nofun⟩
  outbox _ _ hmail := (hmail 0).elim
  put _ _ := ⟨forward_of_ledger nofun fun _ => rfl, nofun, nofun⟩
  delete _ _ := ⟨forward_of_ledger nofun fun _ => rfl, nofun, nofun⟩
  alert _ := ⟨forward_of_ledger nofun fun _ => rfl, nofun, nofun⟩
  files l f hl hf := by
    have hledger : ∀ w, (f w).processedMessages = w.processedMessages := by
      intro w
      obtain ⟨t, n, hw⟩ := hf w
      rw [hw]
    rcases hl with rfl | rfl
    · exact ⟨forward_of_ledger nofun hledger, nofun, nofun⟩
    · exact ⟨forward_of_ledger nofun hledger, nofun, nofun⟩

theorem coversNewJobs_costless : CoversNewJobs Costless fun _ => True := by
  intro source row f _ hf
  refine ⟨forward_of_ledger nofun fun w => ?_, nofun, nofun⟩
  rcases hf w with hsame | ⟨jobId, t, -, hadded⟩
  · rw [hsame]
  · rw [hadded]

theorem ollama_costless : Costless .ollama id := ⟨forward_of_ledger nofun fun _ => rfl, nofun, nofun⟩

/-- An outcome uses up the attempts that are left. -/
theorem finalize_costless (out : Outside) (messageId : Text) {outcome : Text} (houtcome : outcome ≠ inProgress)
    (jobId operation : Option Text) :
    Always Costless (ProcessedMessageStore.finalize out messageId outcome jobId operation) := by
  refine (utcnow_always covers_costless out).bind fun now => ?_
  refine always_change ⟨⟨nofun, fun w messageId' => ?_⟩, nofun, nofun⟩
  rw [attemptsUsed, attemptsUsed, entryOf_finalize w messageId houtcome jobId operation (some now) messageId']
  split_ifs with hid
  · rw [hid]
    exact Entry.used_close_le _ _
  · exact le_rfl

theorem markProcessed_costless (providerRef : Text) : Always Costless (markProcessed providerRef) :=
  always_change ⟨forward_of_ledger nofun fun _ => rfl, nofun, nofun⟩

theorem conclude_costless (out : Outside) (msg : EmailMessage) {outcome : Text} (houtcome : outcome ≠ inProgress)
    (jobId operation : Option Text) :
    Always Costless (EmailProcessingPipeline.conclude out msg outcome jobId operation) :=
  (finalize_costless out _ houtcome _ _).bind fun _ => markProcessed_costless _

/-! ### Charges -/

/-- What the program is charged at most. -/
abbrev Charge (a b : Nat) {α : Type} (p : M α) (n : Nat) : Prop := Costs Forward (Stmt.cost a b) p n

section
variable {a b n k : Nat} {α β : Type}

theorem Charge.free {p : M α} (hp : Always Costless p) (n : Nat) : Charge a b p n :=
  (hp.mono fun _ _ h => h.free a b : Always _ p).costs n

theorem Charge.after {p : M α} {g : α → M β} (hp : Always Costless p) (hg : ∀ x, Charge a b (g x) n) :
    Charge a b (p.bind g) n :=
  Always.costs_bind (hp.mono fun _ _ h => h.free a b) hg

theorem Charge.before {p : M α} {g : α → M β} (hp : Charge a b p n) (hg : ∀ x, Always Costless (g x)) :
    Charge a b (p.bind g) n :=
  Costs.bind hp (fun x => Charge.free (hg x) 0) le_rfl

theorem Charge.catching {p : M α} (hp : Charge a b p n) (kinds : List ExcKind) : Charge a b (catching kinds p) n := by
  refine Costs.tryCatch (Charge.before hp fun _ => always_ret _) (fun e => ?_) (Nat.add_zero n).le
  split_ifs
  · exact Charge.free (always_ret _) 0
  · exact Nat.zero_le _

end

section
variable {a b : Nat} (out : Outside)

/-! ### Mails -/

theorem enqueue_charge (toEmail subject bodyText : Text) (jobId : Option Text) (attachments : List Text)
    (inReplyTo references : Option Text) :
    Charge a b (Outbox.enqueue out toEmail subject bodyText jobId attachments inReplyTo references) b := by
  refine Charge.after (utcnow_always covers_costless out) fun createdAt => ?_
  exact costs_atomic (forward_of_ledger nofun fun _ => rfl)

theorem request_charge (req : Request) (mail : Rendered) (jobId : Option Text) (attachments : List Text) :
    Charge a b (req.enqueue out mail jobId attachments) b :=
  Charge.before (enqueue_charge out _ _ _ _ _ _ _) fun _ => always_ret _

theorem replyTo_charge (msg : EmailMessage) (toEmail : Text) (mail : Rendered) (jobId : Option Text) :
    Charge a b (EmailProcessingPipeline.replyTo out msg toEmail mail jobId) b :=
  Charge.before (enqueue_charge out _ _ _ _ _ _ _) fun _ => always_ret _

theorem alert_charge (n : AdminNotifier) (category : AdminCategory) (summary : Text) (detail : List (Text × Text)) :
    Charge a b (n.alert out category summary detail) b := by
  unfold AdminNotifier.alert
  cases truthy n.adminEmail with
  | none => exact Charge.free (always_ret _) b
  | some adminEmail =>
    have hdue : Always Costless (n.shouldSend out category) := by
      refine Always.bind (always_observe ⟨forward_of_ledger nofun fun _ => rfl, nofun, nofun⟩ _) fun row => ?_
      cases row with
      | none => trivial
      | some row => exact (utcnow_always covers_costless out).bind fun _ => trivial
    have hrecord : Always Costless (AdminNotifier.recordSent out category) :=
      (utcnow_always covers_costless out).bind fun _ => always_change (covers_costless.alert _)
    refine Charge.after hdue fun due => ?_
    split_ifs
    · exact Charge.before (enqueue_charge out _ _ _ _ _ _ _) fun _ => hrecord.bind fun _ => trivial
    · exact Charge.free (always_ret _) b

theorem replyAndFinalize_charge (msg : EmailMessage) (mail : Rendered) {outcome : Text}
    (houtcome : outcome ≠ inProgress) (operation : Option Text) :
    Charge a b (EmailProcessingPipeline.replyAndFinalize out msg mail outcome operation) b :=
  Charge.before (replyTo_charge out msg _ mail none) fun _ => conclude_costless out msg houtcome _ _

theorem replyToRefusal_charge (msg : EmailMessage) (e : Exc) (threadJobId : Option Text) (operation : Operation) :
    Charge a b (EmailProcessingPipeline.replyToRefusal out msg e threadJobId operation) b := by
  unfold EmailProcessingPipeline.replyToRefusal
  split_ifs
  · exact replyAndFinalize_charge out msg _ (by decide) _
  · exact replyAndFinalize_charge out msg _ (by decide) _

/-! ### The model -/

theorem generateText_charge (systemPrompt userPrompt : Text) :
    Charge a b (generateText out systemPrompt userPrompt) a :=
  costs_atomic (forward_of_ledger nofun fun _ => rfl)

theorem reply_charge (msg : EmailMessage) (reportId : Text) :
    Charge a b (WeeklyReportReplyService.reply out msg reportId) (a + b) := by
  refine Charge.after (always_observe (covers_costless.look _ rfl) _) fun report => ?_
  cases report with
  | none => exact Nat.zero_le _
  | some report =>
    refine Charge.after (always_observe (covers_costless.look _ rfl) _) fun items => ?_
    refine Costs.bind (generateText_charge out _ _) (fun answer => ?_) le_rfl
    exact Charge.before (enqueue_charge out _ _ _ _ _ _ _) fun _ => always_ret _

variable [PyChars]

theorem parseEmail_charge (p : EmailCommandParser) (bodyText : Text) (names : List Text) (threadJobId : Option Text) :
    Charge a b (p.parseEmail out bodyText names threadJobId) ((p.maxRetries + 1) * a) := by
  have hattempts : ∀ (n : Nat) (userPrompt systemPrompt lastError : Text),
      Charge a b (p.attemptFrom out userPrompt n systemPrompt lastError) (n * a) := by
    intro n userPrompt
    induction n with
    | zero => exact fun _ _ => Nat.zero_le _
    | succ n ih =>
      intro systemPrompt lastError
      refine Costs.bind (generateText_charge out systemPrompt userPrompt) (fun raw => ?_) (j := n * a) ?_
      · cases EmailCommandParser.readCommand out raw with
        | ok cmd => exact Charge.free (always_ret _) _
        | error text => exact ih _ _
      · rw [Nat.add_one_mul, Nat.add_comm]
  exact hattempts _ _ _ _

/-! ### Handlers -/

section
variable (cmd : ValidatedCommand) (req : Request)

omit [PyChars] in
theorem acceptParsed_charge (jobId filename : Text) (receivedAt : Datetime) (vtt : ParsedVtt) :
    Charge a b (SubmitTranscript.acceptParsed out cmd req jobId filename receivedAt vtt) b := by
  refine Charge.after (always_ofExcept _) fun date => ?_
  refine Charge.after (update_always covers_costless trivial _) fun _ => ?_
  refine Charge.after (setStatus_always covers_costless out trivial _ _) fun _ => ?_
  exact Charge.before (request_charge out req _ _ _) fun _ => always_ret _

omit [PyChars] in
theorem acceptFailed_charge (storage : StorageSettings) (jobId storedPath : Text) (e : Exc) :
    Charge a b (SubmitTranscript.acceptFailed out req storage jobId storedPath e) b := by
  have hmove : Always Costless (SubmitTranscript.moveFailed storage jobId storedPath) := by
    refine (fileExists_always covers_costless storedPath).bind fun found => ?_
    split_ifs
    · exact (moveTo_always covers_costless _ _).bind fun _ => update_always covers_costless trivial _
    · trivial
  refine Charge.after (setStatus_always covers_costless out trivial _ _) fun _ => Charge.before ?_ fun _ => always_ret _
  exact Charge.after hmove fun _ => request_charge out req _ _ _

theorem acceptCreated_charge (storage : StorageSettings) (receivedAt : Datetime) (attachment : Attachment)
    (filename jobId : Text) :
    Charge a b (SubmitTranscript.acceptCreated out cmd req storage receivedAt attachment filename jobId) b := by
  refine Charge.after (setStatus_always covers_costless out trivial _ _) fun _ => ?_
  refine Charge.after (saveIncoming_always covers_costless out _ _ _) fun storedPath => ?_
  refine Charge.after (update_always covers_costless trivial _) fun _ => ?_
  refine Charge.after (catching_always _ (parseVtt_always covers_costless out _)) fun parsed => ?_
  cases parsed with
  | ok vtt => exact acceptParsed_charge out cmd req _ _ _ vtt
  | error e => exact acceptFailed_charge out req storage _ _ e

theorem submitAccept_charge (storage : StorageSettings) (attachments : List Attachment) (userId : Nat)
    (sourceMessageId : Text) (receivedAt : Datetime) :
    Charge a b (SubmitTranscript.accept out cmd req storage attachments userId sourceMessageId receivedAt) b := by
  unfold SubmitTranscript.accept
  split
  · exact Nat.zero_le _
  · split
    · exact Nat.zero_le _
    · refine Charge.after (createJob_always covers_costless out coversNewJobs_costless _ _ _ _ _ fun _ _ => trivial)
        fun job => Charge.after (createdJobId_always job) fun jobId => ?_
      exact acceptCreated_charge out cmd req storage receivedAt _ _ jobId

omit [PyChars] in
theorem assessAccept_charge (userId : Nat) (sourceMessageId : Text) :
    Charge a b (AssessQuery.accept out cmd req userId sourceMessageId) b := by
  refine Charge.after (createJob_always covers_costless out coversNewJobs_costless _ _ _ _ _ fun _ _ => trivial)
    fun job => Charge.after (createdJobId_always job) fun jobId => ?_
  refine Charge.after (setStatus_always covers_costless out trivial _ _) fun _ => ?_
  refine Charge.after (setStatus_always covers_costless out trivial _ _) fun _ => ?_
  exact Charge.before (request_charge out req _ _ _) fun _ => always_ret _

theorem status_charge : Charge a b (StatusHandler.handle out cmd req) b :=
  Charge.after (ownedJob_always covers_costless cmd req) fun _ =>
    Charge.before (request_charge out req _ _ _) fun _ => always_ret _

theorem results_charge : Charge a b (ResultsHandler.handle out cmd req) b := by
  refine Charge.after (ownedJob_always covers_costless cmd req) fun job => ?_
  refine Charge.after (resultFile_always covers_costless job) fun _ => ?_
  exact Charge.before (request_charge out req _ _ _) fun _ => always_ret _

theorem cancel_charge : Charge a b (CancelHandler.handle out cmd req) b := by
  refine Charge.after (ownedJob_always covers_costless cmd req) fun job => ?_
  split_ifs
  · refine Charge.after (setStatus_always covers_costless out trivial _ _) fun _ => ?_
    exact Charge.before (request_charge out req _ _ _) fun _ => always_ret _
  · exact Charge.before (request_charge out req _ _ _) fun _ => always_ret _

omit [PyChars] in
theorem help_charge : Charge a b (HelpHandler.handle out req) b :=
  Charge.before (request_charge out req _ _ _) fun _ => always_ret _

end

theorem dispatch_charge (p : EmailProcessingPipeline) (cmd : ValidatedCommand) (msg : EmailMessage)
    (senderEmail : Text) (userId : Nat) : Charge a b (p.dispatch out cmd msg senderEmail userId) b := by
  refine Charge.before ?_ fun _ => always_ret _
  unfold EmailProcessingPipeline.callHandler
  cases cmd.operation with
  | submitTranscript => exact submitAccept_charge out cmd _ _ _ _ _ _
  | status => exact status_charge out cmd _
  | results => exact results_charge out cmd _
  | cancel => exact cancel_charge out cmd _
  | assessQuery => exact assessAccept_charge out cmd _ _ _
  | help => exact help_charge out _

/-! ### The ways through a message -/

/-- What a message on a thread leaves of the price of its reply: all of it where the thread is not continued. -/
def unspent (b : Nat) : Except Exc Bool → Nat
  | .ok false => b
  | _ => 0

theorem continueThread_spends (msg : EmailMessage) (senderEmail : Text) (threadJobId : Option Text) :
    Spends Forward (Stmt.cost a b) (unspent b)
      (EmailProcessingPipeline.continueThread out msg senderEmail threadJobId) b := by
  -- the reply, and then `true`
  have hreply : ∀ mail jobId outcome about, outcome ≠ inProgress → Spends Forward (Stmt.cost a b) (unspent b) (do
      EmailProcessingPipeline.replyTo out msg senderEmail mail jobId
      EmailProcessingPipeline.conclude out msg outcome about (some "clarification")
      return true) b := by
    intro mail jobId outcome about houtcome
    refine Spends.bind (replyTo_charge out msg senderEmail mail jobId) (fun _ => ?_) fun _ => Nat.zero_le _
    refine Spends.bind (Charge.free (conclude_costless out msg houtcome _ _) 0) (fun _ => ?_) fun _ => Nat.zero_le _
    exact Nat.zero_le _
  have hfirst : ∀ {α : Type} {p : M α} {g : α → M Bool}, Always Costless p →
      (∀ x, Spends Forward (Stmt.cost a b) (unspent b) (g x) b) →
        Spends Forward (Stmt.cost a b) (unspent b) (p.bind g) b := fun hp hg =>
    ((hp.mono fun _ _ h => h.free a b : Always _ _).spends b).bind hg fun _ => Nat.zero_le _
  unfold EmailProcessingPipeline.continueThread
  cases truthy threadJobId with
  | none => exact le_rfl
  | some jobId =>
    refine hfirst (always_observe (covers_costless.look _ rfl) _) fun pending => ?_
    cases pending with
    | none => exact le_rfl
    | some pending =>
      simp only
      split
      · refine hfirst (getOwned_always covers_costless _ _) fun job => ?_
        split_ifs
        · exact le_rfl
        · refine hfirst (update_always covers_costless trivial _) fun _ => ?_
          refine hfirst (setStatus_always covers_costless out trivial _ _) fun _ => ?_
          exact hfirst (delete_always covers_costless trivial) fun _ => hreply _ _ _ _ (by decide)
      · exact hreply _ _ _ _ (by decide)

variable (p : EmailProcessingPipeline)

theorem runCommand_charge (msg : EmailMessage) (senderEmail : Text) (userId : Nat) (threadJobId : Option Text)
    (cmd : ParsedCommand) : Charge a b (p.runCommand out msg senderEmail userId threadJobId cmd) (2 * b) := by
  refine Charge.after (catching_always _ (validateCommand_always covers_costless cmd _)) fun validated => ?_
  cases validated with
  | error e => exact Costs.mono (replyToRefusal_charge out msg e _ _) (by omega)
  | ok validated =>
    -- a handler that raises may have put its mail into the outbox before
    refine Costs.bind (Charge.catching (dispatch_charge out p validated msg senderEmail userId) _)
      (fun jobId => ?_) (Nat.two_mul b).ge
    cases jobId with
    | error e => exact replyToRefusal_charge out msg e _ _
    | ok jobId => exact Charge.free (conclude_costless out msg (by decide) _ _) b

theorem interpret_charge (msg : EmailMessage) (senderEmail : Text) (userId : Nat) (threadJobId : Option Text) :
    Charge a b (p.interpret out msg senderEmail userId threadJobId) ((p.parser.maxRetries + 1) * a + 2 * b) := by
  refine Costs.bind (Charge.catching (parseEmail_charge out p.parser _ _ _) _) (fun parsed => ?_) le_rfl
  cases parsed with
  | error e =>
    refine Costs.bind (replyAndFinalize_charge out msg _ (by decide) _) (fun _ => ?_) (Nat.two_mul b).ge
    exact Charge.before (alert_charge out _ _ _ _) fun _ => always_ret _
  | ok cmd => exact runCommand_charge out p msg senderEmail userId threadJobId cmd

theorem handleRequest_charge (msg : EmailMessage) (senderEmail : Text) (userId : Nat) :
    Charge a b (p.handleRequest out msg senderEmail userId) ((p.parser.maxRetries + 1) * a + 2 * b) := by
  have hall : b + ((p.parser.maxRetries + 1) * a + b) = (p.parser.maxRetries + 1) * a + 2 * b := by omega
  refine Charge.after (matchJob_always covers_costless msg senderEmail) fun threadJobId => ?_
  rw [← hall]
  refine Spends.bind ((continueThread_spends out msg senderEmail threadJobId).frame _) (fun continued => ?_)
    fun _ => Nat.zero_le _
  cases continued with
  | true => exact Nat.zero_le _
  | false =>
    show Charge a b _ (b + ((p.parser.maxRetries + 1) * a + b))
    rw [hall]
    refine Charge.after (always_observe ollama_costless _) fun available => ?_
    split_ifs
    · exact interpret_charge out p msg senderEmail userId threadJobId
    · refine Costs.mono (Charge.before (alert_charge out _ _ _ _) fun _ => always_ret _) ?_
      omega

omit [PyChars] in
theorem answerReport_charge (msg : EmailMessage) (report : WeeklyReport) :
    Charge a b (EmailProcessingPipeline.answerReport out msg report) (a + b) := by
  refine Charge.after (always_observe ollama_costless _) fun available => ?_
  split_ifs
  · exact Charge.before (reply_charge out msg _) fun _ => conclude_costless out msg (by decide) _ _
  · exact Charge.free (always_ret _) _

omit [PyChars] in
theorem handleStranger_charge (msg : EmailMessage) (auth : SenderAuthResult) :
    Charge a b (p.handleStranger out msg auth) (2 * b) := by
  have hrest : ∀ summary outcome, outcome ≠ inProgress → Charge a b (do
      let _ ← p.admin.alert out .unauthorisedSender summary []
      EmailProcessingPipeline.conclude out msg outcome none none) b := fun summary outcome houtcome =>
    Charge.before (alert_charge out _ _ _ _) fun _ => conclude_costless out msg houtcome _ _
  unfold EmailProcessingPipeline.handleStranger
  split_ifs
  · exact Costs.bind (replyTo_charge out msg _ _ _) (fun _ => hrest _ _ (by decide)) (Nat.two_mul b).ge
  · exact Costs.mono (hrest _ _ (by decide)) (by omega)

theorem handleOwner_charge {match? : EmailMessage → Text → M (Option WeeklyReport)}
    (hmatch : ∀ msg senderEmail, Always Costless (match? msg senderEmail)) (msg : EmailMessage) (senderEmail : Text)
    (userId : Nat) :
    Charge a b (p.handleOwner out match? msg senderEmail userId) ((p.parser.maxRetries + 1) * a + 2 * b) := by
  refine Charge.after (hmatch msg senderEmail) fun report => ?_
  cases report with
  | some report =>
    refine Costs.mono (answerReport_charge out msg report) ?_
    rw [Nat.add_one_mul]
    omega
  | none => exact handleRequest_charge out p msg senderEmail userId

end

end GroupAssessmentAgent
