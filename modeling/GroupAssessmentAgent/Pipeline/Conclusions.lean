import GroupAssessmentAgent.Pipeline.Ledger

/-!
# What is marked has been decided

The pipeline marks a message at the provider in `conclude`, after `finalize`, and where `begin` returns False. In
both cases the ledger admits the message no longer, and an entry that admits nothing stays so (`Entry.Moves`). Hence
`MarkedSettled`: whatever fails in a poll, and wherever it is cut short, no marked message is one that `begin` would
still let in (`marked_decided`). That is weaker than a final outcome: a message whose attempts are used up is marked
while its row still says `in_progress`.
-/

namespace GroupAssessmentAgent
open Prog

/-- Every step may be taken, and may raise; an `IntegrityError` comes only from a constraint. -/
def Failing : Env Stmt World Exc := ⟨fun _ _ => True, fun _ _ e => e.kind ≠ .integrityError⟩

/-- What this module looks at. -/
def ledgerAndMarks (w : World) : Table ProcessedMessage.messageId × List Text := (w.processedMessages, w.seen)

theorem overlooks_ledgerAndMarks : Overlooks ledgerAndMarks := by
  constructor <;> intros <;> rfl

theorem overlooks_seen : Overlooks World.seen := by
  constructor <;> intros <;> rfl

/-- What happens besides the polls. -/
def SameMarks (w w' : World) : Prop := ledgerAndMarks w' = ledgerAndMarks w

theorem SameMarks.refl (w : World) : SameMarks w w := rfl

theorem SameMarks.trans {a b c : World} (h : SameMarks a b) (h' : SameMarks b c) : SameMarks a c :=
  Eq.trans h' h

theorem SameMarks.entry {w w' : World} (h : SameMarks w w') (messageId : Text) :
    entryOf w' messageId = entryOf w messageId := by
  have hrows : w'.processedMessages = w.processedMessages := congrArg Prod.fst h
  rw [entryOf, hrows, entryOf]

/-- The ledger has a final outcome for the message. -/
def Concluded (w : World) (messageId : Text) : Prop :=
  ∃ row, w.processedMessages.find? messageId = some row ∧ row.outcome ≠ inProgress

theorem concluded_iff (w : World) (messageId : Text) :
    Concluded w messageId ↔ ∃ outcome, entryOf w messageId = .closed outcome := by
  rw [Concluded, entryOf]
  cases w.processedMessages.find? messageId with
  | none => simp
  | some row => by_cases h : row.outcome = inProgress <;> simp [ProcessedMessage.entry, h]

/-- The ledger has the message in progress, with all its attempts used up. -/
def Exhausted (w : World) (messageId : Text) : Prop :=
  ∃ row, w.processedMessages.find? messageId = some row ∧ row.outcome = inProgress ∧
    maxProcessingAttempts ≤ row.attemptCount

theorem not_admitted_iff (w : World) (messageId : Text) :
    ¬ Admitted w messageId ↔ Concluded w messageId ∨ Exhausted w messageId := by
  rw [Admitted, entryOf, Concluded, Exhausted]
  cases w.processedMessages.find? messageId with
  | none => simp [Entry.Admits]
  | some row =>
    simp only [Option.elim, ProcessedMessage.entry, Option.some.injEq, exists_eq_left']
    by_cases h : row.outcome = inProgress
    · simp [h, Entry.Admits]
    · simp [h, Entry.Admits]

section
variable (mailbox : Text → Option EmailMessage)

/-- The message is the one the mailbox holds, apart from the time of its arrival (where the message has no date,
that is the time of the poll). -/
def Holds (msg : EmailMessage) : Prop :=
  (mailbox msg.providerRef).map (fun m => { m with receivedAt := msg.receivedAt }) = some msg

variable {mailbox} in
theorem Holds.messageId {msg msg' : EmailMessage} (h : Holds mailbox msg)
    (hmsg' : mailbox msg.providerRef = some msg') : msg'.messageId = msg.messageId := by
  rw [Holds, hmsg', Option.map_some, Option.some.injEq] at h
  rw [← h]

/-- No marked message is one that the ledger still admits. -/
def MarkedSettled (w : World) : Prop :=
  ∀ ref ∈ w.seen, ∀ msg, mailbox ref = some msg → ¬ Admitted w msg.messageId

/-- The guarantee of a poll. -/
def KeepsSettled (w w' : World) : Prop := MarkedSettled mailbox w → MarkedSettled mailbox w'

theorem LedgerMove.keepsSettled {w w' : World} (h : LedgerMove w w') : KeepsSettled mailbox w w' := by
  obtain ⟨⟨t, n, rfl⟩, hmoves⟩ := h
  exact fun hw ref href msg hmsg => (hmoves msg.messageId).not_admits (hw ref href msg hmsg)

theorem SameMarks.keepsSettled {w w' : World} (h : SameMarks w w') : KeepsSettled mailbox w w' := by
  intro hw ref href msg hmsg
  have hseen : w'.seen = w.seen := congrArg Prod.snd h
  rw [Admitted, h.entry]
  exact hw ref (hseen ▸ href) msg hmsg

/-- A message is left as it was, or its entry is closed. -/
def LeftOrClosed (messageId : Text) (w w' : World) : Prop :=
  entryOf w' messageId = entryOf w messageId ∧ w'.seen = w.seen ∨ ∃ outcome, entryOf w' messageId = .closed outcome

/-- The judgement of a program that handles a message on record. -/
def Handles (messageId : Text) {α : Type} (p : M α) : Prop :=
  ∀ w, entryOf w messageId ≠ .unseen →
    RG Failing SameMarks (KeepsSettled mailbox) (fun _ w' => LeftOrClosed messageId w w') p w

variable {mailbox} {messageId : Text} {α β : Type}

theorem LeftOrClosed.ne_unseen {w w' : World} (h : LeftOrClosed messageId w w') (hw : entryOf w messageId ≠ .unseen) :
    entryOf w' messageId ≠ .unseen := by
  rcases h with ⟨hentry, _⟩ | ⟨outcome, hclosed⟩
  · rwa [hentry]
  · simp [hclosed]

theorem SameMarks.left {w w' : World} (h : SameMarks w w') : LeftOrClosed messageId w w' :=
  .inl ⟨h.entry messageId, congrArg Prod.snd h⟩

theorem LeftOrClosed.trans {a b c : World} (h : LeftOrClosed messageId a b) (h' : LeftOrClosed messageId b c) :
    LeftOrClosed messageId a c := by
  rcases h' with ⟨hentry', hseen'⟩ | hclosed
  · rcases h with ⟨hentry, hseen⟩ | ⟨outcome, hclosed⟩
    · exact .inl ⟨hentry'.trans hentry, hseen'.trans hseen⟩
    · exact .inr ⟨outcome, hentry'.trans hclosed⟩
  · exact .inr hclosed

theorem Handles.of_keeps {p : M α} (hp : Keeps ledgerAndMarks p) : Handles mailbox messageId p :=
  fun w _ => (hp.rg (fun _ _ h => h) (fun _ _ h => SameMarks.keepsSettled mailbox h) w).mono (fun _ _ h => h)
    fun _ _ hs => SameMarks.left hs

theorem Handles.bind {p : M α} {g : α → M β} (hp : Handles mailbox messageId p)
    (hg : ∀ a, Handles mailbox messageId (g a)) : Handles mailbox messageId (p.bind g) :=
  fun w hw => RG.bind SameMarks.refl (hp w hw)
    (fun a s hs => (hg a s (hs.ne_unseen hw)).mono (fun _ _ h => h) fun _ _ h => hs.trans h) fun _ _ hs => hs

theorem stable_leftOrClosed (w : World) : Stable SameMarks (LeftOrClosed messageId w) :=
  fun _ _ h hw => hw.trans h.left

/-- `conclude` marks a message only after its entry is closed. -/
theorem conclude_handles {msg : EmailMessage} (hmsg : Holds mailbox msg) (out : Outside)
    {outcome : Text} (houtcome : outcome ≠ inProgress) (jobId operation : Option Text) :
    Handles mailbox msg.messageId (EmailProcessingPipeline.conclude out msg outcome jobId operation) := by
  intro w hw
  have hR := fun w w' (h : SameMarks w w') => h.entry msg.messageId
  have hclose := (entryOf w msg.messageId).close_of_ne hw
  have hfinal : RG Failing SameMarks (KeepsSettled mailbox)
      (fun x w' => (∀ b, x = .ok b → entryOf w' msg.messageId = .closed outcome) ∧
        ∀ e, x = .error e → LeftOrClosed msg.messageId w w')
      (ProcessedMessageStore.finalize out msg.messageId outcome jobId operation) w := by
    have hkeeps : Keeps World.seen (ProcessedMessageStore.finalize out msg.messageId outcome jobId operation) :=
      finalize_always overlooks_seen.covers out (coversLedger_of_overlooks fun _ _ => rfl) trivial _ _ _
    have hseen : RG Failing SameMarks (fun _ _ => True) (fun _ w' => w'.seen = w.seen)
        (ProcessedMessageStore.finalize out msg.messageId outcome jobId operation) w :=
      hkeeps.rg (fun _ _ h => congrArg Prod.snd h) (fun _ _ _ => trivial) w
    refine ((finalize_rg SameMarks.refl hR out houtcome jobId operation rfl).and hseen).mono
      (fun _ _ h => h.1.keepsSettled mailbox) fun x s hs => ?_
    cases x with
    | ok _ => exact ⟨fun _ _ => hs.1.trans (hclose outcome), nofun⟩
    | error _ => exact ⟨nofun, fun _ _ => .inl ⟨hs.1.1, hs.2⟩⟩
  refine RG.bind SameMarks.refl hfinal (fun b s hs => ?_) fun e _ hs => hs.2 e rfl
  have hclosed := hs.1 b rfl
  refine rg_change (stable_entry hR fun e => e = .closed outcome) (fun _ => stable_leftOrClosed w)
    (fun s hs _ => ⟨fun hset ref href msg' hmsg' => ?_, ?_⟩) (fun s _ hs _ => .inr ⟨outcome, hs⟩) hclosed
  · rcases List.mem_cons.1 href with rfl | href
    · rw [hmsg.messageId hmsg']
      show ¬ Entry.Admits maxProcessingAttempts (entryOf s msg.messageId)
      rw [hs]
      exact id
    · exact hset ref href msg' hmsg'
  · exact .inr ⟨outcome, hs⟩

end

/-! ### The ways through a message -/

section
variable [PyChars] (out : Outside) (p : EmailProcessingPipeline) {mailbox : Text → Option EmailMessage}
  {msg : EmailMessage} (hmsg : Holds mailbox msg)

omit [PyChars] in
theorem replyTo_handles (toEmail : Text) (mail : Rendered) (jobId : Option Text) :
    Handles mailbox msg.messageId (EmailProcessingPipeline.replyTo out msg toEmail mail jobId) :=
  .of_keeps (replyTo_always overlooks_ledgerAndMarks.covers out msg toEmail mail jobId fun _ _ _ => trivial)

omit [PyChars] in
theorem alert_handles (category : AdminCategory) (summary : Text) (detail : List (Text × Text)) :
    Handles mailbox msg.messageId (p.admin.alert out category summary detail) :=
  .of_keeps (alert_always overlooks_ledgerAndMarks.covers out p.admin category summary detail fun _ _ _ _ => trivial)

include hmsg

omit [PyChars] in
theorem replyAndFinalize_handles (mail : Rendered) {outcome : Text} (houtcome : outcome ≠ inProgress)
    (operation : Option Text) :
    Handles mailbox msg.messageId (EmailProcessingPipeline.replyAndFinalize out msg mail outcome operation) :=
  (replyTo_handles out msg.fromAddress mail none).bind fun _ => conclude_handles hmsg out houtcome none operation

theorem applyClarification_handles (senderEmail jobId selected : Text) :
    Handles mailbox msg.messageId (EmailProcessingPipeline.applyClarification out msg senderEmail jobId selected) := by
  refine Handles.bind (.of_keeps (keeps_observe _ _ _)) fun job => ?_
  split_ifs
  · exact .of_keeps trivial
  · refine Handles.bind (.of_keeps (update_always overlooks_ledgerAndMarks.covers trivial _)) fun _ => ?_
    refine Handles.bind (.of_keeps (setStatus_always overlooks_ledgerAndMarks.covers out trivial _ _)) fun _ => ?_
    refine Handles.bind (.of_keeps (delete_always overlooks_ledgerAndMarks.covers trivial)) fun _ => ?_
    refine (replyTo_handles out _ _ _).bind fun _ => ?_
    exact (conclude_handles hmsg out (by decide) _ _).bind fun _ => .of_keeps trivial

theorem continueThread_handles (senderEmail : Text) (threadJobId : Option Text) :
    Handles mailbox msg.messageId (EmailProcessingPipeline.continueThread out msg senderEmail threadJobId) := by
  unfold EmailProcessingPipeline.continueThread
  cases truthy threadJobId with
  | none => exact .of_keeps trivial
  | some jobId =>
    refine Handles.bind (.of_keeps (keeps_observe _ _ _)) fun pending => ?_
    cases pending with
    | none => exact .of_keeps trivial
    | some pending =>
      simp only
      split
      · exact applyClarification_handles out hmsg _ _ _
      · refine (replyTo_handles out _ _ _).bind fun _ => ?_
        exact (conclude_handles hmsg out (by decide) _ _).bind fun _ => .of_keeps trivial

omit [PyChars] in
theorem answerReport_handles (report : WeeklyReport) :
    Handles mailbox msg.messageId (EmailProcessingPipeline.answerReport out msg report) := by
  refine Handles.bind (.of_keeps (keeps_observe _ _ _)) fun available => ?_
  split_ifs
  · refine Handles.bind (.of_keeps (reply_always overlooks_ledgerAndMarks.covers out
        overlooks_ledgerAndMarks.coversModel msg _ fun _ _ _ => trivial)) fun _ => ?_
    exact conclude_handles hmsg out (by decide) _ _
  · exact .of_keeps trivial

omit [PyChars] in
theorem replyToRefusal_handles (e : Exc) (threadJobId : Option Text) (operation : Operation) :
    Handles mailbox msg.messageId (EmailProcessingPipeline.replyToRefusal out msg e threadJobId operation) := by
  unfold EmailProcessingPipeline.replyToRefusal
  split_ifs
  · exact replyAndFinalize_handles out hmsg _ (by decide) _
  · exact replyAndFinalize_handles out hmsg _ (by decide) _

theorem runCommand_handles (senderEmail : Text) (userId : Nat) (threadJobId : Option Text) (cmd : ParsedCommand) :
    Handles mailbox msg.messageId (p.runCommand out msg senderEmail userId threadJobId cmd) := by
  refine Handles.bind (.of_keeps (catching_always _
    (validateCommand_always overlooks_ledgerAndMarks.covers cmd _))) fun validated => ?_
  cases validated with
  | error e => exact replyToRefusal_handles out hmsg e _ _
  | ok validated =>
    refine Handles.bind (.of_keeps (catching_always _ ?_)) fun jobId => ?_
    · have hnew : OverlooksNewJobs ledgerAndMarks := fun _ _ => rfl
      exact dispatch_always overlooks_ledgerAndMarks.covers out (fun _ => trivial) hnew.covers p validated
          msg senderEmail
        userId fun _ _ => trivial
    · cases jobId with
      | error e => exact replyToRefusal_handles out hmsg e _ _
      | ok jobId => exact conclude_handles hmsg out (by decide) _ _

theorem interpret_handles (senderEmail : Text) (userId : Nat) (threadJobId : Option Text) :
    Handles mailbox msg.messageId (p.interpret out msg senderEmail userId threadJobId) := by
  refine Handles.bind (.of_keeps (catching_always _
    (parseEmail_always out overlooks_ledgerAndMarks.coversModel p.parser _ _ _)))
    fun parsed => ?_
  cases parsed with
  | error e =>
    refine (replyAndFinalize_handles out hmsg _ (by decide) _).bind fun _ => ?_
    exact (alert_handles out p _ _ _).bind fun _ => .of_keeps trivial
  | ok cmd => exact runCommand_handles out p hmsg _ _ _ cmd

theorem handleRequest_handles (senderEmail : Text) (userId : Nat) :
    Handles mailbox msg.messageId (p.handleRequest out msg senderEmail userId) := by
  refine Handles.bind (.of_keeps (matchJob_always overlooks_ledgerAndMarks.covers msg senderEmail))
    fun threadJobId => ?_
  refine (continueThread_handles out hmsg senderEmail threadJobId).bind fun continued => ?_
  split_ifs
  · exact .of_keeps trivial
  · refine Handles.bind (.of_keeps (keeps_observe _ _ _)) fun available => ?_
    split_ifs
    · exact interpret_handles out p hmsg senderEmail userId threadJobId
    · exact (alert_handles out p _ _ _).bind fun _ => .of_keeps trivial

omit [PyChars] in
theorem handleStranger_handles (auth : SenderAuthResult) :
    Handles mailbox msg.messageId (p.handleStranger out msg auth) := by
  unfold EmailProcessingPipeline.handleStranger
  split_ifs
  · refine (replyTo_handles out _ _ _).bind fun _ => (alert_handles out p _ _ _).bind fun _ => ?_
    exact conclude_handles hmsg out (by decide) _ _
  · exact (alert_handles out p _ _ _).bind fun _ => conclude_handles hmsg out (by decide) _ _

theorem handleOwner_handles {match? : EmailMessage → Text → M (Option WeeklyReport)}
    (hmatch : ∀ msg senderEmail, Keeps ledgerAndMarks (match? msg senderEmail)) (senderEmail : Text) (userId : Nat) :
    Handles mailbox msg.messageId (p.handleOwner out match? msg senderEmail userId) := by
  refine Handles.bind (.of_keeps (hmatch msg senderEmail)) fun report => ?_
  cases report with
  | some report => exact answerReport_handles out hmsg report
  | none => exact handleRequest_handles out p hmsg senderEmail userId

theorem processMessage_rg (w : World) :
    Inside Failing SameMarks (KeepsSettled mailbox) (p.processMessage out msg) w := by
  have hR := fun w w' (h : SameMarks w w') => h.entry msg.messageId
  have hbegin : RG Failing SameMarks (KeepsSettled mailbox)
      (fun x s => Begun Failing (entryOf w msg.messageId) x (entryOf s msg.messageId))
      (ProcessedMessageStore.begin out msg.messageId (orText (p.authOf msg).senderEmail msg.fromAddress)
        (p.authOf msg).reason.value) w :=
    (begin_rg SameMarks.refl hR (fun _ _ _ h => h) out _ _ rfl).mono (fun _ _ h => h.keepsSettled mailbox)
      fun _ _ h => h
  refine RG.bind SameMarks.refl hbegin (fun fresh s hs => ?_) fun _ _ _ => trivial
  · cases fresh with
    | false =>
      refine rg_change (P := fun s => ¬ Admitted s msg.messageId)
        (stable_entry hR fun e => ¬ e.Admits maxProcessingAttempts) (fun _ _ _ _ _ => trivial)
        (fun s hs _ => ⟨fun hset ref href msg' hmsg' => ?_, trivial⟩) (fun _ _ _ _ => trivial) ?_
      · rcases List.mem_cons.1 href with rfl | href
        · rw [hmsg.messageId hmsg']
          exact hs
        · exact hset ref href msg' hmsg'
      · rw [Admitted, hs.2]
        exact hs.1
    | true =>
      have hseen : entryOf s msg.messageId ≠ .unseen := hs.2 ▸ Entry.next_ne_unseen _
      simp only [Bool.not_true, Bool.false_eq_true, if_false]
      have hreports : ∀ msg senderEmail, Keeps ledgerAndMarks (EmailProcessingPipeline.matchReport msg senderEmail) :=
        fun msg senderEmail => matchReport_always overlooks_ledgerAndMarks.covers msg senderEmail
      split_ifs
      · exact (handleOwner_handles out p hmsg hreports _ _ s hseen).inside
      · exact (handleStranger_handles out p hmsg _ s hseen).inside

omit hmsg in
theorem pollOnce_rg {fetched : Except Exc (List EmailMessage)}
    (hfetched : ∀ msgs, fetched = .ok msgs → ∀ msg ∈ msgs, Holds mailbox msg) (w : World) :
    Inside Failing SameMarks (KeepsSettled mailbox) (p.pollOnce out fetched) w := by
  have hall : ∀ msgs : List EmailMessage, (∀ msg ∈ msgs, Holds mailbox msg) → ∀ w,
      Inside Failing SameMarks (KeepsSettled mailbox)
        (p.processAllWith out EmailProcessingPipeline.matchReport msgs) w := by
    intro msgs
    induction msgs with
    | nil => exact fun _ w _ _ => trivial
    | cons msg msgs ih =>
      intro hmsgs w
      have hone := processMessage_rg out p (hmsgs msg List.mem_cons_self) w
      refine Inside.bind SameMarks.refl (Inside.tryCatch SameMarks.refl hone fun _ s => ?_) fun _ s => ?_
      · exact fun _ _ => trivial
      · exact ih (fun m hm => hmsgs m (List.mem_cons_of_mem _ hm)) s
  intro s _
  refine ⟨fun _ => ⟨fun h => h, ?_⟩, fun _ _ _ _ => trivial⟩
  cases hf : fetched with
  | error e => exact fun _ _ => trivial
  | ok msgs => exact (hall msgs (hfetched msgs hf) s).bind SameMarks.refl fun _ _ _ _ => trivial

end

/-! ### Runs -/

section
variable [PyChars] (out : Outside) (p : EmailProcessingPipeline) (mailbox : Text → Option EmailMessage)

/-- The polls: each fetches some messages of the mailbox, or fails to. -/
def PollCall (_ : Unit) (q : M Nat) (_ : World) : Prop :=
  ∃ fetched, (∀ msgs, fetched = .ok msgs → ∀ msg ∈ msgs, Holds mailbox msg) ∧ q = p.pollOnce out fetched

/-- A run of polls, in which every step may raise and every poll may be cut short, from a mailbox without marks. -/
def PollRun (w : World) (c : (Unit → M Nat) × World) : Prop :=
  w.seen = [] ∧ PoolSteps Failing SameMarks (PollCall out p mailbox) (fun _ => ret 0, w) c

/-- In every state of every run, `P` holds of every owner's message that is marked. -/
def MarkedOnly (P : World → Text → Prop) : Prop :=
  ∀ w c, PollRun out p mailbox w c → ∀ ref ∈ c.2.seen, ∀ msg, mailbox ref = some msg →
    (p.authOf msg).reason = .authorised → P c.2 msg.messageId

theorem pollOnce_spec : PoolSpec Failing SameMarks (PollCall out p mailbox) (fun _ => SameMarks)
    (fun _ => KeepsSettled mailbox) (fun _ _ => True) where
  refl _ := SameMarks.refl
  trans _ _ _ _ := SameMarks.trans
  others t u h := absurd (Subsingleton.elim t u) h
  around _ _ _ h := h
  called := by
    rintro t q w ⟨fetched, hfetched, rfl⟩
    exact pollOnce_rg out p hfetched w

/-- **What is marked has been decided**: a marked message has its final outcome, or no attempt left. -/
theorem marked_decided : MarkedOnly out p mailbox fun w messageId => Concluded w messageId ∨ Exhausted w messageId := by
  rintro w c ⟨hstart, hrun⟩
  have hstarted : MarkedSettled mailbox w := fun ref href => by simp [hstart] at href
  have hsettled : MarkedSettled mailbox c.2 :=
    (pollOnce_spec out p mailbox).inv (fun _ _ _ h => h) (fun _ _ h => h.keepsSettled mailbox) hrun
      (fun _ _ _ => trivial) hstarted
  intro ref href msg hmsg _
  exact (not_admitted_iff c.2 msg.messageId).1 (hsettled ref href msg hmsg)

end

/-- The mailbox with the owner's message alone. -/
def aliceMailbox (ref : Text) : Option EmailMessage :=
  if ref = aliceMessage.providerRef then some aliceMessage else none

section
attribute [local instance] asciiChars

/-- The state after `n` polls of that mailbox. -/
def alicePolls : Nat → World
  | 0 => {}
  | n + 1 => (smallPipeline.pollOnce .plain (.ok [aliceMessage])).run (alicePolls n) |>.2

theorem alicePolls_run (n : Nat) : ∃ c, PollRun .plain smallPipeline aliceMailbox {} (c, alicePolls n) := by
  induction n with
  | zero => exact ⟨_, rfl, .refl⟩
  | succ n ih =>
    obtain ⟨c, hstart, hrun⟩ := ih
    have hcall : PollCall .plain smallPipeline aliceMailbox ()
        (smallPipeline.pollOnce .plain (.ok [aliceMessage])) (alicePolls n) := by
      refine ⟨_, fun msgs hmsgs msg hmsg => ?_, rfl⟩
      cases hmsgs
      obtain rfl := List.mem_singleton.1 hmsg
      rfl
    exact ⟨_, hstart, hrun.call hcall (steps_run Failing (fun _ _ => trivial) _ _)⟩

/-- The match against the weekly reports raises in three polls, and in the fourth `begin` returns False: the message is
marked, and its row still says `in_progress`. -/
theorem exhausted_marked : ¬ MarkedOnly .plain smallPipeline aliceMailbox Concluded := by
  intro h
  obtain ⟨c, hrun⟩ := alicePolls_run 4
  have hmarked : aliceMessage.providerRef ∈ (alicePolls 4).seen := by decide +kernel
  obtain ⟨outcome, hclosed⟩ := (concluded_iff _ _).1 (h _ _ hrun _ hmarked aliceMessage rfl (by decide +kernel))
  have hopen : entryOf (alicePolls 4) aliceMessage.messageId = .started 3 := by decide +kernel
  cases hclosed.symm.trans hopen

end

end GroupAssessmentAgent
