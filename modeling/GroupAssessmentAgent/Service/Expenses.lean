import GroupAssessmentAgent.Outbox.Delivery
import GroupAssessmentAgent.Pipeline.Conclusions
import GroupAssessmentAgent.Pipeline.Costs
import GroupAssessmentAgent.Service.Addressees

/-!
# What a message costs

Nobody can make the service work without end: over a whole run of the mail loop beside any number of workers and weekly
commands, whatever fails in it, however often it dies and is started again, a Message-ID gets at most
`maxProcessingAttempts` times the answers of one parse from the model, and at most twice as many mails as attempts are
put into the outbox for it (`message_costs`).

A history variable counts the answers and the mails by the message whose handling has begun last. Each attempt that
`begin` lets in uses up one of the attempts of the message, and that pays for everything the attempt is charged.
-/

namespace GroupAssessmentAgent
open Prog

/-- What handling messages has cost, by Message-ID. -/
structure Expenses where
  /-- The message whose handling has begun last. -/
  current : Text := ""
  generations : Text → Nat := fun _ => 0
  mails : Text → Nat := fun _ => 0

/-- One more for this message. -/
def countFor (messageId : Text) (counts : Text → Nat) : Text → Nat :=
  Function.update counts messageId (counts messageId + 1)

/-- The variable after a statement. -/
def recordExpenses (l : Stmt) (_ _ : World) (x : Expenses) : Expenses :=
  match l with
  | .insertProcessed messageId => { x with current := messageId }
  | .generate => { x with generations := countFor x.current x.generations }
  | .insertOutbox => { x with mails := countFor x.current x.mails }
  | _ => x

/-- What a message has cost, at these prices. -/
def Expenses.spent (a b : Nat) (x : Expenses) (messageId : Text) : Nat :=
  x.generations messageId * a + x.mails messageId * b

theorem countFor_eq (messageId : Text) (counts : Text → Nat) (messageId' : Text) :
    countFor messageId counts messageId' = counts messageId' + if messageId' = messageId then 1 else 0 := by
  rw [countFor, Function.update_apply]
  split_ifs with hid
  · rw [hid]
  · rfl

theorem spent_record (a b : Nat) (l : Stmt) (w w' : World) (x : Expenses) (messageId : Text) :
    (recordExpenses l w w' x).spent a b messageId =
      x.spent a b messageId + if messageId = x.current then l.cost a b else 0 := by
  have hfree : ∀ y : Expenses, y.generations = x.generations → y.mails = x.mails →
      y.spent a b messageId = x.spent a b messageId + if messageId = x.current then 0 else 0 := by
    intro y hgenerations hmails
    rw [ite_self, Expenses.spent, hgenerations, hmails, Expenses.spent, Nat.add_zero]
  cases l with
  | generate =>
    simp only [recordExpenses, Expenses.spent, countFor_eq, Stmt.cost]
    split_ifs
    · rw [Nat.add_one_mul]
      omega
    · rfl
  | insertOutbox =>
    simp only [recordExpenses, Expenses.spent, countFor_eq, Stmt.cost]
    split_ifs
    · rw [Nat.add_one_mul]
      omega
    · rfl
  | _ => exact hfree _ rfl rfl

theorem current_record {l : Stmt} (hl : ∀ messageId, l ≠ .insertProcessed messageId) (w w' : World) (x : Expenses) :
    (recordExpenses l w w' x).current = x.current := by
  cases l with
  | insertProcessed messageId => exact absurd rfl (hl messageId)
  | _ => rfl

theorem record_costless {l : Stmt} {f : World → World} (h : Costless l f) (w w' : World) (x : Expenses) :
    recordExpenses l w w' x = x := by
  cases l with
  | insertProcessed messageId => exact absurd rfl (h.1.1 messageId)
  | generate => exact absurd rfl h.2.1
  | insertOutbox => exact absurd rfl h.2.2
  | _ => rfl

/-! ### Credits -/

section
variable (a b B : Nat)

/-- Each attempt used up pays `B`, and that covers what the messages have cost. -/
def Affordable (c : World × Expenses) : Prop :=
  ∀ messageId, c.2.spent a b messageId ≤ attemptsUsed c.1 messageId * B

/-- The message is being handled, and `n` of what its attempts pay are not spent. -/
def Prepaid (messageId : Text) (n : Nat) (c : World × Expenses) : Prop :=
  c.2.current = messageId ∧
    ∀ messageId', c.2.spent a b messageId' + (if messageId' = messageId then n else 0) ≤
      attemptsUsed c.1 messageId' * B

/-- What happens besides the mail loop: whatever leaves the ledger alone. -/
def OffLedger (c c' : World × Expenses) : Prop := c'.1.processedMessages = c.1.processedMessages ∧ c'.2 = c.2

theorem OffLedger.refl (c : World × Expenses) : OffLedger c c := ⟨rfl, rfl⟩

theorem OffLedger.trans {c c' c'' : World × Expenses} (h : OffLedger c c') (h' : OffLedger c' c'') :
    OffLedger c c'' :=
  ⟨h'.1.trans h.1, h'.2.trans h.2⟩

variable {a b B} {messageId : Text} {n : Nat}

theorem OffLedger.attemptsUsed {c c' : World × Expenses} (h : OffLedger c c') (messageId : Text) :
    attemptsUsed c'.1 messageId = attemptsUsed c.1 messageId := by
  rw [GroupAssessmentAgent.attemptsUsed, GroupAssessmentAgent.attemptsUsed, entryOf, entryOf, h.1]

theorem stable_affordable : Stable OffLedger (Affordable a b B) := by
  intro c c' h hc messageId
  rw [h.2, h.attemptsUsed]
  exact hc messageId

theorem stable_prepaid (n : Nat) : Stable OffLedger (Prepaid a b B messageId n) := by
  rintro c c' h ⟨hcurrent, hc⟩
  refine ⟨h.2 ▸ hcurrent, fun messageId' => ?_⟩
  rw [h.2, h.attemptsUsed]
  exact hc messageId'

theorem Prepaid.affordable {c : World × Expenses} (h : Prepaid a b B messageId n c) : Affordable a b B c :=
  fun messageId' => (Nat.le_add_right _ _).trans (h.2 messageId')

theorem Prepaid.less {k n : Nat} {c : World × Expenses} (hkn : k ≤ n) (h : Prepaid a b B messageId n c) :
    Prepaid a b B messageId k c := by
  refine ⟨h.1, fun messageId' => le_trans ?_ (h.2 messageId')⟩
  split_ifs
  · exact Nat.add_le_add_left hkn _
  · exact le_rfl

theorem Prepaid.pay {l : Stmt} {f : World → World} (hf : Forward l f) {c : World × Expenses}
    (h : Prepaid a b B messageId (n + l.cost a b) c) :
    Prepaid a b B messageId n (f c.1, recordExpenses l c.1 (f c.1) c.2) := by
  obtain ⟨hcurrent, hpaid⟩ := h
  refine ⟨(current_record hf.1 c.1 (f c.1) c.2).trans hcurrent, fun messageId' => ?_⟩
  have hused : attemptsUsed c.1 messageId' * B ≤ attemptsUsed (f c.1) messageId' * B :=
    Nat.mul_le_mul_right B (hf.2 c.1 messageId')
  have hbefore := hpaid messageId'
  rw [spent_record, hcurrent]
  show _ ≤ attemptsUsed (f c.1) messageId' * B
  split_ifs at hbefore ⊢ <;> omega

section
variable {α : Type} {p : M α} {c : World × Expenses}

variable (a b B) in
/-- At every step of the program, what the messages have cost is covered. -/
abbrev StaysAffordable (p : M α) (c : World × Expenses) : Prop :=
  RG (Failing.watched Expenses) OffLedger (fun _ => Affordable a b B) (fun _ => Affordable a b B)
    (watch recordExpenses p) c

theorem Costless.rg (hp : Always Costless p) (hc : Affordable a b B c) : StaysAffordable a b B p c := by
  have hkept : ∀ l f, Costless l f → Preserves recordExpenses (Affordable a b B) l f := by
    intro l f hf c hc messageId
    rw [record_costless hf]
    exact (hc messageId).trans (Nat.mul_le_mul_right B (hf.1.2 c.1 messageId))
  exact Always.watch (hp.mono hkept) stable_affordable (fun _ _ h => h) hc

/-- What is in hand pays for what the program is charged. -/
theorem Charge.rg (hp : Charge a b p n) (hc : Prepaid a b B messageId n c) : StaysAffordable a b B p c := by
  refine RG.mono (Spends.watch (C := Prepaid a b B messageId) hp stable_prepaid (fun k n c => Prepaid.less)
    (fun l f hf n c => Prepaid.pay hf) (fun n c c' h => h.affordable) hc) (fun _ _ h => h) fun _ _ h => h.affordable

end

/-! ### What leaves the ledger alone -/

/-- A statement that costs nothing and leaves the ledger alone. -/
def Uninvolved (l : Stmt) (f : World → World) : Prop :=
  Costless l f ∧ ∀ w, (f w).processedMessages = w.processedMessages

theorem uninvolved_of {l : Stmt} {f : World → World} (hbegin : ∀ messageId, l ≠ .insertProcessed messageId)
    (hgenerate : l ≠ .generate) (hmail : l ≠ .insertOutbox)
    (hf : ∀ w, (f w).processedMessages = w.processedMessages) : Uninvolved l f :=
  ⟨⟨forward_of_ledger hbegin hf, hgenerate, hmail⟩, hf⟩

theorem coversDelivery_uninvolved (id : Nat) : CoversDelivery Uninvolved id where
  read := uninvolved_of nofun nofun nofun fun _ => rfl
  outbox := uninvolved_of nofun nofun nofun fun _ => rfl
  tick := uninvolved_of nofun nofun nofun fun _ => rfl
  send f hf := by
    refine uninvolved_of nofun nofun nofun fun w => ?_
    obtain ⟨d, -, hw⟩ := hf w
    rw [hw]
    rfl
  sent _ := uninvolved_of nofun nofun nofun fun _ => rfl
  link messageId f hf := by
    refine uninvolved_of nofun nofun nofun fun w => ?_
    rcases hf w with hsame | ⟨l, t, -, -, hadded⟩
    · rw [hsame]
    · rw [hadded]
  failure _ _ := uninvolved_of nofun nofun nofun fun _ => rfl

theorem flushOutbox_uninvolved (out : Outside) : Always Uninvolved (flushOutbox out) := by
  refine Always.bind (always_observe (coversDelivery_uninvolved 0).outbox _) fun messages => ?_
  exact flushAll_always (fun m => (coversDelivery_uninvolved m.id).flushOne out fun jobId fields =>
    uninvolved_of nofun nofun nofun fun _ => rfl) messages

theorem flushReportOutbox_uninvolved (out : Outside) : Always Uninvolved (flushReportOutbox out) := by
  refine Always.bind (always_observe (coversDelivery_uninvolved 0).outbox _) fun messages => ?_
  exact flushAll_always (fun m => (coversDelivery_uninvolved m.id).flushReportOne out fun reportId =>
    uninvolved_of nofun nofun nofun fun _ => rfl) messages

theorem overlooks_ledger : Overlooks World.processedMessages := by
  constructor <;> intros <;> rfl

theorem coversReport_ledger (reportId : Text) :
    CoversReport (fun _ f => ∀ w, (f w).processedMessages = w.processedMessages) reportId fun _ => True where
  status _ _ _ _ _ _ := rfl
  evidence l f _ hf w := by
    obtain ⟨t, hw⟩ := hf w
    rw [hw]

section
variable (out : Outside)

theorem workerRound_ledger [PyChars] (i : Installation) : Keeps World.processedMessages (i.workerRound out) := by
  refine Always.tryCatch (Always.bind ?_ fun _ => always_ret _) fun _ => always_ret _
  exact runOnce_always overlooks_ledger.covers (fun _ _ => rfl) overlooks_ledger.coversModel out i.worker

theorem updateGroup_ledger (u : WeeklyUpdate) (c : ReportStore.Wanted) :
    Keeps World.processedMessages (u.updateGroup out c) := by
  have hcall : Keeps World.processedMessages (c.call out) := by
    refine (utcnow_always overlooks_ledger.covers out).bind fun now => Always.bind (always_atomic fun w => ?_) fun _ =>
      always_observeE (fun _ => rfl) _
    simp only
    split_ifs
    · rfl
    · split <;> rfl
    · rfl
  refine hcall.bind fun report => ?_
  cases report with
  | none => trivial
  | some report =>
    exact run_always out overlooks_ledger.covers (fun _ _ => rfl) overlooks_ledger.coversModel
      (coversReport_ledger report.reportId) u.workflow

theorem weeklyRun_ledger (i : Installation) (today : Instant.Date) :
    Keeps World.processedMessages (i.weeklyRun out today) := by
  have hgroups : ∀ calls, Keeps World.processedMessages (i.weekly.updateGroups out calls) := by
    intro calls
    induction calls with
    | nil => trivial
    | cons c calls ih => exact (updateGroup_ledger out i.weekly c).bind fun _ => ih.bind fun _ => trivial
  have howners : ∀ period owners, Keeps World.processedMessages (i.weekly.updateOwners out period owners) := by
    intro period owners
    induction owners with
    | nil => trivial
    | cons item owners ih =>
      have hlisted : Keeps World.processedMessages (i.weekly.listed item.2) := by
        refine Always.tryCatch (Always.bind ?_ fun _ => trivial) fun _ => trivial
        exact Always.bind (always_atomic fun _ => rfl) fun token => always_atomic fun _ => rfl
      refine hlisted.bind fun groups => ?_
      cases groups with
      | none => exact ih
      | some groups => exact (hgroups _).bind fun _ => ih.bind fun _ => trivial
  refine Always.bind ?_ fun _ => always_ret _
  unfold WeeklyUpdate.runOnce
  split_ifs
  · trivial
  · refine Always.bind (always_ofExcept _) fun period => (howners period _).bind fun _ => ?_
    exact ((flushReportOutbox_uninvolved out).mono fun _ _ h => h.2).bind fun _ => trivial

end

/-! ### An attempt -/

/-- The ledger is as it was. -/
def SameLedger (w w' : World) : Prop := w'.processedMessages = w.processedMessages

theorem SameLedger.entry {w w' : World} (h : SameLedger w w') (messageId : Text) :
    entryOf w' messageId = entryOf w messageId := by
  rw [entryOf, h, entryOf]

section
variable (out : Outside) {c : World × Expenses}

theorem begin_free (a b : Nat) (messageId senderEmail authResult : Text) :
    Always (fun l _ => l.cost a b = 0) (ProcessedMessageStore.begin out messageId senderEmail authResult) := by
  refine Always.bind (always_atomic rfl) fun receivedAt => ?_
  refine Always.bind (onIntegrityError_always (always_atomic rfl) trivial) fun inserted => ?_
  split_ifs
  · trivial
  · refine Always.bind (always_observe ?_ _) fun row => ?_
    · rfl
    cases row with
    | none => trivial
    | some row =>
      simp only
      split_ifs
      · exact Always.bind (always_change rfl) fun _ => trivial
      · trivial

theorem stable_current (messageId : Text) : Stable OffLedger fun c : World × Expenses => c.2.current = messageId :=
  fun _ _ h hc => (congrArg Expenses.current h.2).trans hc

/-- The INSERT of `begin` begins the handling of its message, also where the constraint refuses it. -/
theorem insertRow_current {messageId : Text} {row : ProcessedMessage} (hid : row.messageId = messageId)
    (c : World × Expenses) :
    RG (Failing.watched Expenses) OffLedger (fun _ _ => True)
      (fun x c => (∀ v, x = .ok v → c.2.current = messageId) ∧
        ∀ e, x = .error e → e.kind = .integrityError → c.2.current = messageId)
      (watch recordExpenses (ProcessedMessageStore.insertRow row)) c := by
  have hstable := stable_current messageId
  rw [ProcessedMessageStore.insertRow, watch_atomic]
  refine rg_atomic (P := fun _ => True) (fun _ _ _ h => h) (fun x c c' h hc => ?_)
    (fun c _ _ => ⟨trivial, fun _ _ => hid, fun _ _ _ => hid⟩) (fun c e _ hfault => ⟨fun v hx => ?_, ?_⟩) trivial
  · exact ⟨fun v hx => hstable c c' h (hc.1 v hx), fun e hx hkind => hstable c c' h (hc.2 e hx hkind)⟩
  · cases hx
  · -- a fault is no `IntegrityError`
    intro e' hx hkind
    cases hx
    exact absurd hkind hfault

theorem begin_current (messageId senderEmail authResult : Text) (c : World × Expenses) :
    RG (Failing.watched Expenses) OffLedger (fun _ _ => True) (fun x c => ∀ v, x = .ok v → c.2.current = messageId)
      (watch recordExpenses (ProcessedMessageStore.begin out messageId senderEmail authResult)) c := by
  have hstable := stable_current messageId
  refine rg_watch_bind OffLedger.refl (M := fun _ _ => True) ?_ (fun receivedAt c _ => ?_) fun e c _ v hx => by cases hx
  · exact RG.mono (Always.rg (always_any (A := fun _ _ => True) (fun _ _ => trivial) _) (fun _ _ _ _ _ => trivial) c)
      (fun _ _ h => h) fun _ _ h => h
  refine rg_watch_bind OffLedger.refl (M := fun x c => ∀ v, x = .ok v → c.2.current = messageId) ?_
    (fun inserted c hc => ?_) fun e c _ v hx => by cases hx
  · refine rg_watch_tryCatch OffLedger.refl (insertRow_current rfl c) (fun v c hc => hc.1) fun e c hc => ?_
    split_ifs with hkind
    · exact fun c' h v _ => hstable c c' h (hc.2 e rfl hkind)
    · exact fun c' h v hx => by cases hx
  · -- what follows the INSERT begins no other message
    have hsteps : ∀ (l : Stmt) (f : World → World), (∀ id, l ≠ .insertProcessed id) →
        Preserves recordExpenses (fun c => c.2.current = messageId) l f :=
      fun l f hl c hc => (current_record hl c.1 (f c.1) c.2).trans hc
    refine RG.mono (Always.watch (Always.mono ?_ hsteps) hstable (fun _ _ _ => trivial) (hc inserted rfl))
      (fun _ _ h => h) fun _ _ h _ _ => h
    split_ifs
    · trivial
    · refine Always.bind (always_observe (fun _ h => by cases h) _) fun row => ?_
      cases row with
      | none => trivial
      | some row =>
        simp only
        split_ifs
        · exact Always.bind (always_change fun _ h => by cases h) fun _ => trivial
        · trivial

/-- What `begin` leaves in hand of a message that it lets in. -/
def BegunWith (a b B : Nat) (messageId : Text) (x : Except Exc Bool) (c : World × Expenses) : Prop :=
  Affordable a b B c ∧ (x = .ok true → Prepaid a b B messageId B c)

/-- **An attempt that is let in pays `B`.** -/
theorem begin_pays (senderEmail authResult : Text) (hc : Affordable a b B c) :
    RG (Failing.watched Expenses) OffLedger (fun _ => Affordable a b B) (BegunWith a b B messageId)
      (watch recordExpenses (ProcessedMessageStore.begin out messageId senderEmail authResult)) c := by
  obtain ⟨w, x⟩ := c
  have hentry := fun w w' (h : SameLedger w w') => h.entry messageId
  have hledger : RG Failing SameLedger LedgerMove
      (fun x s => Begun Failing (entryOf w messageId) x (entryOf s messageId))
      (ProcessedMessageStore.begin out messageId senderEmail authResult) w :=
    begin_rg (R := SameLedger) (fun _ => rfl) hentry (fun _ _ _ h => h) out senderEmail authResult rfl
  have hwatched := ((rg_watched hledger (begin_free out a b messageId senderEmail authResult) x).among
    fun _ _ (h : OffLedger _ _) => h.1).and (begin_current out messageId senderEmail authResult (w, x))
  -- what the message has cost is covered by the attempts before this one
  have hpaid : Affordable a b B (w, x) ∧ (w, x).2.spent a b messageId ≤ attemptsUsed w messageId * B :=
    ⟨hc, hc messageId⟩
  refine (hwatched.carry
    (P := fun c => Affordable a b B c ∧ c.2.spent a b messageId ≤ attemptsUsed w messageId * B)
    (fun c c' h hc => ⟨stable_affordable c c' h hc.1, h.2 ▸ hc.2⟩) ?_ hpaid).mono
    (fun _ _ h => h.2.1) ?_
  · rintro c c' ⟨⟨hmove, l, f, hfree, rfl⟩, -⟩ ⟨hafford, hspent⟩
    have hsame : ∀ messageId', (recordExpenses l c.1 (f c.1) c.2).spent a b messageId' = c.2.spent a b messageId' := by
      intro messageId'
      rw [spent_record, hfree, ite_self, Nat.add_zero]
    refine ⟨fun messageId' => ?_, (hsame messageId).le.trans hspent⟩
    rw [hsame]
    exact (hafford messageId').trans (Nat.mul_le_mul_right B (hmove.attemptsUsed messageId'))
  · rintro x c ⟨⟨hbegun, hcurrent⟩, hafford, hspent⟩
    refine ⟨hafford, ?_⟩
    rintro rfl
    obtain ⟨hadmits, hnext⟩ := hbegun
    refine ⟨hcurrent true rfl, fun messageId' => ?_⟩
    split_ifs with hid
    · rw [hid, attemptsUsed, hnext, Entry.used_next hadmits (by decide), Nat.add_one_mul]
      exact Nat.add_le_add_right hspent B
    · exact hafford messageId'

/-! ### A round of the mail loop -/

variable [PyChars] {match? : EmailMessage → Text → M (Option WeeklyReport)}
  (hmatch : ∀ msg senderEmail, Always Costless (match? msg senderEmail))
include hmatch

section
variable (p : EmailProcessingPipeline) (hB : (p.parser.maxRetries + 1) * a + 2 * b ≤ B)
include hB

theorem processMessage_affordable (msg : EmailMessage) (hc : Affordable a b B c) :
    StaysAffordable a b B (p.processMessageWith out match? msg) c := by
  refine rg_watch_bind OffLedger.refl (begin_pays out _ _ hc) (fun fresh c hbegun => ?_) fun _ _ hbegun => hbegun.1
  cases fresh with
  | false => exact Costless.rg (markProcessed_costless msg.providerRef) hbegun.1
  | true =>
    have hhand : Prepaid a b B msg.messageId B c := hbegun.2 rfl
    simp only [Bool.not_true, Bool.false_eq_true, if_false]
    split_ifs
    · exact Charge.rg (Costs.mono (handleOwner_charge out p hmatch msg _ _) hB) hhand
    · refine Charge.rg (Costs.mono (handleStranger_charge out p msg _) ?_) hhand
      omega

theorem pollOnce_affordable (fetched : Except Exc (List EmailMessage)) (hc : Affordable a b B c) :
    StaysAffordable a b B (Installation.pollOnceWith out p match? fetched) c := by
  have hend : ∀ {α : Type} {v : α} {c : World × Expenses}, Affordable a b B c →
      StaysAffordable a b B (ret v : M α) c := fun hc => Costless.rg (always_ret _) hc
  have hall : ∀ (msgs : List EmailMessage) {c : World × Expenses}, Affordable a b B c →
      StaysAffordable a b B (p.processAllWith out match? msgs) c := by
    intro msgs
    induction msgs with
    | nil => exact fun hc => hend hc
    | cons msg msgs ih =>
      intro c hc
      refine rg_watch_bind (M := fun _ => Affordable a b B) OffLedger.refl ?_ (fun _ c hc => ih hc) fun _ _ hc => hc
      exact rg_watch_tryCatch OffLedger.refl (processMessage_affordable out hmatch p hB msg hc) (fun _ _ hc => hc)
        fun _ _ hc => hend hc
  have hfetch : Always Costless (observeE .fetch fun _ => fetched : M (List EmailMessage)) :=
    always_observeE (covers_costless.look _ rfl) _
  refine rg_watch_bind OffLedger.refl (Costless.rg hfetch hc) (fun msgs c hc => ?_) fun _ _ hc => hc
  exact rg_watch_bind OffLedger.refl (hall msgs hc) (fun _ _ hc => hend hc) fun _ _ hc => hc

end

theorem mailRound_affordable (i : Installation) (hB : (i.settings.maxParseRetries + 1) * a + 2 * b ≤ B)
    (fetched : Except Exc (List EmailMessage)) (hc : Affordable a b B c) :
    StaysAffordable a b B (i.mailRound out match? fetched) c := by
  refine rg_watch_tryCatch (M := fun _ => Affordable a b B) OffLedger.refl ?_ (fun _ _ hc => hc) fun _ _ hc =>
    Costless.rg (always_ret _) hc
  refine rg_watch_bind OffLedger.refl (pollOnce_affordable out hmatch i.pipeline hB fetched hc) (fun _ c hc => ?_)
    fun _ _ hc => hc
  exact Costless.rg (((flushOutbox_uninvolved out).mono fun _ _ h => h.1).bind fun _ => always_ret _) hc

end

end

/-! ### Runs -/

/-- The calls of the other threads are on no message's account. -/
def unbilled (_ : Stmt) (_ _ : World) (x : Expenses) : Expenses := x

section
variable [PyChars] (out : Outside)

/-- A round of the mail loop of an installation that repeats a request to the model `retries` times at most; looking for
a report costs nothing. -/
def MailRound (retries : Nat) (q : Prog Stmt (World × Expenses) Exc Unit) : Prop :=
  ∃ (i : Installation) (match? : EmailMessage → Text → M (Option WeeklyReport)) (fetched : _),
    i.settings.maxParseRetries ≤ retries ∧ (∀ msg senderEmail, Always Costless (match? msg senderEmail)) ∧
      q = watch recordExpenses (i.mailRound out match? fetched)

/-- A round of a worker, or a run of the weekly command. -/
def OtherRound (q : Prog Stmt (World × Expenses) Exc Unit) : Prop :=
  ∃ i : Installation, q = watch unbilled (i.workerRound out) ∨ ∃ today, q = watch unbilled (i.weeklyRun out today)

variable {ι : Type}

/-- One thread is the mail loop. -/
def ServiceCalls (retries : Nat) : Option ι → Prog Stmt (World × Expenses) Exc Unit → World × Expenses → Prop
  | none, q, _ => MailRound out retries q
  | some _, q, _ => OtherRound out q

/-- A run of the service with one mail loop, in which every step may raise and every call may be cut short, from any
state of the database. -/
abbrev MeteredRun [DecidableEq ι] (retries : Nat) (w : World)
    (c : (Option ι → Prog Stmt (World × Expenses) Exc Unit) × (World × Expenses)) : Prop :=
  PoolSteps (Failing.watched Expenses) OffLedger (ServiceCalls out retries) (fun _ => ret (), w, {}) c

/-- The mail loop relies on its ledger, and the others on nothing. -/
def ServiceRely : Option ι → World × Expenses → World × Expenses → Prop
  | none => OffLedger
  | some _ => fun _ _ => True

/-- The mail loop keeps the costs covered, and the others leave the ledger alone. -/
def ServiceGuarantee (a b B : Nat) : Option ι → World × Expenses → World × Expenses → Prop
  | none => fun _ c' => Affordable a b B c'
  | some _ => OffLedger

/-- The program's own match only looks. -/
theorem matchReport_costless (msg : EmailMessage) (senderEmail : Text) :
    Always Costless (EmailProcessingPipeline.matchReport msg senderEmail) :=
  matchReport_always covers_costless msg senderEmail

variable {out} {retries : Nat}

theorem otherRound_offLedger {q : Prog Stmt (World × Expenses) Exc Unit} (hq : OtherRound out q)
    (c : World × Expenses) : Inside (Failing.watched Expenses) (fun _ _ => True) OffLedger q c := by
  have hkeeps : ∀ {p : M Unit}, Keeps World.processedMessages p →
      Inside (Failing.watched Expenses) (fun _ _ => True) OffLedger (watch unbilled p) c := by
    intro p hp
    have hsteps : Always (fun _ g => ∀ c, OffLedger c (g c)) (watch unbilled p) :=
      always_watched hp fun l f hf c => ⟨hf c.1, rfl⟩
    exact hsteps.rg (fun l g hg c _ => hg c) c
  obtain ⟨i, rfl | ⟨today, rfl⟩⟩ := hq
  · exact hkeeps (workerRound_ledger out i)
  · exact hkeeps (weeklyRun_ledger out i today)

theorem serviceCalls_spec {a b B : Nat} (hB : (retries + 1) * a + 2 * b ≤ B) :
    PoolSpec (Failing.watched Expenses) OffLedger
      (fun (t : Option ι) q c => ServiceCalls out retries t q c ∧ Affordable a b B c)
      ServiceRely (ServiceGuarantee a b B) (fun _ _ => True) where
  refl t c := by
    cases t with
    | none => exact OffLedger.refl c
    | some t => trivial
  trans t c c' c'' h h' := by
    cases t with
    | none => exact OffLedger.trans h h'
    | some t => trivial
  others t u hne c c' h := by
    cases u with
    | some u => trivial
    | none =>
      cases t with
      | none => exact absurd rfl hne
      | some t => exact h
  around t c c' h := by
    cases t with
    | none => exact h
    | some t => trivial
  called t q c h := by
    obtain ⟨hq, hc⟩ := h
    cases t with
    | none =>
      obtain ⟨i, match?, fetched, hretries, hmatch, rfl⟩ := hq
      refine (mailRound_affordable out hmatch i (le_trans ?_ hB) fetched hc).inside
      exact Nat.add_le_add_right (Nat.mul_le_mul_right a (Nat.add_le_add_right hretries 1)) _
    | some t => exact otherRound_offLedger hq c

variable [DecidableEq ι]

theorem MeteredRun.affordable {w : World} {c : (Option ι → Prog Stmt (World × Expenses) Exc Unit) × (World × Expenses)}
    (hrun : MeteredRun out retries w c) (a b : Nat) : Affordable a b ((retries + 1) * a + 2 * b) c.2 := by
  have hstart : Affordable a b ((retries + 1) * a + 2 * b) (w, {}) := by
    intro messageId
    simp [Expenses.spent]
  have hkept : ∀ (t : Option ι) c c', ServiceGuarantee a b ((retries + 1) * a + 2 * b) t c c' →
      Affordable a b ((retries + 1) * a + 2 * b) c → Affordable a b ((retries + 1) * a + 2 * b) c' := by
    intro t c c' h hc
    cases t with
    | none => exact h
    | some t => exact stable_affordable c c' h hc
  exact ((serviceCalls_spec le_rfl).inv_of_calls hkept stable_affordable hrun (fun _ _ _ => trivial) hstart).2

/-- **What one message can cost.** Whatever has failed, and however often the loop was cut short and started again: the
model has generated no more than `maxProcessingAttempts` times the answers of one parse for a Message-ID, and no more
than two mails for each of its attempts were put into the outbox. -/
theorem message_costs {w : World} {c : (Option ι → Prog Stmt (World × Expenses) Exc Unit) × (World × Expenses)}
    (hrun : MeteredRun out retries w c) (messageId : Text) :
    c.2.2.generations messageId ≤ maxProcessingAttempts * (retries + 1) ∧
      c.2.2.mails messageId ≤ maxProcessingAttempts * 2 := by
  have hused := attemptsUsed_le c.2.1 messageId
  have hanswers := hrun.affordable 1 0 messageId
  have hmails := hrun.affordable 0 1 messageId
  simp only [Expenses.spent, Nat.mul_one, Nat.mul_zero, Nat.add_zero, Nat.zero_add] at hanswers hmails
  exact ⟨hanswers.trans (Nat.mul_le_mul_right _ hused), hmails.trans (Nat.mul_le_mul_right _ hused)⟩

end

/-! ### A loop that dies -/

section
attribute [local instance] asciiChars

/-- Nothing that the model says is a command. -/
def babbling : Outside := { Outside.plain with decodeCommand := fun _ => .error "no JSON" }

/-- The small installation with an admin. -/
def staffedInstallation : Installation :=
  { smallInstallation with settings := { smallInstallation.settings with adminEmail := some "admin@uni.ac.uk" } }

/-- A message of a stranger in the domain. -/
def carolMessage : EmailMessage :=
  { aliceMessage with messageId := "<2@uni.ac.uk>", providerRef := "2", fromAddress := "carol@uni.ac.uk" }

/-- A round of the mail loop with one message. -/
def roundWith (msg : EmailMessage) : Prog Stmt (World × Expenses) Exc Unit :=
  watch recordExpenses (staffedInstallation.mailRound babbling EmailProcessingPipeline.noReport (.ok [msg]))

/-- Rounds of the mail loop, each of which dies after so many steps. -/
def dyingRounds (rounds : List (Nat × EmailMessage)) (c : World × Expenses) : World × Expenses :=
  rounds.foldl (fun c round => (follow (List.replicate round.1 none) (roundWith round.2, c)).2) c

theorem dyingRounds_run (rounds : List (Nat × EmailMessage)) :
    ∃ q, MeteredRun (ι := Unit) babbling 2 {} (q, dyingRounds rounds ({}, {})) := by
  induction rounds using List.reverseRecOn with
  | nil => exact ⟨_, .refl⟩
  | append_singleton rounds round ih =>
    obtain ⟨q, hrun⟩ := ih
    have hcall : ServiceCalls (ι := Unit) babbling 2 none (roundWith round.2) (dyingRounds rounds ({}, {})) :=
      ⟨staffedInstallation, _, _, le_rfl, fun _ _ => always_ret _, rfl⟩
    rw [dyingRounds, List.foldl_append]
    exact ⟨_, hrun.call hcall (steps_follow_none (E := Failing.watched Expenses) (fun _ _ => trivial) round.1 _)⟩

/-- Three times the loop dies when the model has not understood the owner, and three times when the stranger and the
admin have been written to, each time before the message is concluded. -/
def hardTimes : List (Nat × EmailMessage) :=
  [(8, aliceMessage), (10, aliceMessage), (10, aliceMessage), (8, carolMessage), (10, carolMessage), (10, carolMessage)]

/-- Both bounds are reached. -/
theorem message_costs_reached : ∃ c, MeteredRun (ι := Unit) babbling 2 {} c ∧
    c.2.2.generations aliceMessage.messageId = maxProcessingAttempts * (2 + 1) ∧
    c.2.2.mails carolMessage.messageId = maxProcessingAttempts * 2 ∧
    ∀ messageId, c.2.2.generations messageId ≤ maxProcessingAttempts * (2 + 1) ∧
      c.2.2.mails messageId ≤ maxProcessingAttempts * 2 := by
  obtain ⟨q, hrun⟩ := dyingRounds_run hardTimes
  have hanswers : (dyingRounds hardTimes ({}, {})).2.generations aliceMessage.messageId =
      maxProcessingAttempts * (2 + 1) := by decide +kernel
  have hmails : (dyingRounds hardTimes ({}, {})).2.mails carolMessage.messageId = maxProcessingAttempts * 2 := by
    decide +kernel
  exact ⟨_, hrun, hanswers, hmails, fun messageId => message_costs hrun messageId⟩

end

end GroupAssessmentAgent
