import GroupAssessmentAgent.Lib.Turns
import GroupAssessmentAgent.Outbox.SentStays

/-!
# What becomes of the enqueued messages

A single flusher, cycle after cycle, with any calls of `enqueue` beside it; an attachment that cannot be read and a mail
that cannot be sent may raise, the stores do not, and the provider's ids differ. The flusher is at a `FlusherPlace`, and
the places that it has been at say which sends were tried and how they ended (`sends`, `failures`). The row of a message
counts its failures and has the status that its sends give it, from the statement on that records the last of them
(`OutboxKept`). `Tally` is the invariant: it also knows which provider ids are linked already.
-/

namespace GroupAssessmentAgent
open Prog

/-! ### The places of the flusher -/

inductive FlusherPlace where
  /-- These messages of the list are left. -/
  | waiting (messages : List OutboxMessage)
  /-- The provider has accepted the message. -/
  | sent (message : OutboxMessage) (providerMessageId : Text) (messages : List OutboxMessage)
  /-- An attachment could not be read, or the message could not be sent. -/
  | failed (message : OutboxMessage) (e : Exc) (messages : List OutboxMessage)
  /-- The message was sent, and recording it raised. -/
  | unrecorded (message : OutboxMessage) (e : Exc) (messages : List OutboxMessage)
  deriving DecidableEq

namespace Flusher
variable (out : Outside)

def recordJob (message : OutboxMessage) (providerMessageId : Text) : M Unit :=
  match truthy message.jobId with
  | some jobId => JobStore.update jobId [.lastResponseMessageId (some providerMessageId)]
  | none => pure ()

/-- What follows a call of `send_email` that returned. -/
def record (message : OutboxMessage) (providerMessageId : Text) : M Unit := do
  Outbox.markSent out message.id providerMessageId
  recordJob message providerMessageId

/-- What follows an exception. -/
def recordError (message : OutboxMessage) (e : Exc) : M Nat := do
  Outbox.markFailed message.id e.message
  return 0

/-- The way to the next place. No message left means the next cycle. -/
def next : FlusherPlace → M FlusherPlace
  | .waiting [] => do
    let messages ← Outbox.pending
    return .waiting messages
  | .waiting (message :: messages) =>
    tryCatch (do
        let attachments ← readAttachments message.attachments
        let providerMessageId ← sendEmail out message attachments
        return .sent message providerMessageId messages)
      fun e => return .failed message e messages
  | .sent message providerMessageId messages =>
    tryCatch (do
        record out message providerMessageId
        return .waiting messages)
      fun e => return .unrecorded message e messages
  | .failed message e messages | .unrecorded message e messages => do
    let _ ← recordError message e
    return .waiting messages

/-- What is left of the cycle at a place, but for the number of mails that it returns. -/
def rest : FlusherPlace → M Unit
  | .waiting messages => do
    let _ ← flushAll (flushOne out) messages
  | .sent message providerMessageId messages => do
    let _ ← tryCatch (do
        record out message providerMessageId
        return 1) (recordError message)
    let _ ← flushAll (flushOne out) messages
  | .failed message e messages | .unrecorded message e messages => do
    let _ ← recordError message e
    let _ ← flushAll (flushOne out) messages

theorem rest_next {place : FlusherPlace} (hplace : place ≠ .waiting []) :
    rest out place = (next out place).bind (rest out) := by
  cases place with
  | waiting messages =>
    cases messages with
    | nil => exact absurd rfl hplace
    | cons message messages =>
      have hone : flushOne out message =
          (((readAttachments message.attachments).bind (sendEmail out message)).bind fun id =>
            (record out message id).bind fun _ => ret 1).tryCatch (recordError message) := by
        simp only [record, Prog.bind_assoc, bind_eq]
        rfl
      have hnext : next out (.waiting (message :: messages)) =
          (((readAttachments message.attachments).bind (sendEmail out message)).bind
            fun id => ret (.sent message id messages)).tryCatch fun e => ret (.failed message e messages) := by
        rw [Prog.bind_assoc]
        rfl
      have hrest : rest out (.waiting (message :: messages)) =
          (flushOne out message).bind fun _ => rest out (.waiting messages) := by
        simp only [rest, flushAll, bind_eq, Prog.bind_assoc, pure_eq, ret_bind]
      rw [hrest, hone, hnext]
      exact Prog.tryCatch_bind _ (fun _ => rfl) fun _ => rfl
  | sent message id messages =>
    exact Prog.tryCatch_bind (record out message id) (fun _ => rfl) fun _ => rfl
  | failed message e messages => simp only [rest, next, bind_eq, Prog.bind_assoc, pure_eq, ret_bind]
  | unrecorded message e messages => simp only [rest, next, bind_eq, Prog.bind_assoc, pure_eq, ret_bind]

theorem flushOutbox_rest : ((flushOutbox out).bind fun _ => ret ()) =
    Outbox.pending.bind fun messages => rest out (.waiting messages) := by
  simp only [flushOutbox, rest, bind_eq, Prog.bind_assoc, pure_eq]

end Flusher

/-! ### The threads -/

/-- The flusher, and the threads that call `enqueue`. -/
inductive MailThread where
  | flusher
  | caller (n : Nat)
  deriving DecidableEq

/-- What a thread comes to; for a caller, the id of the message that it has enqueued last. -/
def MailThread.Place : MailThread → Type
  | flusher => FlusherPlace
  | caller _ => Option Nat

/-- The flusher goes its way, and starts the next cycle after an exception; a caller enqueues a message. -/
inductive MailTurn (out : Outside) : (t : MailThread) → Except Exc t.Place → M t.Place → Prop
  | flush (place : FlusherPlace) : MailTurn out .flusher (.ok place) (Flusher.next out place)
  | restart (e : Exc) : MailTurn out .flusher (.error e) (Flusher.next out (.waiting []))
  | enqueue (n : Nat) (x : Except Exc (Option Nat)) (toEmail subject bodyText : Text) (jobId : Option Text)
      (attachments : List Text) (inReplyTo references : Option Text) :
      MailTurn out (.caller n) x
        (some <$> Outbox.enqueue out toEmail subject bodyText jobId attachments inReplyTo references)

/-- No cycle is in progress, and no call. -/
def idleMail : (t : MailThread) → M t.Place
  | .flusher => ret (.waiting [])
  | .caller _ => ret none

/-- Reading an attachment and sending may raise; nothing else does. -/
def SendsFail : Env Stmt World Exc where
  allowed _ _ := True
  fault l _ _ := l = .readFile ∨ ∃ id, l = .send id

/-- The outbox holds messages that nobody has tried to send yet. -/
structure NeverTried (w : World) : Prop where
  rows : ∀ row ∈ w.outbox.rows, row.status = .pending ∧ row.attempts = 0
  deliveries : w.deliveries = []
  links : w.messageLinks.rows = []

abbrev MailRun (out : Outside) (w : World) :=
  TurnRun SendsFail (MailTurn out) (idleMail, w)

/-! ### Attempts -/

abbrev Visits : Type := List (Except Exc FlusherPlace)

/-- The message that was tried on the way to a place, and whether it was sent. -/
def attempt? : Except Exc FlusherPlace → Option (Nat × Bool)
  | .ok (.sent message _ _) => some (message.id, true)
  | .ok (.failed message _ _) => some (message.id, false)
  | _ => none

/-- How often the sending of a message succeeded. -/
def sends (v : Visits) (id : Nat) : Nat := (v.filterMap attempt?).count (id, true)

/-- How often it failed. -/
def failures (v : Visits) (id : Nat) : Nat := (v.filterMap attempt?).count (id, false)

/-- The row of a message after so many sends. -/
structure RowAgrees (row : OutboxMessage) (sent failed : Nat) : Prop where
  attempts : row.attempts = failed
  status : row.status = .sent ∧ sent = 1 ∧ failed < 5 ∨ row.status = .failed ∧ failed = 5 ∧ sent = 0 ∨
    row.status = .pending ∧ sent = 0 ∧ failed < 5

/-- The flusher has just tried to send the message. -/
def JustTried (v : Visits) (id : Nat) : Prop := ∃ sent, v.head?.bind attempt? = some (id, sent)

/-- Every row agrees with its sends, and only PENDING messages are tried; the last attempt may be missing from the row of
the message that was tried last, which is PENDING then. -/
structure OutboxKept (v : Visits) (w : World) : Prop where
  delivered : ∀ id, (deliveriesOf w id).length = sends v id
  row : ∀ id row, w.outbox.find? id = some row → RowAgrees row (sends v id) (failures v id) ∨
    JustTried v id ∧ row.status = .pending ∧ RowAgrees row (sends v.tail id) (failures v.tail id)
  tried : ∀ message messages, v.head? = some (.ok (.waiting (message :: messages))) →
    outboxStatus w message.id = some .pending

/-- A message without what the flusher writes. -/
def OutboxMessage.mail (row : OutboxMessage) : OutboxMessage :=
  { row with status := .pending, attempts := 0, lastError := none, sentAt := none }

/-- The messages stay. -/
def KeepsMail (w w' : World) : Prop :=
  ∀ id row, w.outbox.find? id = some row → ∃ row', w'.outbox.find? id = some row' ∧ row'.mail = row.mail

theorem attempt?_other {x : Except Exc FlusherPlace} (hx : attempt? x = none) (v : Visits) (id : Nat) :
    sends (x :: v) id = sends v id ∧ failures (x :: v) id = failures v id := by
  simp [sends, failures, hx]

theorem attempt?_some {x : Except Exc FlusherPlace} {n : Nat} {sent : Bool} (hx : attempt? x = some (n, sent))
    (v : Visits) (id : Nat) :
    sends (x :: v) id = sends v id + (if id = n ∧ sent = true then 1 else 0) ∧
      failures (x :: v) id = failures v id + (if id = n ∧ sent = false then 1 else 0) := by
  have hcount : ∀ b, ((x :: v).filterMap attempt?).count (id, b) =
      (v.filterMap attempt?).count (id, b) + if id = n ∧ sent = b then 1 else 0 := by
    intro b
    rw [List.filterMap_cons_some hx, List.count_cons]
    simp only [beq_iff_eq, Prod.mk.injEq, @eq_comm Nat n id]
  exact ⟨hcount true, hcount false⟩

/-! ### What is known at a place -/

def AgreesAt (w : World) (v : Visits) (id : Nat) : Prop :=
  (∀ row, w.outbox.find? id = some row → RowAgrees row (sends v id) (failures v id)) ∧
    (w.outbox.find? id = none → sends v id = 0 ∧ failures v id = 0)

/-- The rows agree with the sends, but for the message that is held: its last attempt is not recorded yet. The
messages that are left are PENDING, and the first `linked` ids of the provider are those in use. -/
structure Tally (out : Outside) (v : Visits) (held : Option Nat) (linked : Nat) (messages : List OutboxMessage)
    (w : World) : Prop where
  delivered : ∀ id, (deliveriesOf w id).length = sends v id
  agrees : ∀ id, held ≠ some id → AgreesAt w v id
  behind : ∀ id, held = some id →
    outboxStatus w id = some .pending ∧ AgreesAt w v.tail id ∧ id ∉ messages.map OutboxMessage.id
  links : ∀ l ∈ w.messageLinks.rows,
    (∃ i < linked, l.messageId = out.messageId i) ∧ outboxStatus w l.outboxId = some .sent
  nodup : (messages.map OutboxMessage.id).Nodup
  pending : AllPending (messages.map OutboxMessage.id) w

/-- New rows, that nobody has tried to send. -/
structure OnlyEnqueued (w w' : World) : Prop where
  rows : ∀ id, w'.outbox.find? id = w.outbox.find? id ∨
    w.outbox.find? id = none ∧ ∃ row, w'.outbox.find? id = some row ∧ row.status = .pending ∧ row.attempts = 0
  deliveries : w'.deliveries = w.deliveries
  links : w'.messageLinks = w.messageLinks

theorem OnlyEnqueued.refl (w : World) : OnlyEnqueued w w := ⟨fun _ => .inl rfl, rfl, rfl⟩

theorem OnlyEnqueued.trans {a b c : World} (h : OnlyEnqueued a b) (h' : OnlyEnqueued b c) : OnlyEnqueued a c := by
  refine ⟨fun id => ?_, h'.deliveries.trans h.deliveries, h'.links.trans h.links⟩
  rcases h'.rows id with heq' | ⟨hnone', row, hrow, hnew⟩
  · rw [heq']
    exact h.rows id
  · rcases h.rows id with heq | ⟨_, row', hrow', _⟩
    · exact .inr ⟨heq ▸ hnone', row, hrow, hnew⟩
    · rw [hrow'] at hnone'
      cases hnone'

theorem OnlyEnqueued.enqueues {w w' : World} (h : OnlyEnqueued w w') : Enqueues w w' := by
  refine ⟨fun id row hrow => ?_, h.deliveries⟩
  rcases h.rows id with heq | ⟨hnone, _⟩
  · rwa [heq]
  · rw [hnone] at hrow
    cases hrow

theorem OnlyEnqueued.keepsMail {w w' : World} (h : OnlyEnqueued w w') : KeepsMail w w' :=
  fun id row hrow => ⟨row, h.enqueues.1 id row hrow, rfl⟩

theorem KeepsMail.refl (w : World) : KeepsMail w w := fun _ row hrow => ⟨row, hrow, rfl⟩

theorem KeepsMail.trans {a b c : World} (h : KeepsMail a b) (h' : KeepsMail b c) : KeepsMail a c := by
  intro id row hrow
  obtain ⟨row', hrow', hmail⟩ := h id row hrow
  obtain ⟨row'', hrow'', hmail'⟩ := h' id row' hrow'
  exact ⟨row'', hrow'', hmail'.trans hmail⟩

theorem agrees_stable (v : Visits) (id : Nat) : Stable OnlyEnqueued fun w => AgreesAt w v id := by
  intro w w' h ⟨hsome, hnone⟩
  rcases h.rows id with heq | ⟨habsent, row, hrow, hstatus, hattempts⟩
  · exact ⟨fun row hrow => hsome row (heq ▸ hrow), fun h => hnone (heq ▸ h)⟩
  · obtain ⟨hsends, hfailures⟩ := hnone habsent
    refine ⟨fun row' hrow' => ?_, fun h => ?_⟩
    · obtain rfl : row = row' := Option.some.inj (hrow.symm.trans hrow')
      exact ⟨hattempts.trans hfailures.symm, .inr (.inr ⟨hstatus, hsends, by omega⟩)⟩
    · rw [hrow] at h
      cases h

theorem tally_stable (out : Outside) (v : Visits) (held : Option Nat) (linked : Nat) (messages : List OutboxMessage) :
    Stable OnlyEnqueued (Tally out v held linked messages) := by
  intro w w' h hw
  refine ⟨fun id => ?_, fun id hid => agrees_stable v id w w' h (hw.agrees id hid), fun id hid => ?_, fun l hl => ?_,
    hw.nodup, AllPending.enqueues _ _ h.enqueues hw.pending⟩
  · rw [h.enqueues.deliveriesOf]
    exact hw.delivered id
  · obtain ⟨hpending, hagrees, hfresh⟩ := hw.behind id hid
    exact ⟨h.enqueues.status hpending, agrees_stable v.tail id w w' h hagrees, hfresh⟩
  · rw [h.links] at hl
    obtain ⟨hused, hsent⟩ := hw.links l hl
    exact ⟨hused, h.enqueues.status hsent⟩

/-- What is known when the flusher is at a place, or on the way from it. -/
def AtPlace (out : Outside) (v : Visits) : Except Exc FlusherPlace → World → Prop
  | .ok (.waiting messages), w => Tally out v none w.deliveries.length messages w
  | .ok (.sent message providerMessageId messages), w =>
    ∃ n, Tally out v (some message.id) n messages w ∧ w.deliveries.length = n + 1 ∧
      providerMessageId = out.messageId n
  | .ok (.failed message _ messages), w => Tally out v (some message.id) w.deliveries.length messages w
  | .ok (.unrecorded _ _ _), _ | .error _, _ => False

/-- The message has just become SENT, and its provider id is not linked yet. -/
def Unlinked (out : Outside) (v : Visits) (message : OutboxMessage) (providerMessageId : Text)
    (messages : List OutboxMessage) (w : World) : Prop :=
  ∃ n, Tally out v none n messages w ∧ w.deliveries.length = n + 1 ∧ providerMessageId = out.messageId n ∧
    outboxStatus w message.id = some .sent ∧ ∀ l ∈ w.messageLinks.rows, l.outboxId ≠ message.id

theorem atPlace_stable (out : Outside) (v : Visits) (x : Except Exc FlusherPlace) :
    Stable OnlyEnqueued (AtPlace out v x) := by
  rintro w w' h hw
  match x with
  | .ok (.waiting messages) =>
    show Tally _ _ _ w'.deliveries.length _ _
    rw [h.deliveries]
    exact tally_stable out v _ _ _ w w' h hw
  | .ok (.sent message id messages) =>
    obtain ⟨n, htally, hlength, hid⟩ := hw
    exact ⟨n, tally_stable out v _ _ _ w w' h htally, by rw [h.deliveries, hlength], hid⟩
  | .ok (.failed message e messages) =>
    show Tally _ _ _ w'.deliveries.length _ _
    rw [h.deliveries]
    exact tally_stable out v _ _ _ w w' h hw
  | .ok (.unrecorded _ _ _) => exact hw.elim
  | .error e => exact hw.elim

theorem unlinked_stable (out : Outside) (v : Visits) (message : OutboxMessage) (id : Text)
    (messages : List OutboxMessage) : Stable OnlyEnqueued (Unlinked out v message id messages) := by
  rintro w w' h ⟨n, htally, hlength, hid, hsent, hlinks⟩
  exact ⟨n, tally_stable out v _ _ _ w w' h htally, by rw [h.deliveries, hlength], hid, h.enqueues.status hsent,
    by rwa [h.links]⟩

theorem AgreesAt.of_rows {w w' : World} {v v' : Visits} {id : Nat} (h : AgreesAt w v id)
    (hrow : w'.outbox.find? id = w.outbox.find? id) (hsends : sends v' id = sends v id)
    (hfailures : failures v' id = failures v id) : AgreesAt w' v' id := by
  unfold AgreesAt
  rwa [hrow, hsends, hfailures]

theorem Tally.visit {out : Outside} {v : Visits} {n : Nat} {messages : List OutboxMessage} {w : World}
    (h : Tally out v none n messages w) {x : Except Exc FlusherPlace} (hx : attempt? x = none) :
    Tally out (x :: v) none n messages w where
  delivered id := by
    rw [(attempt?_other hx v id).1]
    exact h.delivered id
  agrees id hid := (h.agrees id hid).of_rows rfl (attempt?_other hx v id).1 (attempt?_other hx v id).2
  behind _ hid := by cases hid
  links := h.links
  nodup := h.nodup
  pending := h.pending

theorem Tally.kept {out : Outside} {v : Visits} {held : Option Nat} {n : Nat} {messages : List OutboxMessage} {w : World}
    (h : Tally out v held n messages w) (hheld : ∀ id, held = some id → JustTried v id)
    (htried : ∀ message messages, v.head? = some (.ok (.waiting (message :: messages))) →
      outboxStatus w message.id = some .pending) : OutboxKept v w where
  delivered := h.delivered
  row id row hrow := by
    by_cases hid : held = some id
    · obtain ⟨hpending, hagrees, _⟩ := h.behind id hid
      rw [outboxStatus, hrow] at hpending
      exact .inr ⟨hheld id hid, Option.some.inj hpending, hagrees.1 row hrow⟩
    · exact .inl ((h.agrees id hid).1 row hrow)
  tried := htried

theorem AtPlace.kept {out : Outside} {x : Except Exc FlusherPlace} {v : Visits} {w : World}
    (h : AtPlace out (x :: v) x w) : OutboxKept (x :: v) w := by
  match x with
  | .ok (.waiting messages) =>
    refine Tally.kept h (by simp) fun message rest hhead => ?_
    obtain rfl : messages = message :: rest := by simpa using hhead
    exact Tally.pending h message.id List.mem_cons_self
  | .ok (.sent message id messages) =>
    obtain ⟨n, htally, -⟩ := h
    refine htally.kept (fun id hid => ⟨true, ?_⟩) (by simp)
    cases hid
    rfl
  | .ok (.failed message e messages) =>
    refine Tally.kept h (fun id hid => ⟨false, ?_⟩) (by simp)
    cases hid
    rfl
  | .ok (.unrecorded _ _ _) => exact h.elim
  | .error e => exact h.elim

/-! ### The turns of the flusher -/

/-- A turn from the last of the places `v`: each of its steps is taken where the outbox is as it should be. -/
abbrev FlusherTurn {α : Type} (v : Visits) (Q : Except Exc α → World → Prop) (p : M α) (w : World) : Prop :=
  RG SendsFail OnlyEnqueued (fun s s' => OutboxKept v s ∧ KeepsMail s s') Q p w

/-- `P`, and no exception. -/
abbrev Surely {α : Type} (P : World → Prop) : Except Exc α → World → Prop := Ends P fun _ => False

theorem stable_surely {α : Type} {P : World → Prop} (hP : Stable OnlyEnqueued P) (x : Except Exc α) :
    Stable OnlyEnqueued (Surely P x) :=
  Stable.ends hP (fun _ _ _ h => h) x

section
variable {out : Outside} {v : Visits} {P : World → Prop}

theorem utcnow_flushing (hP : Stable OnlyEnqueued P) (hkept : ∀ s, P s → OutboxKept v s) {w : World} (hw : P w) :
    FlusherTurn v (Surely P) (utcnow out) w := by
  refine rg_atomic hP (stable_surely hP) (fun s hs _ => ?_) (by rintro s e - (h | ⟨_, h⟩) <;> cases h) hw
  have hsame : OnlyEnqueued s s.tick := ⟨fun _ => .inl rfl, rfl, rfl⟩
  exact ⟨⟨hkept s hs, hsame.keepsMail⟩, hP s s.tick hsame hs⟩

theorem readAttachments_flushing (hP : Stable OnlyEnqueued P) (hkept : ∀ s, P s → OutboxKept v s) (paths : List Text)
    {w : World} (hw : P w) : FlusherTurn v (fun _ => P) (readAttachments paths) w :=
  Always.rg_keep (A := fun _ f => f = id) (readAttachments_always rfl paths) hP
    (fun _ f hf s hs => by
      subst hf
      exact ⟨⟨hkept s hs, .refl s⟩, hs⟩) hw

theorem recordJob_flushing (hP : Stable OnlyEnqueued P) (hkept : ∀ s, P s → OutboxKept v s) (message : OutboxMessage)
    (providerMessageId : Text) {w : World} (hw : P w) :
    FlusherTurn v (Surely P) (Flusher.recordJob message providerMessageId) w := by
  unfold Flusher.recordJob
  cases truthy message.jobId with
  | none => exact rg_ret (stable_surely hP) hw
  | some jobId =>
    refine rg_change hP (stable_surely hP) (fun s hs _ => ?_) (by rintro s e - (h | ⟨_, h⟩) <;> cases h) hw
    have hsame : OnlyEnqueued s (s.writeJob jobId [.lastResponseMessageId (some providerMessageId)]) :=
      ⟨fun _ => .inl rfl, rfl, rfl⟩
    exact ⟨⟨hkept s hs, hsame.keepsMail⟩, hP s _ hsame hs⟩

end

section
variable {out : Outside} {past : Visits} {message : OutboxMessage} {messages : List OutboxMessage} {w : World}

/-! #### Sending -/

theorem Tally.hold {v : Visits} {n : Nat} {w w' : World} (h : Tally out v none n (message :: messages) w)
    {x : Except Exc FlusherPlace} {sent : Bool} (hx : attempt? x = some (message.id, sent))
    (houtbox : w'.outbox = w.outbox) (hlinks : w'.messageLinks = w.messageLinks)
    (hdelivered : ∀ id, (deliveriesOf w' id).length = (deliveriesOf w id).length +
      if id = message.id ∧ sent = true then 1 else 0) :
    Tally out (x :: v) (some message.id) n messages w' := by
  obtain ⟨hfresh, hnodup⟩ := List.nodup_cons.1 h.nodup
  have hstatus : ∀ id, outboxStatus w' id = outboxStatus w id := fun id => by rw [outboxStatus, houtbox, outboxStatus]
  have hcount := attempt?_some hx v
  refine ⟨fun id => ?_, fun id hid => ?_, fun id hid => ?_, fun l hl => ?_, hnodup, fun id hid => ?_⟩
  · rw [(hcount id).1, hdelivered, h.delivered]
  · have hne : id ≠ message.id := fun heq => hid (heq ▸ rfl)
    refine (h.agrees id (by simp)).of_rows (by rw [houtbox]) ?_ ?_
    · rw [(hcount id).1, if_neg fun h => hne h.1, Nat.add_zero]
    · rw [(hcount id).2, if_neg fun h => hne h.1, Nat.add_zero]
  · obtain rfl := Option.some.inj hid
    refine ⟨?_, (h.agrees _ (by simp)).of_rows (by rw [houtbox]) rfl rfl, hfresh⟩
    rw [hstatus]
    exact h.pending _ List.mem_cons_self
  · rw [hlinks] at hl
    rw [hstatus]
    exact h.links l hl
  · rw [hstatus]
    exact h.pending id (List.mem_cons_of_mem _ hid)

theorem atPlace_deliver {v : Visits} {w : World} (h : AtPlace out v (.ok (.waiting (message :: messages))) w)
    {d : Delivery} (hd : d.outboxId = message.id) :
    AtPlace out (.ok (.sent message (out.messageId w.deliveries.length) messages) :: v)
      (.ok (.sent message (out.messageId w.deliveries.length) messages)) (w.deliver d) := by
  have hattempt : attempt? (.ok (.sent message (out.messageId w.deliveries.length) messages)) =
      some (message.id, true) := rfl
  refine ⟨_, h.hold hattempt rfl rfl fun id => ?_, rfl, rfl⟩
  rw [deliveriesOf_deliver, hd]
  by_cases hid : message.id = id
  · simp [hid]
  · simp [hid, Ne.symm hid]

theorem atPlace_fail {v : Visits} {w : World} (h : AtPlace out v (.ok (.waiting (message :: messages))) w) (e : Exc) :
    AtPlace out (.ok (.failed message e messages) :: v) (.ok (.failed message e messages)) w :=
  have hattempt : attempt? (.ok (.failed message e messages)) = some (message.id, false) := rfl
  Tally.hold h hattempt rfl rfl fun id => by simp

/-- `Q` of the value that is returned, or `P` where the program raises. -/
def OnReturn {α : Type} (P : World → Prop) (Q : α → World → Prop) : Except Exc α → World → Prop
  | .ok a => Q a
  | .error _ => P

theorem onReturn_stable {α : Type} {P : World → Prop} {Q : α → World → Prop} {R : World → World → Prop}
    (hP : Stable R P) (hQ : ∀ a, Stable R (Q a)) : ∀ x, Stable R (OnReturn P Q x)
  | .ok a => hQ a
  | .error _ => hP

theorem send_flushing {v : Visits} (hv : v = .ok (.waiting (message :: messages)) :: past)
    (h : AtPlace out v (.ok (.waiting (message :: messages))) w) :
    FlusherTurn v (fun x => AtPlace out (x :: v) x) (Flusher.next out (.waiting (message :: messages))) w := by
  let P := AtPlace out v (.ok (.waiting (message :: messages)))
  have hP : Stable OnlyEnqueued P := atPlace_stable out v _
  have hkept : ∀ s, P s → OutboxKept v s := by
    subst hv
    exact fun s hs => hs.kept
  let Q := OnReturn P fun place => AtPlace out (.ok place :: v) (.ok place)
  have hQ : ∀ x, Stable OnlyEnqueued (Q x) := onReturn_stable hP fun place => atPlace_stable out _ _
  refine RG.tryCatch OnlyEnqueued.refl (M := Q) ?_ (fun place s hs => hs) fun e s hs => ?_
  · have hread := readAttachments_flushing hP hkept message.attachments h
    refine RG.bind OnlyEnqueued.refl hread (fun attachments s hs => ?_) fun e s hs => hs
    let Q' := OnReturn P fun id => AtPlace out (.ok (.sent message id messages) :: v) (.ok (.sent message id messages))
    have hQ' : ∀ x, Stable OnlyEnqueued (Q' x) := onReturn_stable hP fun id => atPlace_stable out _ _
    have hsend : FlusherTurn v Q' (sendEmail out message attachments) s := by
      refine rg_atomic hP hQ' (fun s hs _ => ⟨⟨hkept s hs, .refl s⟩, ?_⟩) (fun s e hs _ => hs) hs
      exact atPlace_deliver hs rfl
    exact RG.bind OnlyEnqueued.refl hsend (fun id s hs => rg_ret hQ hs) fun e s hs => hs
  · exact rg_ret (fun x => atPlace_stable out _ x) (atPlace_fail hs e)

/-! #### Recording -/

theorem Tally.release {v : Visits} {n : Nat} {w w' : World} (h : Tally out v (some message.id) n messages w)
    (hothers : ∀ id, id ≠ message.id → w'.outbox.find? id = w.outbox.find? id) (hagrees : AgreesAt w' v message.id)
    (hdeliveries : w'.deliveries = w.deliveries) (hlinks : w'.messageLinks = w.messageLinks) :
    Tally out v none n messages w' := by
  obtain ⟨hheld, -, hfresh⟩ := h.behind message.id rfl
  have hstatus : ∀ id, id ≠ message.id → outboxStatus w' id = outboxStatus w id :=
    fun id hid => by rw [outboxStatus, hothers id hid, outboxStatus]
  refine ⟨fun id => ?_, fun id _ => ?_, (fun id hid => by cases hid), fun l hl => ?_, h.nodup, fun id hid => ?_⟩
  · rw [← h.delivered id, deliveriesOf, hdeliveries, deliveriesOf]
  · by_cases hid : id = message.id
    · rwa [hid]
    · exact (h.agrees id fun heq => hid (Option.some.inj heq).symm).of_rows (hothers id hid) rfl rfl
  · rw [hlinks] at hl
    obtain ⟨hused, hsent⟩ := h.links l hl
    refine ⟨hused, ?_⟩
    rw [hstatus _ fun heq => ?_]
    · exact hsent
    · rw [heq, hheld] at hsent
      cases hsent
  · rw [hstatus id fun heq => hfresh (heq ▸ hid)]
    exact h.pending id hid

theorem Tally.row {v : Visits} {n : Nat} (h : Tally out v (some message.id) n messages w) :
    ∃ row, w.outbox.find? message.id = some row ∧ row.status = .pending ∧
      RowAgrees row (sends v.tail message.id) (failures v.tail message.id) := by
  obtain ⟨hheld, hagrees, -⟩ := h.behind message.id rfl
  obtain ⟨row, hrow, hstatus⟩ := Option.map_eq_some_iff.1 hheld
  exact ⟨row, hrow, hstatus, hagrees.1 row hrow⟩

theorem find?_modifyOutbox (w : World) (id : Nat) (f : OutboxMessage → OutboxMessage) (hf : ∀ r, (f r).id = r.id)
    (id' : Nat) : (w.modifyOutbox id f hf).outbox.find? id' =
      if id' = id then (w.outbox.find? id').map f else w.outbox.find? id' :=
  Table.find?_modify _ id f hf id'

theorem keepsMail_modify (w : World) (id : Nat) (f : OutboxMessage → OutboxMessage) (hf : ∀ r, (f r).id = r.id)
    (hmail : ∀ r, (f r).mail = r.mail) : KeepsMail w (w.modifyOutbox id f hf) := by
  intro id' row hrow
  rw [find?_modifyOutbox]
  split_ifs with hid
  · subst hid
    exact ⟨f row, by rw [hrow]; rfl, hmail row⟩
  · exact ⟨row, hrow, rfl⟩

theorem unlinked_recordSent {id : Text} {v : Visits} (hv : v = .ok (.sent message id messages) :: past)
    (h : AtPlace out v (.ok (.sent message id messages)) w) (now : Instant) :
    Unlinked out v message id messages (Outbox.recordSent w message.id now) := by
  obtain ⟨n, htally, hlength, hid⟩ := h
  obtain ⟨row, hrow, hpending, hattempts, hstatus⟩ := htally.row
  obtain ⟨hsends, hfailures⟩ := attempt?_some (x := .ok (.sent message id messages)) rfl past message.id
  have hfind : (Outbox.recordSent w message.id now).outbox.find? message.id =
      some { row with status := .sent, sentAt := some now } := by
    rw [Outbox.recordSent, find?_modifyOutbox, if_pos rfl, hrow]
    rfl
  have hunlinked : ∀ l ∈ w.messageLinks.rows, l.outboxId ≠ message.id := by
    intro l hl heq
    have hsent := (htally.links l hl).2
    rw [heq, (htally.behind message.id rfl).1] at hsent
    cases hsent
  refine ⟨n, htally.release (fun id' hne => ?_) ⟨fun row' hrow' => ?_, fun hnone => ?_⟩ rfl rfl, hlength, hid, ?_,
    hunlinked⟩
  · rw [Outbox.recordSent, find?_modifyOutbox, if_neg hne]
  · obtain rfl := Option.some.inj (hfind.symm.trans hrow')
    subst hv
    rw [hpending] at hstatus
    simp only [List.tail_cons, reduceCtorEq, false_and, false_or, true_and] at hattempts hstatus
    rw [hsends, hfailures]
    exact ⟨by simpa using hattempts, .inl ⟨rfl, by simp [hstatus.1], by simpa using hstatus.2⟩⟩
  · rw [hfind] at hnone
    cases hnone
  · rw [outboxStatus, hfind]
    rfl

theorem unlinked_free (hfresh : Function.Injective out.messageId) {id : Text} {v : Visits}
    (h : Unlinked out v message id messages w) : w.messageLinks.Free message.id id := by
  obtain ⟨n, htally, -, rfl, -, hlinks⟩ := h
  refine ⟨hlinks, fun l hl heq => ?_⟩
  obtain ⟨⟨i, hi, hid⟩, -⟩ := htally.links l hl
  exact absurd (hfresh (hid.symm.trans heq)) (Nat.ne_of_lt hi)

theorem Tally.more {v : Visits} {held : Option Nat} {n n' : Nat} (h : Tally out v held n messages w) (hn : n ≤ n') :
    Tally out v held n' messages w :=
  { h with
    links := fun l hl => by
      obtain ⟨⟨i, hi, hid⟩, hsent⟩ := h.links l hl
      exact ⟨⟨i, Nat.lt_of_lt_of_le hi hn, hid⟩, hsent⟩ }

theorem unlinked_link {id : Text} {v : Visits} (h : Unlinked out v message id messages w) {l : MessageLink}
    (hl : l.outboxId = message.id ∧ l.messageId = id) {t : MessageLinks} (ht : w.messageLinks.insert l = .ok t) :
    AtPlace out v (.ok (.waiting messages)) { w with messageLinks := t } := by
  obtain ⟨n, htally, hlength, rfl, hsent, -⟩ := h
  obtain ⟨hout, hid⟩ := hl
  have hmore : Tally out v none w.deliveries.length messages w := htally.more (by omega)
  refine { hmore with links := fun l' hl' => ?_ }
  rw [MessageLinks.insert_rows ht, List.mem_append, List.mem_singleton] at hl'
  rcases hl' with hl' | rfl
  · exact hmore.links l' hl'
  · refine ⟨⟨n, ?_, hid⟩, ?_⟩
    · show n < w.deliveries.length
      omega
    · rw [hout]
      exact hsent

theorem atPlace_recordFailure {e : Exc} {v : Visits} (hv : v = .ok (.failed message e messages) :: past)
    (h : AtPlace out v (.ok (.failed message e messages)) w) {row : OutboxMessage}
    (hrow : w.outbox.find? message.id = some row) (error : Text) :
    AtPlace out v (.ok (.waiting messages)) (Outbox.recordFailure w message.id (row.attempts + 1) error) := by
  have htally : Tally out v (some message.id) w.deliveries.length messages w := h
  obtain ⟨row', hrow', hpending, hattempts, hstatus⟩ := htally.row
  obtain rfl : row = row' := Option.some.inj (hrow.symm.trans hrow')
  obtain ⟨hsends, hfailures⟩ := attempt?_some (x := .ok (.failed message e messages)) rfl past message.id
  have hfind : (Outbox.recordFailure w message.id (row.attempts + 1) error).outbox.find? message.id =
      some { row with status := Outbox.failureStatus (row.attempts + 1), attempts := row.attempts + 1,
                      lastError := some error } := by
    rw [Outbox.recordFailure, find?_modifyOutbox, if_pos rfl, hrow]
    rfl
  refine htally.release (fun id' hne => ?_) ⟨fun row' hrow' => ?_, fun hnone => ?_⟩ rfl rfl
  · rw [Outbox.recordFailure, find?_modifyOutbox, if_neg hne]
  · obtain rfl := Option.some.inj (hfind.symm.trans hrow')
    subst hv
    rw [hpending] at hstatus
    simp only [List.tail_cons, reduceCtorEq, false_and, false_or, true_and] at hattempts hstatus
    rw [hsends, hfailures]
    refine ⟨by simp [hattempts], ?_⟩
    simp only [and_true, reduceCtorEq, and_false, if_false, if_true, Nat.add_zero]
    by_cases hmany : row.attempts + 1 ≥ Outbox.maxSendAttempts
    · have hfive : failures past message.id + 1 = 5 := by
        simp only [Outbox.maxSendAttempts] at hmany
        omega
      exact .inr (.inl ⟨if_pos hmany, hfive, hstatus.1⟩)
    · have hfew : failures past message.id + 1 < 5 := by
        simp only [Outbox.maxSendAttempts] at hmany
        omega
      exact .inr (.inr ⟨if_neg hmany, hstatus.1, hfew⟩)
  · rw [hfind] at hnone
    cases hnone

theorem noFault {l : Stmt} (hread : l ≠ .readFile) (hsend : ∀ id, l ≠ .send id) (w : World) (e : Exc) :
    ¬ SendsFail.fault l w e := by
  rintro (h | ⟨id, h⟩)
  · exact hread h
  · exact hsend id h

theorem markSent_flushing (hfresh : Function.Injective out.messageId) {id : Text} {v : Visits}
    (hv : v = .ok (.sent message id messages) :: past) (h : AtPlace out v (.ok (.sent message id messages)) w) :
    FlusherTurn v (Surely (AtPlace out v (.ok (.waiting messages)))) (Outbox.markSent out message.id id) w := by
  have hheld : Stable OnlyEnqueued (AtPlace out v (.ok (.sent message id messages))) := atPlace_stable out v _
  have hdone : Stable OnlyEnqueued (AtPlace out v (.ok (.waiting messages))) := atPlace_stable out v _
  have hunlinked := unlinked_stable out v message id messages
  have hkept : ∀ s, AtPlace out v (.ok (.sent message id messages)) s → OutboxKept v s := by
    subst hv
    exact fun s hs => hs.kept
  have hkept' : ∀ s, Unlinked out v message id messages s → OutboxKept v s := by
    rintro s ⟨n, htally, -⟩
    refine htally.kept (by simp) ?_
    subst hv
    simp
  have hselect : FlusherTurn v (Surely (AtPlace out v (.ok (.sent message id messages))))
      (observe .selectOutbox fun w => w.outbox.find? message.id : M (Option OutboxMessage)) w :=
    rg_observe hheld (stable_surely hheld) (fun s hs => ⟨⟨hkept s hs, .refl s⟩, hs⟩)
      (fun s e _ he => noFault (by simp) (by simp) s e he) h
  refine RG.bind OnlyEnqueued.refl hselect (fun row s hs => ?_) fun _ _ h => h.elim
  refine RG.bind OnlyEnqueued.refl (utcnow_flushing hheld hkept hs) (fun now s hs => ?_) fun _ _ h => h.elim
  have hsent : FlusherTurn v (Surely (Unlinked out v message id messages)) (Outbox.setSent message.id now) s :=
    rg_change hheld (stable_surely hunlinked)
      (fun s hs _ => ⟨⟨hkept s hs, keepsMail_modify s _ _ _ fun _ => rfl⟩, unlinked_recordSent hv hs now⟩)
      (fun s e _ he => noFault (by simp) (by simp) s e he) hs
  refine RG.bind OnlyEnqueued.refl hsent (fun _ s hs => ?_) fun _ _ h => h.elim
  split_ifs
  · refine RG.bind OnlyEnqueued.refl (utcnow_flushing hunlinked hkept' hs) (fun createdAt s hs => ?_) fun _ _ h => h.elim
    refine rg_atomic hunlinked (stable_surely hdone) (fun s hs _ => ?_)
      (fun s e _ he => noFault (by simp) (by simp) s e he) hs
    obtain ⟨t, ht⟩ : ∃ t, s.messageLinks.insert ⟨message.id, row.bind OutboxMessage.jobId, id, createdAt⟩ = .ok t :=
      (s.messageLinks.insert_isOk _).2 (unlinked_free hfresh hs)
    simp only [ht]
    exact ⟨⟨hkept' s hs, .refl s⟩, unlinked_link hs ⟨rfl, rfl⟩ ht⟩
  · refine rg_ret (stable_surely hdone) ?_
    obtain ⟨n, htally, hlength, -⟩ := hs
    exact htally.more (by omega)

theorem record_flushing (hfresh : Function.Injective out.messageId) {id : Text} {v : Visits}
    (hv : v = .ok (.sent message id messages) :: past) (h : AtPlace out v (.ok (.sent message id messages)) w) :
    FlusherTurn v (fun x => AtPlace out (x :: v) x) (Flusher.next out (.sent message id messages)) w := by
  have hdone : Stable OnlyEnqueued (AtPlace out v (.ok (.waiting messages))) := atPlace_stable out v _
  have hkept : ∀ s, AtPlace out v (.ok (.waiting messages)) s → OutboxKept v s := by
    intro s hs
    refine Tally.kept hs (by simp) ?_
    subst hv
    simp
  have hplaces : ∀ x, Stable OnlyEnqueued (AtPlace out (x :: v) x) := fun x => atPlace_stable out _ x
  refine RG.tryCatch OnlyEnqueued.refl (M := fun x => AtPlace out (x :: v) x) ?_ (fun place s hs => hs)
    fun e s hs => hs.elim
  refine RG.bind OnlyEnqueued.refl (M := Surely (AtPlace out v (.ok (.waiting messages)))) ?_ (fun _ s hs => ?_)
    fun e s hs => hs.elim
  · refine RG.bind OnlyEnqueued.refl (markSent_flushing hfresh hv h) (fun _ s hs => ?_) fun e s hs => hs.elim
    exact recordJob_flushing hdone hkept message id hs
  · exact rg_ret hplaces (Tally.visit hs rfl)

theorem recordError_flushing {e : Exc} {v : Visits} (hv : v = .ok (.failed message e messages) :: past)
    (h : AtPlace out v (.ok (.failed message e messages)) w) :
    FlusherTurn v (fun x => AtPlace out (x :: v) x) (Flusher.next out (.failed message e messages)) w := by
  have hheld : Stable OnlyEnqueued (AtPlace out v (.ok (.failed message e messages))) := atPlace_stable out v _
  have hdone : Stable OnlyEnqueued (AtPlace out v (.ok (.waiting messages))) := atPlace_stable out v _
  have hplaces : ∀ x, Stable OnlyEnqueued (AtPlace out (x :: v) x) := fun x => atPlace_stable out _ x
  have hkept : ∀ s, AtPlace out v (.ok (.failed message e messages)) s → OutboxKept v s := by
    subst hv
    exact fun s hs => hs.kept
  refine RG.bind OnlyEnqueued.refl (M := Surely (AtPlace out v (.ok (.waiting messages)))) ?_
    (fun _ s hs => rg_ret hplaces (Tally.visit hs rfl)) fun e s hs => hs.elim
  refine RG.bind OnlyEnqueued.refl (M := Surely (AtPlace out v (.ok (.waiting messages)))) ?_
    (fun _ s hs => rg_ret (stable_surely hdone) hs) fun e s hs => hs.elim
  let Read : Except Exc (Option OutboxMessage) → World → Prop
    | .ok row, w => AtPlace out v (.ok (.failed message e messages)) w ∧ ∃ r, row = some r ∧
        w.outbox.find? message.id = some r
    | .error _, _ => False
  have hread : ∀ x, Stable OnlyEnqueued (Read x) := by
    rintro (e | row) s s' hmove hs
    · exact hs
    · obtain ⟨hs, r, rfl, hr⟩ := hs
      exact ⟨hheld s s' hmove hs, r, rfl, hmove.enqueues.1 _ _ hr⟩
  have hselect : FlusherTurn v Read
      (observe .selectOutbox fun w => w.outbox.find? message.id : M (Option OutboxMessage)) w := by
    refine rg_observe hheld hread (fun s hs => ⟨⟨hkept s hs, .refl s⟩, hs, ?_⟩)
      (fun s e _ he => noFault (by simp) (by simp) s e he) h
    obtain ⟨row, hrow, -⟩ := Tally.row hs
    exact ⟨row, hrow, hrow⟩
  refine RG.bind OnlyEnqueued.refl hselect (fun row s hs => ?_) fun _ _ h => h.elim
  obtain ⟨r, rfl⟩ : ∃ r, row = some r := by
    obtain ⟨-, r, heq, -⟩ := hs
    exact ⟨r, heq⟩
  refine rg_change (hread (.ok (some r))) (stable_surely hdone) (fun s hs _ => ?_)
    (fun s e _ he => noFault (by simp) (by simp) s e he) hs
  obtain ⟨hs, r', heq, hr⟩ := hs
  obtain rfl := Option.some.inj heq
  exact ⟨⟨hkept s hs, keepsMail_modify s _ _ _ fun _ => rfl⟩, atPlace_recordFailure hv hs hr _⟩

theorem pending_flushing {v : Visits} (hv : v = .ok (.waiting []) :: past) (h : AtPlace out v (.ok (.waiting [])) w) :
    FlusherTurn v (fun x => AtPlace out (x :: v) x) (Flusher.next out (.waiting [])) w := by
  have hplace : Stable OnlyEnqueued (AtPlace out v (.ok (.waiting []))) := atPlace_stable out v _
  let Q : Except Exc (List OutboxMessage) → World → Prop
    | .ok messages => AtPlace out v (.ok (.waiting messages))
    | .error _ => fun _ => False
  have hQ : ∀ x, Stable OnlyEnqueued (Q x) := by
    rintro (e | messages)
    · exact fun _ _ _ h => h
    · exact atPlace_stable out v _
  have hselect : FlusherTurn v Q Outbox.pending w := by
    have hkept : ∀ s, AtPlace out v (.ok (.waiting [])) s → OutboxKept v s := by
      subst hv
      exact fun s hs => hs.kept
    refine rg_observe hplace hQ (fun s hs => ⟨⟨hkept s hs, .refl s⟩, ?_⟩)
      (fun s e _ he => noFault (by simp) (by simp) s e he) h
    have htally : Tally out v none s.deliveries.length [] s := hs
    exact { htally with
      behind := by simp
      nodup := pendingRows_nodup s
      pending := pendingRows_pending s }
  refine RG.bind OnlyEnqueued.refl hselect (fun messages s hs => ?_) fun _ _ h => h.elim
  exact rg_ret (fun x => atPlace_stable out _ x) (Tally.visit hs rfl)

end

/-! ### Runs -/

/-- What the other threads do to the outbox. -/
def MailRely : MailThread → World → World → Prop
  | .flusher => OnlyEnqueued
  | .caller _ => KeepsMail

def MailGuarantee (t : MailThread) (v : List (Except Exc t.Place)) : World → World → Prop :=
  match t, v with
  | .flusher, v => fun s s' => OutboxKept v s ∧ KeepsMail s s'
  | .caller _, _ => OnlyEnqueued

/-- What is known at a place: a message that has been enqueued is there. -/
def MailKnown (out : Outside) (t : MailThread) (v : List (Except Exc t.Place)) : World → Prop :=
  match t, v with
  | .flusher, [] => fun _ => False
  | .flusher, x :: past => AtPlace out (x :: past) x
  | .caller _, v => fun w => ∀ id, v.head? = some (.ok (some id)) → (w.outbox.find? id).isSome

theorem KeepsMail.isSome {w w' : World} (h : KeepsMail w w') {id : Nat} (hid : (w.outbox.find? id).isSome) :
    (w'.outbox.find? id).isSome := by
  obtain ⟨row, hrow⟩ := Option.isSome_iff_exists.1 hid
  obtain ⟨row', hrow', -⟩ := h id row hrow
  exact Option.isSome_iff_exists.2 ⟨row', hrow'⟩

theorem enqueued_append (w : World) (row : Nat → OutboxMessage) (hrow : ∀ n, (row n).id = n)
    (hnew : ∀ n, (row n).status = .pending ∧ (row n).attempts = 0) :
    OnlyEnqueued w { w with outbox := w.outbox.append row hrow } := by
  refine ⟨fun id => ?_, rfl, rfl⟩
  simp only [Table.find?_append]
  split_ifs with hid
  · refine .inr ⟨Table.find?_eq_none.2 fun hmem => ?_, _, rfl, hnew _⟩
    obtain ⟨row, hrow, heq⟩ := List.mem_map.1 hmem
    have hless := Table.lt_next hrow
    omega
  · exact .inl rfl

theorem enqueue_enqueued (out : Outside) (toEmail subject bodyText : Text) (jobId : Option Text)
    (attachments : List Text) (inReplyTo references : Option Text) (w : World) :
    RG SendsFail KeepsMail OnlyEnqueued (fun x w => ∀ id, x = .ok id → (w.outbox.find? id).isSome)
      (Outbox.enqueue out toEmail subject bodyText jobId attachments inReplyTo references) w := by
  have hQ : ∀ x : Except Exc Nat, Stable KeepsMail fun w => ∀ id, x = .ok id → (w.outbox.find? id).isSome :=
    fun x s s' h hs id hid => h.isSome (hs id hid)
  have hclock : RG SendsFail KeepsMail OnlyEnqueued (fun _ _ => True) (utcnow out) w :=
    rg_atomic (P := fun _ => True) (fun _ _ _ _ => trivial) (fun _ _ _ _ _ => trivial)
      (fun s _ _ => ⟨⟨fun _ => .inl rfl, rfl, rfl⟩, trivial⟩) (fun _ _ _ _ => trivial) trivial
  refine RG.bind KeepsMail.refl hclock (fun createdAt s _ => ?_) fun e s _ id hid => by cases hid
  refine rg_atomic (P := fun _ => True) (fun _ _ _ _ => trivial) hQ
    (fun s _ _ => ⟨enqueued_append s _ (fun _ => rfl) fun _ => ⟨rfl, rfl⟩, fun id hid => ?_⟩)
    (fun s e _ _ id hid => by cases hid) trivial
  obtain rfl := Except.ok.inj hid
  simp [Table.find?_append]

theorem mailTurns (out : Outside) (hfresh : Function.Injective out.messageId) :
    RunSpec SendsFail (MailTurn out) MailRely MailGuarantee (MailKnown out) where
  refl t w := by
    cases t with
    | flusher => exact .refl w
    | caller n => exact .refl w
  trans t a b c := by
    cases t with
    | flusher => exact .trans
    | caller n => exact .trans
  others t u htu v s s' h := by
    cases t with
    | flusher =>
      cases u with
      | flusher => exact absurd rfl htu
      | caller n => exact h.2
    | caller n =>
      cases u with
      | flusher => exact h
      | caller m => exact OnlyEnqueued.keepsMail h
  taken t past x p s hp hs := by
    cases hp with
    | flush place =>
      match place with
      | .waiting [] => exact pending_flushing rfl hs
      | .waiting (message :: messages) => exact send_flushing rfl hs
      | .sent message id messages => exact record_flushing hfresh rfl hs
      | .failed message e messages => exact recordError_flushing rfl hs
      | .unrecorded message e messages => exact (hs : False).elim
    | restart e => exact (hs : False).elim
    | enqueue n x toEmail subject bodyText jobId attachments inReplyTo references =>
      have hknown : ∀ y : Except Exc (Option Nat), Stable KeepsMail (MailKnown out (.caller n) (y :: x :: past)) :=
        fun y s s' h hs id hid => h.isSome (hs id hid)
      refine RG.bind KeepsMail.refl
        (enqueue_enqueued out toEmail subject bodyText jobId attachments inReplyTo references s)
        (fun id s hs => rg_ret hknown fun id' hid => ?_) fun e s hs id hid => by cases hid
      obtain rfl : id = id' := Option.some.inj (Except.ok.inj (Option.some.inj hid))
      exact hs id rfl

theorem idleMail_ok (out : Outside) {w : World} (hw : NeverTried w) :
    RunOk SendsFail MailRely MailGuarantee (MailKnown out) (fun _ => []) (idleMail, w) := by
  intro t
  cases t with
  | caller n =>
    intro s _ id hid
    cases Except.ok.inj (Option.some.inj hid)
  | flusher =>
    intro s hws
    have hstable := atPlace_stable out [.ok (.waiting [])] (.ok (.waiting []))
    refine hstable w s hws ?_
    refine ⟨fun id => ?_, fun id _ => ⟨fun row hrow => ?_, fun _ => ⟨rfl, rfl⟩⟩, by simp, fun l hl => ?_,
      List.nodup_nil, by simp [AllPending]⟩
    · rw [deliveriesOf, hw.deliveries]
      rfl
    · obtain ⟨hpending, hattempts⟩ := hw.rows row (Table.find?_mem hrow)
      exact ⟨hattempts, .inr (.inr ⟨hpending, rfl, Nat.succ_pos 4⟩)⟩
    · rw [hw.links] at hl
      cases hl

/-- **Every message is accounted for.** At all times of every run of a single flusher, the messages are all there, each
row has the status and the counter that the sends of its message give it, and only PENDING messages are tried; the row of
the message that has just been tried is one attempt behind until that attempt is recorded. -/
theorem outbox_conserved {out : Outside} (hfresh : Function.Injective out.messageId) {w : World} (hw : NeverTried w)
    {past : (t : MailThread) → List (Except Exc t.Place)} {c : ((t : MailThread) → M t.Place) × World}
    (hrun : MailRun out w past c) :
    OutboxKept (visited past c.1 .flusher) c.2 ∧
      (∀ c', TurnSteps SendsFail (MailTurn out) c c' → KeepsMail c.2 c'.2) ∧
      ∀ n id, c.1 (.caller n) = ret (some id) → (c.2.outbox.find? id).isSome := by
  have hspec := mailTurns out hfresh
  have hidle := idleMail_ok out hw
  have hok := hspec.run hrun hidle
  refine ⟨?_, fun c' => hspec.moves KeepsMail.refl (fun _ _ _ => .trans) ?_ hok, fun n id hid => ?_⟩
  · let J : (t : MailThread) → List (Except Exc t.Place) → World → Prop := fun t v w =>
      match t, v with
      | .flusher, v => OutboxKept v w
      | .caller _, _ => True
    refine hspec.always (J := J) (fun _ _ => trivial) (fun t v s hs => ?_) (fun t v s s' hs => ?_) hrun hidle .flusher
    · cases t with
      | caller n => trivial
      | flusher =>
        cases v with
        | nil => exact (hs : False).elim
        | cons x v => exact AtPlace.kept hs
    · cases t with
      | caller n => trivial
      | flusher => exact hs.1
  · rintro t v s s' hs
    cases t with
    | flusher => exact hs.2
    | caller n => exact OnlyEnqueued.keepsMail hs
  · have hplace : MailKnown out (.caller n) (.ok (some id) :: past (.caller n)) c.2 := hok.at_place hspec.refl hid
    exact hplace id rfl

/-! ### Runs on one message -/

/-- A provider whose ids differ in length. -/
def lengthening : Outside := { Outside.plain with messageId := fun n => List.replicate (n + 1) 'm' }

theorem lengthening_fresh : Function.Injective lengthening.messageId := fun a b h => by
  simpa [lengthening] using congrArg List.length h

def newMessage : OutboxMessage :=
  { id := 1, toEmail := "alice@uni.ac.uk", subject := "Status", bodyText := "Queued", createdAt := 0 }

def oneUnsent : World where
  outbox := ⟨[newMessage], List.nodup_singleton _⟩

theorem oneUnsent_unsent : NeverTried oneUnsent where
  rows row hrow := by
    obtain rfl := List.mem_singleton.1 hrow
    exact ⟨rfl, rfl⟩
  deliveries := rfl
  links := rfl

/-- The first cycle, up to the end of the first attempt. -/
theorem first_attempt {place : FlusherPlace} {w : World}
    (hsend : Steps SendsFail (Flusher.next lengthening (.waiting [newMessage]), oneUnsent) (ret place, w)) :
    ∃ past c, MailRun lengthening oneUnsent past (c, w) ∧
      visited past c .flusher = [.ok place, .ok (.waiting [newMessage]), .ok (.waiting [])] := by
  have hcycle : Steps SendsFail (Flusher.next lengthening (.waiting []), oneUnsent)
      (ret (.waiting [newMessage]), oneUnsent) := .single (.ok trivial)
  have hstart : MailRun lengthening oneUnsent (fun _ => []) (idleMail, oneUnsent) := .start
  have hrun := hstart.next (t := MailThread.flusher) (x := .ok (.waiting [])) rfl (MailTurn.flush (.waiting [])) hcycle
  have hrun' := hrun.next (t := MailThread.flusher) (x := .ok (.waiting [newMessage])) rfl
    (MailTurn.flush (.waiting [newMessage])) hsend
  exact ⟨_, _, hrun', rfl⟩

/-- The provider has accepted the message, and its row is still PENDING. -/
theorem send_unrecorded : ¬ ∀ (out : Outside) (w : World) past c, Function.Injective out.messageId → NeverTried w →
    MailRun out w past c → ∀ id row, c.2.outbox.find? id = some row →
      RowAgrees row (sends (visited past c.1 .flusher) id) (failures (visited past c.1 .flusher) id) := by
  intro h
  have hsend : Steps SendsFail (Flusher.next lengthening (.waiting [newMessage]), oneUnsent)
      (ret (.sent newMessage "m" []), oneUnsent.deliver (deliveryOf newMessage [] "m")) := .single (.ok trivial)
  obtain ⟨past, c, hrun, hvisited⟩ := first_attempt hsend
  have hrow := (h _ _ _ _ lengthening_fresh oneUnsent_unsent hrun 1 newMessage rfl).status
  rw [hvisited] at hrow
  revert hrow
  decide

/-- A message whose sending raises once. -/
theorem outbox_conserved_retried : ∃ past c, MailRun lengthening oneUnsent past c ∧
    failures (visited past c.1 .flusher) 1 = 1 ∧ OutboxKept (visited past c.1 .flusher) c.2 := by
  have hsend : Steps SendsFail (Flusher.next lengthening (.waiting [newMessage]), oneUnsent)
      (ret (.failed newMessage ⟨.providerError, "send failed"⟩ []), oneUnsent) := .single (.fault (.inr ⟨1, rfl⟩))
  obtain ⟨past, c, hrun, hvisited⟩ := first_attempt hsend
  refine ⟨past, (c, oneUnsent), hrun, ?_, (outbox_conserved lengthening_fresh oneUnsent_unsent hrun).1⟩
  rw [hvisited]
  rfl

end GroupAssessmentAgent
