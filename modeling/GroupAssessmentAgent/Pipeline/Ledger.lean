import GroupAssessmentAgent.Lib.Admission
import GroupAssessmentAgent.Pipeline.Frame

/-!
# The ledger of inbound messages

A row of `processed_messages` is an `Entry`: in progress after a number of attempts, or closed with its outcome.
`begin` and `finalize` are the operations on it: `begin` returns True exactly where the entry admits another attempt
and records it (`begin_rg`), and `finalize` closes the entry (`finalize_rg`). All their statements are `LedgerMove`s.
-/

namespace GroupAssessmentAgent
open Prog

def ProcessedMessage.entry (r : ProcessedMessage) : Entry Text :=
  if r.outcome = inProgress then .started r.attemptCount else .closed r.outcome

/-- What the ledger holds for a message id. -/
def entryOf (w : World) (messageId : Text) : Entry Text :=
  (w.processedMessages.find? messageId).elim .unseen ProcessedMessage.entry

/-- The ledger admits another attempt. -/
abbrev Admitted (w : World) (messageId : Text) : Prop := (entryOf w messageId).Admits maxProcessingAttempts

/-- A statement on the ledger: every entry makes one of its moves, and only the clock runs besides. -/
def LedgerMove (w w' : World) : Prop :=
  (∃ t n, w' = { w with processedMessages := t, ticks := n }) ∧
    ∀ messageId, Entry.Moves maxProcessingAttempts (entryOf w messageId) (entryOf w' messageId)

theorem LedgerMove.refl (w : World) : LedgerMove w w := ⟨⟨_, _, rfl⟩, fun _ => .stay _⟩

theorem LedgerMove.tick (w : World) : LedgerMove w w.tick := ⟨⟨_, _, rfl⟩, fun _ => .stay _⟩

/-! ### The entries after a statement -/

theorem entryOf_insert {w : World} {row : ProcessedMessage} {t : Table ProcessedMessage.messageId}
    (h : w.processedMessages.insert? row = some t) (messageId : Text) :
    entryOf { w with processedMessages := t } messageId =
      if messageId = row.messageId then row.entry else entryOf w messageId := by
  simp only [entryOf, Table.find?_insert? h, eq_comm (a := messageId)]
  split_ifs <;> rfl

theorem entryOf_taken {w : World} {row : ProcessedMessage} (h : w.processedMessages.insert? row = none) :
    entryOf w row.messageId ≠ .unseen := by
  obtain ⟨b, hb⟩ := Table.insert?_eq_none h
  rw [entryOf, hb]
  show b.entry ≠ .unseen
  unfold ProcessedMessage.entry
  split_ifs <;> simp

theorem entryOf_free {w : World} {row : ProcessedMessage} {t : Table ProcessedMessage.messageId}
    (h : w.processedMessages.insert? row = some t) : entryOf w row.messageId = .unseen := by
  rw [entryOf, (Table.insert?_isSome _ _).1 (by rw [h]; rfl)]
  rfl

theorem entryOf_modify (w : World) (messageId : Text) (f : ProcessedMessage → ProcessedMessage)
    (hf : ∀ r, (f r).messageId = r.messageId) (messageId' : Text) :
    entryOf (w.modifyProcessed messageId f hf) messageId' =
      if messageId' = messageId then
        (w.processedMessages.find? messageId).elim .unseen fun r => (f r).entry
      else entryOf w messageId' := by
  simp only [entryOf, World.modifyProcessed, Table.find?_modify]
  split_ifs with h
  · subst h
    cases w.processedMessages.find? messageId' <;> rfl
  · rfl

theorem entryOf_finalize (w : World) (messageId : Text) {outcome : Text} (houtcome : outcome ≠ inProgress)
    (jobId operation : Option Text) (processedAt : Option Instant) (messageId' : Text) :
    entryOf (w.modifyProcessed messageId (fun r => { r with outcome, jobId, operation, processedAt })
        fun _ => rfl) messageId' =
      if messageId' = messageId then (entryOf w messageId).close outcome else entryOf w messageId' := by
  rw [entryOf_modify]
  split_ifs
  · have hclosed : ∀ r : ProcessedMessage, r.entry.close outcome = .closed outcome := by
      intro r
      unfold ProcessedMessage.entry
      split_ifs <;> rfl
    unfold entryOf
    cases w.processedMessages.find? messageId with
    | none => rfl
    | some r => simp [ProcessedMessage.entry, houtcome, ← hclosed r]
  · rfl

theorem entryOf_retry {w : World} {messageId : Text} {n : Nat} (h : entryOf w messageId = .started n)
    (messageId' : Text) :
    entryOf (w.modifyProcessed messageId (fun r => { r with attemptCount := r.attemptCount + 1 }) fun _ => rfl)
        messageId' =
      if messageId' = messageId then .started (n + 1) else entryOf w messageId' := by
  rw [entryOf_modify]
  split_ifs
  · unfold entryOf at h
    cases hrow : w.processedMessages.find? messageId with
    | none => simp [hrow] at h
    | some r =>
      simp only [hrow, Option.elim, ProcessedMessage.entry] at h ⊢
      split_ifs at h ⊢
      cases h
      rfl
  · rfl

theorem moves_at {w w' : World} {messageId : Text} {e : Entry Text}
    (hmove : Entry.Moves maxProcessingAttempts (entryOf w messageId) e)
    (h : ∀ messageId', entryOf w' messageId' = if messageId' = messageId then e else entryOf w messageId')
    (messageId' : Text) : Entry.Moves maxProcessingAttempts (entryOf w messageId') (entryOf w' messageId') := by
  rw [h messageId']
  split_ifs with heq
  · subst heq
    exact hmove
  · exact .stay _

theorem overlooks_entryOf (messageId : Text) : Overlooks fun w => entryOf w messageId := by
  constructor <;> intros <;> rfl

theorem coversMarks_entryOf (messageId : Text) :
    CoversMarks (fun _ f => ∀ w, entryOf (f w) messageId = entryOf w messageId) fun id => messageId ≠ id := by
  refine ⟨⟨fun id f hne hf w => ?_, fun id f hne hf w => ?_⟩, fun _ _ => rfl⟩
  · obtain ⟨t, h, hother⟩ := hf w
    rw [h, entryOf, hother messageId hne, entryOf]
  · obtain ⟨t, h, hother⟩ := hf w
    rw [h, entryOf, hother messageId hne, entryOf]

/-! ### `begin` and `finalize` -/

section
variable (E : Env Stmt World Exc)

/-- The exception comes from the environment. -/
def Faulted (err : Exc) : Prop := ∃ l w, E.fault l w err

/-- A statement that leaves the entry `e` as it is, and raises only where the environment does. -/
def Still {α : Type} (e : Entry Text) (x : Except Exc α) (e' : Entry Text) : Prop :=
  e' = e ∧ ∀ err, x = .error err → Faulted E err

/-- What `begin` leaves of an entry `e`. -/
def Begun (e : Entry Text) (x : Except Exc Bool) (e' : Entry Text) : Prop :=
  match x with
  | .ok true => e.Admits maxProcessingAttempts ∧ e' = e.next
  | .ok false => ¬ e.Admits maxProcessingAttempts ∧ e' = e
  | .error err => e' = e ∧ Faulted E err

/-- What the INSERT of `begin` leaves of an entry `e`. -/
def Inserted (e : Entry Text) (x : Except Exc Bool) (e' : Entry Text) : Prop :=
  match x with
  | .ok true => e = .unseen ∧ e' = .started 1
  | .ok false => e ≠ .unseen ∧ e' = e
  | .error err => e' = e ∧ Faulted E err

/-- What its statement alone leaves: a message that was seen before is refused by the constraint. -/
def RowInserted (e : Entry Text) (x : Except Exc Bool) (e' : Entry Text) : Prop :=
  match x with
  | .ok b => Inserted E e (.ok b) e'
  | .error err => e' = e ∧
      (err.kind = .integrityError ∧ e ≠ .unseen ∨ err.kind ≠ .integrityError ∧ Faulted E err)

/-- What `finalize` leaves of an entry `e`. -/
def Finalized (outcome : Text) (e : Entry Text) (x : Except Exc Unit) (e' : Entry Text) : Prop :=
  match x with
  | .ok _ => e' = e.close outcome
  | .error err => e' = e ∧ Faulted E err

end

section
variable {E : Env Stmt World Exc} {R : World → World → Prop} {messageId : Text} {e : Entry Text} {α : Type}
  (hrefl : ∀ w, R w w) (hR : ∀ w w', R w w' → entryOf w' messageId = entryOf w messageId)

include hR in
theorem stable_entry (P : Entry Text → Prop) : Stable R fun w => P (entryOf w messageId) := by
  intro w w' h hw
  rw [hR w w' h]
  exact hw

include hR in
theorem ledger_rg {Q : Except Exc α → Entry Text → Prop} {l : Stmt} {h : World → Except Exc α × World}
    (hstep : ∀ w, entryOf w messageId = e → LedgerMove w (h w).2 ∧ Q (h w).1 (entryOf (h w).2 messageId))
    (hfault : ∀ w err, E.fault l w err → Q (.error err) e) {w : World} (hw : entryOf w messageId = e) :
    RG E R LedgerMove (fun x w => Q x (entryOf w messageId)) (atomic l h) w := by
  refine rg_atomic (stable_entry hR fun e' => e' = e) (fun x => stable_entry hR (Q x))
    (fun s hs _ => hstep s hs) (fun s err hs he => ?_) hw
  rw [hs]
  exact hfault s err he

include hR in
theorem ledger_change {Q : Except Exc Unit → Entry Text → Prop} {l : Stmt} {f : World → World}
    (hstep : ∀ w, entryOf w messageId = e → LedgerMove w (f w) ∧ Q (.ok ()) (entryOf (f w) messageId))
    (hfault : ∀ w err, E.fault l w err → Q (.error err) e) {w : World} (hw : entryOf w messageId = e) :
    RG E R LedgerMove (fun x w => Q x (entryOf w messageId)) (change l f) w :=
  ledger_rg (h := fun w => (.ok (), f w)) hR hstep hfault hw

include hR in
theorem ledger_look {l : Stmt} {h : World → α} {w : World} (hw : entryOf w messageId = e) {P : α → Prop}
    (hP : ∀ w, entryOf w messageId = e → P (h w)) :
    RG E R LedgerMove (fun x w => (∀ a, x = .ok a → P a) ∧ Still E e x (entryOf w messageId)) (observe l h) w := by
  refine ledger_rg (h := fun w => (.ok (h w), w)) (Q := fun x e' => (∀ a, x = .ok a → P a) ∧ Still E e x e') hR
    (fun s hs => ⟨LedgerMove.refl s, fun a ha => ?_, hs, fun err herr => ?_⟩)
    (fun s err he => ⟨fun a ha => ?_, rfl, ?_⟩) hw
  · cases ha
    exact hP s hs
  · cases herr
  · cases ha
  · rintro _ ⟨⟩
    exact ⟨l, s, he⟩

include hR in
theorem clock_rg (out : Outside) {w : World} (hw : entryOf w messageId = e) :
    RG E R LedgerMove (fun x w => Still E e x (entryOf w messageId)) (utcnow out) w := by
  refine ledger_rg (Q := Still E e) hR (fun s hs => ⟨LedgerMove.tick s, hs, fun err herr => ?_⟩)
    (fun s err he => ⟨rfl, ?_⟩) hw
  · cases herr
  · rintro _ ⟨⟩
    exact ⟨_, s, he⟩

include hR in
theorem insertStatement_rg (hE : ∀ l w e, E.fault l w e → e.kind ≠ .integrityError) {row : ProcessedMessage}
    (hid : row.messageId = messageId) (hrow : row.entry = .started 1) {w : World} (hw : entryOf w messageId = e) :
    RG E R LedgerMove (fun x w => RowInserted E e x (entryOf w messageId)) (ProcessedMessageStore.insertRow row) w := by
  refine ledger_rg (Q := RowInserted E e) hR (fun s hs => ?_)
    (fun s err he => ⟨rfl, .inr ⟨hE _ s err he, _, s, he⟩⟩) hw
  cases hins : s.processedMessages.insert? row with
  | none =>
    have htaken := entryOf_taken hins
    rw [hid, hs] at htaken
    exact ⟨LedgerMove.refl s, hs, .inl ⟨rfl, htaken⟩⟩
  | some t =>
    have hunseen := entryOf_free hins
    rw [hid] at hunseen
    have hafter := entryOf_insert (w := s) hins
    rw [hid, hrow] at hafter
    have hmove : Entry.Moves maxProcessingAttempts (entryOf s messageId) (.started 1) := by
      rw [hunseen]
      exact .next trivial
    refine ⟨⟨⟨t, s.ticks, rfl⟩, moves_at hmove hafter⟩, hs ▸ hunseen, ?_⟩
    simpa using hafter messageId

include hrefl hR in
theorem insertRow_rg (hE : ∀ l w e, E.fault l w e → e.kind ≠ .integrityError) {row : ProcessedMessage}
    (hid : row.messageId = messageId) (hrow : row.entry = .started 1) {w : World} (hw : entryOf w messageId = e) :
    RG E R LedgerMove (fun x w => Inserted E e x (entryOf w messageId))
      (onIntegrityError (ProcessedMessageStore.insertRow row) (pure false)) w := by
  have hstable := fun x => stable_entry hR (Inserted E e x)
  refine RG.tryCatch hrefl (insertStatement_rg hR hE hid hrow hw) (fun b s hs => hs) fun err s hs => ?_
  rcases hs with ⟨hs, ⟨hkind, hseen⟩ | ⟨hkind, hfault⟩⟩
  · rw [if_pos hkind]
    exact rg_ret hstable ⟨hseen, hs⟩
  · rw [if_neg hkind]
    exact rg_raise hstable ⟨hs, hfault⟩

include hR in
theorem retry_rg {n : Nat} (hn : n < maxProcessingAttempts) {w : World} (hw : entryOf w messageId = .started n) :
    RG E R LedgerMove (fun x w => match x with
      | .ok _ => entryOf w messageId = .started (n + 1)
      | .error err => entryOf w messageId = .started n ∧ Faulted E err) (ProcessedMessageStore.retry messageId) w := by
  refine ledger_change (Q := fun x e' => match x with
    | .ok _ => e' = .started (n + 1)
    | .error err => e' = .started n ∧ Faulted E err) hR (fun s hs => ?_) (fun s err he => ⟨rfl, _, s, he⟩) hw
  have hafter := entryOf_retry hs
  have hmove : Entry.Moves maxProcessingAttempts (entryOf s messageId) (.started (n + 1)) := by
    rw [hs]
    exact .next hn
  exact ⟨⟨⟨_, _, rfl⟩, moves_at hmove hafter⟩, (hafter messageId).trans (if_pos rfl)⟩

include hrefl hR in
/-- **`begin` admits**: it returns True exactly where the entry admits another attempt, and records that attempt. -/
theorem begin_rg (hE : ∀ l w e, E.fault l w e → e.kind ≠ .integrityError) (out : Outside)
    (senderEmail authResult : Text) {w : World} (hw : entryOf w messageId = e) :
    RG E R LedgerMove (fun x w => Begun E e x (entryOf w messageId))
      (ProcessedMessageStore.begin out messageId senderEmail authResult) w := by
  refine RG.bind hrefl (clock_rg hR out hw) (fun receivedAt s hs => ?_) fun err s hs => ⟨hs.1, hs.2 err rfl⟩
  refine RG.bind hrefl (insertRow_rg hrefl hR hE rfl rfl hs.1) (fun inserted s hins => ?_) fun err s hs => hs
  have hstable := fun x => stable_entry hR (Begun E e x)
  cases inserted with
  | true =>
    obtain ⟨hunseen, hs⟩ := hins
    refine rg_ret hstable ?_
    rw [Begun, hs, hunseen]
    exact ⟨trivial, rfl⟩
  | false =>
    obtain ⟨hseen, hs⟩ := hins
    have hselect := ledger_look (E := E) (l := .selectProcessed) hR
      (h := fun w => w.processedMessages.find? messageId) hs
      (P := fun row => row.elim .unseen ProcessedMessage.entry = e) fun w hw => hw
    refine RG.bind hrefl hselect (fun row s hselected => ?_) fun err s hs => ⟨hs.2.1, hs.2.2 err rfl⟩
    obtain ⟨hrow, hs, _⟩ := hselected
    replace hrow := hrow row rfl
    cases row with
    | none => exact absurd hrow.symm hseen
    | some row =>
      replace hrow : row.entry = e := hrow
      simp only
      split_ifs with hretry
      · have he : e = .started row.attemptCount := by
          rw [← hrow, ProcessedMessage.entry, if_pos hretry.1]
        subst he
        exact RG.bind hrefl (retry_rg hR hretry.2 hs) (fun _ s hs => rg_ret hstable ⟨hretry.2, hs⟩) fun err s hs => hs
      · refine rg_ret hstable ⟨fun hadmits => hretry ?_, hs⟩
        rw [← hrow, ProcessedMessage.entry] at hadmits
        split_ifs at hadmits with hprogress
        · exact ⟨hprogress, hadmits⟩
        · exact absurd hadmits id

include hrefl hR in
/-- **`finalize` closes** the entry. -/
theorem finalize_rg (out : Outside) {outcome : Text} (houtcome : outcome ≠ inProgress) (jobId operation : Option Text)
    {w : World} (hw : entryOf w messageId = e) :
    RG E R LedgerMove (fun x w => Finalized E outcome e x (entryOf w messageId))
      (ProcessedMessageStore.finalize out messageId outcome jobId operation) w := by
  refine RG.bind hrefl (clock_rg hR out hw) (fun now s hs => ?_) fun err s hs => ⟨hs.1, hs.2 err rfl⟩
  refine ledger_change (Q := Finalized E outcome e) hR (fun s hs => ?_) (fun s err he => ⟨rfl, _, s, he⟩) hs.1
  have hafter := entryOf_finalize s messageId houtcome jobId operation (some now)
  refine ⟨⟨⟨_, _, rfl⟩, moves_at (.close _ _) hafter⟩, ?_⟩
  rw [← hs]
  exact (hafter messageId).trans (if_pos rfl)

end

theorem begin_run (out : Outside) (messageId senderEmail authResult : Text) (w : World) :
    ∃ w', (ProcessedMessageStore.begin out messageId senderEmail authResult).run w =
        (.ok (decide (Admitted w messageId)), w') ∧
      entryOf w' messageId = if Admitted w messageId then (entryOf w messageId).next else entryOf w messageId := by
  have halone : RG Env.calm Eq LedgerMove
      (fun x w' => Begun Env.calm (entryOf w messageId) x (entryOf w' messageId))
      (ProcessedMessageStore.begin out messageId senderEmail authResult) w :=
    begin_rg (fun _ => rfl) (fun _ _ h => h ▸ rfl) (fun _ _ _ h => absurd h id) out senderEmail authResult rfl
  have hend := halone.run (fun _ => rfl) fun _ _ => trivial
  generalize (ProcessedMessageStore.begin out messageId senderEmail authResult).run w = r at hend ⊢
  obtain ⟨x, w'⟩ := r
  refine ⟨w', ?_⟩
  match x, hend with
  | .ok true, ⟨hadmits, hentry⟩ => exact ⟨by rw [decide_eq_true hadmits], by rw [if_pos hadmits]; exact hentry⟩
  | .ok false, ⟨hrefuses, hentry⟩ => exact ⟨by rw [decide_eq_false hrefuses], by rw [if_neg hrefuses]; exact hentry⟩
  | .error err, ⟨_, _, _, hfault⟩ => exact absurd hfault id

end GroupAssessmentAgent
