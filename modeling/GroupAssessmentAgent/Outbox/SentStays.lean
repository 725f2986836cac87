import GroupAssessmentAgent.Outbox.Delivery

/-!
# One flusher

`SentStays E` says of the runs of `flush_outbox` under `E`, cycle after cycle, that an outbox row that is SENT stays
so, and that `send_email` is never called for it again. `mark_sent` records the row as SENT and only then links the
provider's message id; when the link, or the job's update after it, raises, the handler writes PENDING over SENT.
`sentStays_cleanRecords`: without such an exception the property holds, whatever else raises.
-/

namespace GroupAssessmentAgent
open Prog

def outboxStatus (w : World) (id : Nat) : Option OutboxStatus := (w.outbox.find? id).map OutboxMessage.status

/-- The mails that the provider has accepted for an outbox row. -/
def deliveriesOf (w : World) (id : Nat) : List Delivery := w.deliveries.filter fun d => d.outboxId = id

/-- What else happens to the outbox: new rows. -/
def Enqueues (w w' : World) : Prop :=
  (∀ id row, w.outbox.find? id = some row → w'.outbox.find? id = some row) ∧ w'.deliveries = w.deliveries

/-- SENT rows stay SENT, and are not sent. -/
def KeepsSent (w w' : World) : Prop :=
  ∀ id, outboxStatus w id = some .sent → outboxStatus w' id = some .sent ∧ deliveriesOf w' id = deliveriesOf w id

/-! ### Rows and deliveries after a statement -/

theorem outboxStatus_modify (w : World) (id : Nat) (f : OutboxMessage → OutboxMessage) (hf : ∀ r, (f r).id = r.id)
    (status : OutboxStatus) (hs : ∀ r, (f r).status = status) (id' : Nat) :
    outboxStatus (w.modifyOutbox id f hf) id' =
      if id' = id then (outboxStatus w id').map fun _ => status else outboxStatus w id' := by
  simp only [outboxStatus, World.modifyOutbox, Table.find?_modify]
  split_ifs
  · cases w.outbox.find? id' <;> simp [hs]
  · rfl

theorem outboxStatus_recordSent (w : World) (id : Nat) (now : Instant) (id' : Nat) :
    outboxStatus (Outbox.recordSent w id now) id' =
      if id' = id then (outboxStatus w id').map fun _ => .sent else outboxStatus w id' := by
  unfold Outbox.recordSent
  exact outboxStatus_modify w id _ _ .sent (fun _ => rfl) id'

theorem outboxStatus_recordFailure (w : World) (id attempts : Nat) (error : Text) (id' : Nat) :
    outboxStatus (Outbox.recordFailure w id attempts error) id' =
      if id' = id then (outboxStatus w id').map fun _ => Outbox.failureStatus attempts else outboxStatus w id' := by
  unfold Outbox.recordFailure
  exact outboxStatus_modify w id _ _ (Outbox.failureStatus attempts) (fun _ => rfl) id'

theorem deliveriesOf_deliver (w : World) (d : Delivery) (id : Nat) :
    deliveriesOf (w.deliver d) id = if d.outboxId = id then d :: deliveriesOf w id else deliveriesOf w id := by
  simp only [deliveriesOf, World.deliver, List.filter_cons, decide_eq_true_eq]

theorem Enqueues.status {w w' : World} (h : Enqueues w w') {id : Nat} {s : OutboxStatus}
    (hs : outboxStatus w id = some s) : outboxStatus w' id = some s := by
  obtain ⟨row, hrow, rfl⟩ := Option.map_eq_some_iff.1 hs
  rw [outboxStatus, h.1 id row hrow]
  rfl

theorem Enqueues.deliveriesOf {w w' : World} (h : Enqueues w w') (id : Nat) :
    deliveriesOf w' id = deliveriesOf w id := by
  rw [GroupAssessmentAgent.deliveriesOf, h.2, GroupAssessmentAgent.deliveriesOf]

theorem Enqueues.keepsSent {w w' : World} (h : Enqueues w w') : KeepsSent w w' :=
  fun id hs => ⟨h.status hs, h.deliveriesOf id⟩

theorem Enqueues.refl (w : World) : Enqueues w w := ⟨fun _ _ h => h, rfl⟩

theorem Enqueues.trans {a b c : World} (h : Enqueues a b) (h' : Enqueues b c) : Enqueues a c :=
  ⟨fun id row hrow => h'.1 id row (h.1 id row hrow), h'.2.trans h.2⟩

theorem Enqueues.of_eq {w w' : World} (ho : w'.outbox = w.outbox) (hd : w'.deliveries = w.deliveries) :
    Enqueues w w' :=
  ⟨fun id row h => by rw [ho]; exact h, hd⟩

/-! ### A cycle -/

/-- Every INSERT of a link finds both its values free, and nothing raises after the UPDATE to SENT. -/
def CleanRecords : Env Stmt World Exc where
  allowed l w := ∀ n id, l = .insertLink n id → w.messageLinks.Free n id
  fault l _ _ := l ≠ .clock ∧ ¬ AfterSent l

/-- The rows are PENDING. -/
def AllPending (ids : List Nat) (w : World) : Prop := ∀ id ∈ ids, outboxStatus w id = some .pending

theorem AllPending.enqueues {ids : List Nat} : Stable Enqueues (AllPending ids) :=
  fun _ _ h hw id hid => h.status (hw id hid)

theorem AllPending.modify {rest : List Nat} {w w' : World} {n : Nat} (hn : n ∉ rest)
    (h : ∀ id, id ≠ n → outboxStatus w' id = outboxStatus w id) (hw : AllPending rest w) : AllPending rest w' :=
  fun id hid => (h id fun heq => hn (heq ▸ hid)).trans (hw id hid)

/-- The delivery of a PENDING message, while `rest` waits. -/
def pendingCourse (m : OutboxMessage) (rest : List Nat) (hm : m.id ∉ rest) :
    Course CleanRecords Enqueues KeepsSent m where
  stage
    | .waiting | .accepted | .failing => AllPending (m.id :: rest)
    | .recorded | .failed => AllPending rest
  refl := Enqueues.refl
  stable k := by cases k <;> exact AllPending.enqueues
  look _ w _ := (Enqueues.refl w).keepsSent
  tick k w h := by
    have hsame : Enqueues w w.tick := Enqueues.of_eq rfl rfl
    exact ⟨hsame.keepsSent, by cases k <;> exact AllPending.enqueues _ _ hsame h⟩
  send w h d hd := by
    refine ⟨fun id hs => ⟨hs, ?_⟩, h⟩
    have hne : d.outboxId ≠ id := by
      rintro rfl
      have := h d.outboxId (hd ▸ List.mem_cons_self)
      rw [hs] at this
      cases this
    rw [deliveriesOf_deliver, if_neg hne]
  sent w h now := by
    refine ⟨fun id hs => ⟨?_, rfl⟩, ?_⟩
    · rw [outboxStatus_recordSent, hs]
      split_ifs <;> rfl
    · refine AllPending.modify hm (fun id hne => ?_) fun id hid => h id (List.mem_cons_of_mem _ hid)
      rw [outboxStatus_recordSent, if_neg hne]
  link w h t := ⟨(Enqueues.of_eq (w := w) rfl rfl).keepsSent, h⟩
  job w h jobId fields := ⟨(Enqueues.of_eq (w := w) rfl rfl).keepsSent, h⟩
  report w h reportId status text error now := ⟨(Enqueues.of_eq (w := w) rfl rfl).keepsSent, h⟩
  failure w h attempts error := by
    refine ⟨fun id hs => ⟨?_, rfl⟩, ?_⟩
    · have hne : id ≠ m.id := by
        rintro rfl
        have := h m.id List.mem_cons_self
        rw [hs] at this
        cases this
      rw [outboxStatus_recordFailure, if_neg hne, hs]
    · refine AllPending.modify hm (fun id hne => ?_) fun id hid => h id (List.mem_cons_of_mem _ hid)
      rw [outboxStatus_recordFailure, if_neg hne]
  linkFree w n id h := h n id rfl
  noClockFault w e h := h.1 rfl
  noLateFault l w e h hf := hf.2 h
  giveUp w h := h
  faultAccepted l w e _ _ _ _ h := h
  undecided w h id hid := h id (List.mem_cons_of_mem _ hid)

theorem flushAll_rg (out : Outside) (messages : List OutboxMessage) (hnodup : (messages.map OutboxMessage.id).Nodup)
    {w : World} (hw : AllPending (messages.map OutboxMessage.id) w) :
    RG CleanRecords Enqueues KeepsSent (fun _ _ => True) (flushAll (flushOne out) messages) w := by
  induction messages generalizing w with
  | nil => exact fun _ _ => trivial
  | cons m rest ih =>
    rw [List.map_cons, List.nodup_cons] at hnodup
    let C := pendingCourse m (rest.map OutboxMessage.id) hnodup.1
    refine RG.bind Enqueues.refl (C.flushOne_rg out hw) (fun n s hs => ?_) fun _ _ _ => trivial
    have hrest : AllPending (rest.map OutboxMessage.id) s := hs.elim id id
    exact RG.bind Enqueues.refl (ih hnodup.2 hrest) (fun _ _ _ _ _ => trivial) fun _ _ _ => trivial

theorem pendingRows_nodup (w : World) : ((Outbox.pendingRows w).map OutboxMessage.id).Nodup := by
  have hperm : (Outbox.pendingRows w).Perm (w.outbox.rows.filter fun m => m.status = .pending) :=
    List.perm_insertionSort _ _
  exact (hperm.map _).nodup_iff.2 ((List.filter_sublist.map _).nodup w.outbox.nodup)

theorem pendingRows_pending (w : World) : AllPending ((Outbox.pendingRows w).map OutboxMessage.id) w := by
  intro id hid
  obtain ⟨m, hm, rfl⟩ := List.mem_map.1 hid
  have hmem : m ∈ w.outbox.rows.filter fun m => m.status = .pending :=
    (List.perm_insertionSort _ _).mem_iff.1 hm
  obtain ⟨hrow, hstatus⟩ := List.mem_filter.1 hmem
  rw [outboxStatus, Table.find?_of_mem hrow]
  simpa using hstatus

theorem flushOutbox_rg (out : Outside) (w : World) :
    RG CleanRecords Enqueues KeepsSent (fun _ _ => True) (flushOutbox out) w := by
  let Q : Except Exc (List OutboxMessage) → World → Prop := fun x s =>
    match x with
    | .ok messages => (messages.map OutboxMessage.id).Nodup ∧ AllPending (messages.map OutboxMessage.id) s
    | .error _ => True
  have hQ : ∀ x, Stable Enqueues (Q x) := by
    rintro (e | messages) s s' h hs
    · trivial
    · exact ⟨hs.1, AllPending.enqueues _ _ h hs.2⟩
  have hpending : RG CleanRecords Enqueues KeepsSent Q Outbox.pending w :=
    rg_observe (P := fun _ => True) (fun _ _ _ _ => trivial) hQ
      (fun s _ => ⟨(Enqueues.refl s).keepsSent, pendingRows_nodup s, pendingRows_pending s⟩)
      (fun _ _ _ _ => trivial) trivial
  exact RG.bind Enqueues.refl hpending (fun messages s hs => flushAll_rg out messages hs.1 hs.2)
    fun _ _ _ => trivial

/-! ### Runs -/

/-- The programs of the flusher: one cycle after another. -/
def FlushCall (out : Outside) (_ : Unit) (p : M Nat) (_ : World) : Prop := p = flushOutbox out

/-- A run of one flusher, from no cycle in progress. -/
def FlushRun (out : Outside) (E : Env Stmt World Exc) (w : World) (c : (Unit → M Nat) × World) : Prop :=
  PoolSteps E Enqueues (FlushCall out) (fun _ => ret 0, w) c

/-- In every run, a SENT row stays SENT, and no call of `send_email` is made for it. -/
def SentStays (out : Outside) (E : Env Stmt World Exc) : Prop :=
  ∀ w c, FlushRun out E w c →
    (∀ c', PoolSteps E Enqueues (FlushCall out) c c' →
        ∀ id, outboxStatus c.2 id = some .sent → outboxStatus c'.2 id = some .sent) ∧
      ∀ id, (c.1 ()).label? = some (.send id) → outboxStatus c.2 id ≠ some .sent

/-! ### Calls of `send_email` -/

/-- A call of `send_email` for a row, where it succeeds, delivers that row. -/
def SendStep (l : Stmt) (f : World → World) : Prop :=
  ∀ id, l = .send id → ∀ w, ∃ d : Delivery, d.outboxId = id ∧ f w = w.deliver d

theorem sendStep_of_ne {l : Stmt} (f : World → World) (h : ∀ id, l ≠ .send id) : SendStep l f :=
  fun id hl => absurd hl (h id)

theorem coversDelivery_sendStep (id : Nat) : CoversDelivery SendStep id where
  read := sendStep_of_ne _ (by simp)
  outbox := sendStep_of_ne _ (by simp)
  tick := sendStep_of_ne _ (by simp)
  send f hf id' hid := by
    cases hid
    exact hf
  sent _ := sendStep_of_ne _ (by simp)
  link _ _ _ := sendStep_of_ne _ (by simp)
  failure _ _ := sendStep_of_ne _ (by simp)

theorem flushOutbox_sendStep (out : Outside) : Always SendStep (flushOutbox out) := by
  refine Always.bind (always_observe (sendStep_of_ne _ (by simp)) _) fun messages => flushAll_always (fun m => ?_) _
  exact (coversDelivery_sendStep m.id).flushOne out fun _ _ => sendStep_of_ne _ (by simp)

/-! ### The invariant of a run -/

theorem flushOutbox_spec (out : Outside) : PoolSpec CleanRecords Enqueues (FlushCall out) (fun _ => Enqueues)
    (fun _ => KeepsSent) (fun _ _ => True) where
  refl _ := Enqueues.refl
  trans _ _ _ _ := Enqueues.trans
  others t u h := absurd (Subsingleton.elim t u) h
  around _ _ _ h := h
  called := by
    rintro t p w rfl
    exact flushOutbox_rg out w

/-- A program inside its judgement, whose calls of `send_email` are deliveries, makes no call for a row that is SENT. -/
theorem not_sent_of_rg {p : M Nat} {w : World} (hrg : RG CleanRecords Enqueues KeepsSent (fun _ _ => True) p w)
    (hsend : Always SendStep p) {id : Nat} (hnext : p.label? = some (.send id)) : outboxStatus w id ≠ some .sent := by
  intro hsent
  cases p with
  | ret a => cases hnext
  | raise e => cases hnext
  | step l f k r =>
    cases hnext
    obtain ⟨d, hd, hf⟩ := hsend.1 id rfl w
    have hG : KeepsSent w (f w) := ((hrg w (Enqueues.refl _)).1 fun n m h => by cases h).1
    have hsame := (hG id hsent).2
    rw [hf, deliveriesOf_deliver, if_pos hd] at hsame
    exact absurd (congrArg List.length hsame) (by simp)

/-- **SENT stays SENT**, and is never sent again, in every run in which each link finds its two values free and
nothing raises between the UPDATE to SENT and the end of its round. -/
theorem sentStays_cleanRecords (out : Outside) : SentStays out CleanRecords := by
  intro w c hrun
  have hok := (flushOutbox_spec out).ok hrun fun _ _ _ => trivial
  refine ⟨fun c' hsteps id hs => ?_, fun id => ?_⟩
  · exact (flushOutbox_spec out).inv (I := fun w => outboxStatus w id = some .sent)
      (fun _ _ _ hkeeps h => (hkeeps id h).1) (fun _ _ henqueues h => henqueues.status h) hsteps hok hs
  · have hsend : ∀ t, Always SendStep (c.1 t) := by
      refine poolSteps_always (fun t p w hcall => ?_) hrun fun _ => trivial
      obtain rfl := hcall
      exact flushOutbox_sendStep out
    exact not_sent_of_rg (hok ()) (hsend ())

/-- A provider that gives every mail the same id. -/
def repeating : Outside := { Outside.plain with messageId := fun _ => "<0@out>" }

/-- One message to send, and the id linked to another one. -/
def repeatedWorld : World where
  outbox := ⟨[{ id := 1, toEmail := "alice@uni.ac.uk", subject := "Status", bodyText := "Queued", createdAt := 0 }],
    List.nodup_singleton _⟩
  messageLinks := ⟨⟨[{ outboxId := 7, jobId := none, messageId := "<0@out>", createdAt := 0 }],
    List.nodup_singleton _⟩, List.nodup_singleton _⟩

/-- The provider repeats an id: `mark_sent` makes the row SENT, the link raises, and the handler makes it PENDING. -/
theorem sent_becomes_pending : ¬ SentStays repeating Env.calm := by
  intro h
  let sent := follow (List.replicate 5 none) (flushOutbox repeating, repeatedWorld)
  let c : Unit → M Nat := Function.update (fun _ => ret 0) () sent.1
  have hsteps : ∀ n (c : M Nat × World), Steps Env.calm c (follow (List.replicate n none) c) :=
    steps_follow_none fun _ _ => trivial
  have hrun : FlushRun repeating Env.calm repeatedWorld (c, sent.2) := .call .refl rfl (hsteps 5 _)
  have hstays := (h _ _ hrun).1 _ (Steps.pool (hsteps 4 (c (), sent.2))) 1 (by decide)
  exact absurd hstays (by decide)

end GroupAssessmentAgent
