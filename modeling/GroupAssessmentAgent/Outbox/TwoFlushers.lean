import GroupAssessmentAgent.Outbox.SentStays

/-!
# Two flushers on one outbox

The mail loop and the weekly command run in processes of their own. Each reads the pending messages in one
statement and then takes them one after another, so a `Flusher` is a list of messages still to take and the program
of the message it is at. `FlushersStep E ok` interleaves the two, one statement at a time, where `ok` says which
messages a flusher may take up. `loop_simulated` ties this to the loops as programs: what one of them does
alone, its flusher does.

A message can be sent twice, because a list that was read before may name a message that the other flusher is
sending, or has sent. `sentOnce_exclusive`: this is the only way. If a flusher takes up a message only while its
row is PENDING and the other flusher is not at it, no message is sent twice.
-/

namespace GroupAssessmentAgent
open Prog

inductive Flushing where
  | mailLoop | weeklyCommand
  deriving DecidableEq, Repr

/-- The round of a loop. -/
def Flushing.round (out : Outside) : Flushing → OutboxMessage → M Nat
  | mailLoop => flushOne out
  | weeklyCommand => flushReportOne out

/-- The loop as a program. -/
def Flushing.loop (out : Outside) : Flushing → M Nat
  | mailLoop => flushOutbox out
  | weeklyCommand => flushReportOutbox out

structure Flusher where
  todo : List OutboxMessage := []
  at? : Option (OutboxMessage × M Nat) := none

/-- The two flushers and the world. -/
structure Flushers where
  flusher : Flushing → Flusher := fun _ => {}
  world : World

def Flushers.set (c : Flushers) (t : Flushing) (f : Flusher) : Flushers :=
  { c with flusher := Function.update c.flusher t f }

/-- The flusher is in the middle of the round of the message. -/
def Flushers.IsAt (c : Flushers) (t : Flushing) (id : Nat) : Prop := ∃ m p, (c.flusher t).at? = some (m, p) ∧ m.id = id

variable (out : Outside)

inductive FlushersStep (E : Env Stmt World Exc) (ok : Flushers → Flushing → OutboxMessage → Prop) :
    Flushers → Flushers → Prop
  /-- The SELECT of the pending messages. -/
  | read {c t} : c.flusher t = {} → FlushersStep E ok c (c.set t { todo := Outbox.pendingRows c.world })
  /-- The next round. -/
  | take {c t m rest} : c.flusher t = { todo := m :: rest } → ok c t m →
      FlushersStep E ok c (c.set t { todo := rest, at? := some (m, t.round out m) })
  /-- A statement of the round. -/
  | step {c t m p p' w'} : (c.flusher t).at? = some (m, p) → Step E (p, c.world) (p', w') →
      FlushersStep E ok c { c.set t { todo := (c.flusher t).todo, at? := some (m, p') } with world := w' }
  /-- The end of the round. -/
  | done {c t m n} : (c.flusher t).at? = some (m, ret n) →
      FlushersStep E ok c (c.set t { todo := (c.flusher t).todo })
  /-- An exception that leaves the round ends the loop. -/
  | abort {c t m e} : (c.flusher t).at? = some (m, raise e) → FlushersStep E ok c (c.set t {})
  /-- New messages. -/
  | around {c w'} : Enqueues c.world w' → FlushersStep E ok c { c with world := w' }

abbrev FlushersSteps (E : Env Stmt World Exc) (ok : Flushers → Flushing → OutboxMessage → Prop) :
    Flushers → Flushers → Prop :=
  Relation.ReflTransGen (FlushersStep out E ok)

/-! ### The machine runs the loops -/

section Simulation
variable {out} {E : Env Stmt World Exc} {ok : Flushers → Flushing → OutboxMessage → Prop}

theorem set_set (c : Flushers) (t : Flushing) (f g : Flusher) : (c.set t f).set t g = c.set t g := by
  simp [Flushers.set]

@[simp] theorem set_flusher_self (c : Flushers) (t : Flushing) (f : Flusher) : (c.set t f).flusher t = f := by
  simp [Flushers.set]

@[simp] theorem set_world (c : Flushers) (t : Flushing) (f : Flusher) : (c.set t f).world = c.world := rfl

theorem set_flusher_of_ne (c : Flushers) {t u : Flushing} (h : u ≠ t) (f : Flusher) :
    (c.set t f).flusher u = c.flusher u := by
  simp [Flushers.set, h]

theorem round_simulated (flusher : Flushing → Flusher) (t : Flushing) (rest : List OutboxMessage) (m : OutboxMessage)
    {p p' : M Nat} {w w' : World} (h : Steps E (p, w) (p', w')) :
    FlushersSteps out E ok
      ((⟨flusher, w⟩ : Flushers).set t { todo := rest, at? := some (m, p) })
      ((⟨flusher, w'⟩ : Flushers).set t { todo := rest, at? := some (m, p') }) := by
  generalize hd : (p', w') = d at h
  induction h generalizing p' w' with
  | refl => cases hd; exact .refl
  | @tail d d' _ hstep ih =>
    obtain ⟨q, v⟩ := d
    cases hd
    refine (ih rfl).tail ?_
    let c := (⟨flusher, v⟩ : Flushers).set t { todo := rest, at? := some (m, q) }
    have hat : (c.flusher t).at? = some (m, q) := by simp [c]
    have hround : FlushersStep out E ok c
        { c.set t { todo := (c.flusher t).todo, at? := some (m, p') } with world := w' } := .step hat hstep
    simpa [c, Flushers.set] using hround

theorem loop_eq (t : Flushing) : t.loop out = Outbox.pending.bind (flushAll (t.round out)) := by
  cases t <;> rfl

theorem flushAll_simulated (t : Flushing) (hok : ∀ c m, ok c t m) (flusher : Flushing → Flusher)
    (todo : List OutboxMessage) {p' : M Nat} {w w' : World} (h : Steps E (flushAll (t.round out) todo, w) (p', w')) :
    ∃ f, FlushersSteps out E ok ((⟨flusher, w⟩ : Flushers).set t { todo }) ((⟨flusher, w'⟩ : Flushers).set t f) := by
  induction todo generalizing p' w with
  | nil =>
    cases steps_ret h
    exact ⟨_, .refl⟩
  | cons m rest ih =>
    let c := (⟨flusher, w⟩ : Flushers).set t { todo := m :: rest }
    have htake : FlushersStep out E ok c (c.set t { todo := rest, at? := some (m, t.round out m) }) :=
      .take (set_flusher_self _ _ _) (hok _ m)
    rw [set_set] at htake
    rcases steps_bind _ _ _ h with ⟨q, hround, _⟩ | ⟨n, v, hround, hrest⟩
    · exact ⟨_, .head htake (round_simulated flusher t rest m hround)⟩
    · let d := (⟨flusher, v⟩ : Flushers).set t { todo := rest, at? := some (m, ret n) }
      have hat : (d.flusher t).at? = some (m, ret n) := by simp [d]
      have hdone : FlushersStep out E ok d (d.set t { todo := (d.flusher t).todo }) := .done hat
      rw [set_set, set_flusher_self] at hdone
      have hstart := Relation.ReflTransGen.head htake ((round_simulated flusher t rest m hround).tail hdone)
      rcases steps_bind _ _ _ hrest with ⟨q, hq, _⟩ | ⟨k, u, hq, hend⟩
      · obtain ⟨f, hf⟩ := ih hq
        exact ⟨f, hstart.trans hf⟩
      · cases steps_ret hend
        obtain ⟨f, hf⟩ := ih hq
        exact ⟨f, hstart.trans hf⟩

/-- **Simulation**: wherever a loop, as a program of its own, can get, its flusher can get. -/
theorem loop_simulated (t : Flushing) (hok : ∀ c m, ok c t m) (flusher : Flushing → Flusher) {p' : M Nat}
    {w w' : World} (h : Steps E (t.loop out, w) (p', w')) :
    ∃ f, FlushersSteps out E ok ((⟨flusher, w⟩ : Flushers).set t {}) ((⟨flusher, w'⟩ : Flushers).set t f) := by
  rw [loop_eq] at h
  rcases h.cases_head with heq | ⟨d, hstep, hrest⟩
  · cases heq
    exact ⟨_, .refl⟩
  · cases hstep with
    | ok _ =>
      obtain ⟨f, hf⟩ := flushAll_simulated t hok flusher (Outbox.pendingRows w) hrest
      let c := (⟨flusher, w⟩ : Flushers).set t {}
      have hread : FlushersStep out E ok c (c.set t { todo := Outbox.pendingRows w }) :=
        .read (set_flusher_self _ _ _)
      rw [set_set] at hread
      exact ⟨f, .head hread hf⟩
    | fault _ =>
      cases steps_raise hrest
      exact ⟨_, .refl⟩

end Simulation

/-! ### One message, as its flusher and as the rest of the world see it -/

/-- What the others do while a flusher is at the row. -/
def Elsewhere (id : Nat) (w w' : World) : Prop :=
  (∀ s, outboxStatus w id = some s → outboxStatus w' id = some s) ∧ deliveriesOf w' id = deliveriesOf w id

/-- What a flusher does at the row. -/
def OnlyAt (id : Nat) (w w' : World) : Prop :=
  (∀ id', id' ≠ id → outboxStatus w' id' = outboxStatus w id' ∧ deliveriesOf w' id' = deliveriesOf w id') ∧
    (deliveriesOf w' id).length ≤ 1

/-- Nobody is at the row: it was not sent, or it was sent once and is SENT. -/
def Settled (id : Nat) (w : World) : Prop :=
  deliveriesOf w id = [] ∨ (deliveriesOf w id).length = 1 ∧ outboxStatus w id = some .sent

theorem Elsewhere.refl (id : Nat) (w : World) : Elsewhere id w w := ⟨fun _ h => h, rfl⟩

theorem Elsewhere.trans {id : Nat} {a b c : World} (h : Elsewhere id a b) (h' : Elsewhere id b c) :
    Elsewhere id a c :=
  ⟨fun s hs => h'.1 s (h.1 s hs), h'.2.trans h.2⟩

theorem Elsewhere.settled {id : Nat} {w w' : World} (h : Elsewhere id w w') (hw : Settled id w) : Settled id w' := by
  rw [Settled, h.2]
  exact hw.imp_right fun hs => ⟨hs.1, h.1 _ hs.2⟩

theorem OnlyAt.elsewhere {id id' : Nat} {w w' : World} (h : OnlyAt id w w') (hne : id' ≠ id) : Elsewhere id' w w' :=
  ⟨fun _ hs => (h.1 id' hne).1.trans hs, (h.1 id' hne).2⟩

theorem Enqueues.elsewhere {w w' : World} (h : Enqueues w w') (id : Nat) : Elsewhere id w w' :=
  ⟨fun _ hs => h.status hs, h.deliveriesOf id⟩

theorem OnlyAt.of_eq {id : Nat} {w w' : World} (ho : w'.outbox = w.outbox) (hd : w'.deliveries = w.deliveries)
    (hn : (deliveriesOf w id).length ≤ 1) : OnlyAt id w w' := by
  have hsame : ∀ id', outboxStatus w' id' = outboxStatus w id' ∧ deliveriesOf w' id' = deliveriesOf w id' :=
    fun id' => ⟨by rw [outboxStatus, ho, outboxStatus], by rw [deliveriesOf, hd, deliveriesOf]⟩
  exact ⟨fun id' _ => hsame id', by rw [(hsame id).2]; exact hn⟩

/-- Each INSERT of a link finds both its values free; only a file or the provider may raise. -/
def SteadyStores : Env Stmt World Exc where
  allowed l w := ∀ n id, l = .insertLink n id → w.messageLinks.Free n id
  fault l _ _ := l = .readFile ∨ ∃ id, l = .send id

/-- The stages of a delivery that nobody interferes with. -/
def exclusiveStage (id : Nat) : Stage → World → Prop
  | .waiting, w | .failing, w => outboxStatus w id = some .pending ∧ deliveriesOf w id = []
  | .accepted, w => outboxStatus w id = some .pending ∧ (deliveriesOf w id).length = 1
  | .recorded, w => outboxStatus w id = some .sent ∧ (deliveriesOf w id).length = 1
  | .failed, w => deliveriesOf w id = []

theorem exclusiveStage.le_one {id : Nat} {k : Stage} {w : World} (h : exclusiveStage id k w) :
    (deliveriesOf w id).length ≤ 1 := by
  cases k with
  | waiting => simp [h.2]
  | accepted => exact h.2.le
  | recorded => exact h.2.le
  | failing => simp [h.2]
  | failed =>
    have hnil : deliveriesOf w id = [] := h
    simp [hnil]

theorem exclusiveStage.stable (id : Nat) (k : Stage) : Stable (Elsewhere id) (exclusiveStage id k) := by
  intro w w' h hw
  cases k with
  | waiting => exact ⟨h.1 _ hw.1, h.2.trans hw.2⟩
  | accepted => exact ⟨h.1 _ hw.1, by rw [h.2]; exact hw.2⟩
  | recorded => exact ⟨h.1 _ hw.1, by rw [h.2]; exact hw.2⟩
  | failing => exact ⟨h.1 _ hw.1, h.2.trans hw.2⟩
  | failed => exact h.2.trans hw

def exclusiveCourse (m : OutboxMessage) : Course SteadyStores (Elsewhere m.id) (OnlyAt m.id) m where
  stage := exclusiveStage m.id
  refl := Elsewhere.refl m.id
  stable := exclusiveStage.stable m.id
  look k w h := OnlyAt.of_eq rfl rfl h.le_one
  tick k w h := ⟨OnlyAt.of_eq rfl rfl h.le_one, exclusiveStage.stable m.id k w _ ⟨fun _ hs => hs, rfl⟩ h⟩
  send w h d hd := by
    have hone : (deliveriesOf (w.deliver d) m.id).length = 1 := by
      rw [deliveriesOf_deliver, if_pos hd, h.2]
      rfl
    refine ⟨⟨fun id' hne => ⟨rfl, ?_⟩, hone.le⟩, h.1, hone⟩
    rw [deliveriesOf_deliver, if_neg (by rw [hd]; exact Ne.symm hne)]
  sent w h now := by
    refine ⟨⟨fun id' hne => ⟨?_, rfl⟩, h.2.le⟩, ?_, h.2⟩
    · rw [outboxStatus_recordSent, if_neg hne]
    · rw [outboxStatus_recordSent, if_pos rfl, h.1]
      rfl
  link w h t := ⟨OnlyAt.of_eq rfl rfl h.2.le, h⟩
  job w h jobId fields := ⟨OnlyAt.of_eq rfl rfl h.2.le, h⟩
  report w h reportId status text error now := ⟨OnlyAt.of_eq rfl rfl h.2.le, h⟩
  failure w h attempts error := by
    refine ⟨⟨fun id' hne => ⟨?_, rfl⟩, ?_⟩, h.2⟩
    · rw [outboxStatus_recordFailure, if_neg hne]
    · exact (show exclusiveStage m.id .failing w from h).le_one
  linkFree w n id h := h n id rfl
  noClockFault w e h := by
    rcases h with h | ⟨_, h⟩ <;> cases h
  noLateFault l w e h hf := by
    rcases hf with rfl | ⟨_, rfl⟩ <;> exact h
  giveUp w h := h
  faultAccepted l w e _ hread hsend hf _ := by
    rcases hf with hf | ⟨id, hf⟩
    · exact absurd hf hread
    · exact absurd hf (hsend id)
  undecided w h := h.2

theorem exclusive_over (m : OutboxMessage) {w : World} (h : (exclusiveCourse m).Over w) : Settled m.id w := by
  rcases h with h | h
  · exact .inr ⟨h.2, h.1⟩
  · exact .inl h

theorem round_rg (t : Flushing) (m : OutboxMessage) {w : World} (hstatus : outboxStatus w m.id = some .pending)
    (hnone : deliveriesOf w m.id = []) :
    RG SteadyStores (Elsewhere m.id) (OnlyAt m.id) (fun _ => Settled m.id) (t.round out m) w := by
  have hover :
      RG SteadyStores (Elsewhere m.id) (OnlyAt m.id) (fun _ => (exclusiveCourse m).Over) (t.round out m) w := by
    cases t with
    | mailLoop => exact (exclusiveCourse m).flushOne_rg out ⟨hstatus, hnone⟩
    | weeklyCommand => exact (exclusiveCourse m).flushReportOne_rg out (fun _ h => .inr h.2) ⟨hstatus, hnone⟩
  exact hover.mono (fun _ _ h => h) fun _ _ h => exclusive_over m h

/-! ### Both flushers -/

/-- A flusher takes up a message only while its row is PENDING and the other flusher is not at it. -/
def Exclusive (c : Flushers) (t : Flushing) (m : OutboxMessage) : Prop :=
  outboxStatus c.world m.id = some .pending ∧ ∀ u, u ≠ t → ¬ c.IsAt u m.id

structure FlushersOk (c : Flushers) : Prop where
  apart : ∀ t u id, c.IsAt t id → c.IsAt u id → t = u
  inside : ∀ t m p, (c.flusher t).at? = some (m, p) →
    RG SteadyStores (Elsewhere m.id) (OnlyAt m.id) (fun _ => Settled m.id) p c.world
  settled : ∀ id, (∀ t, ¬ c.IsAt t id) → Settled id c.world
  once : ∀ id, (deliveriesOf c.world id).length ≤ 1

theorem isAt_set_of_ne {c : Flushers} {t u : Flushing} (h : u ≠ t) (f : Flusher) (id : Nat) :
    (c.set t f).IsAt u id ↔ c.IsAt u id := by
  rw [Flushers.IsAt, set_flusher_of_ne c h, Flushers.IsAt]

theorem isAt_set_self {c : Flushers} {t : Flushing} {m : OutboxMessage} {p : M Nat} {todo : List OutboxMessage}
    {id : Nat} : (c.set t { todo, at? := some (m, p) }).IsAt t id ↔ m.id = id := by
  simp [Flushers.IsAt]

theorem not_isAt_set_self {c : Flushers} {t : Flushing} {todo : List OutboxMessage} {id : Nat} :
    ¬ (c.set t { todo }).IsAt t id := by
  simp [Flushers.IsAt]

theorem FlushersOk.leave {c : Flushers} (h : FlushersOk c) (t : Flushing) (todo : List OutboxMessage)
    (hleft : ∀ m p, (c.flusher t).at? = some (m, p) → Settled m.id c.world) : FlushersOk (c.set t { todo }) where
  apart u v id hu hv := by
    by_cases hut : u = t
    · subst hut
      exact absurd hu not_isAt_set_self
    · by_cases hvt : v = t
      · subst hvt
        exact absurd hv not_isAt_set_self
      · exact h.apart u v id ((isAt_set_of_ne hut _ id).1 hu) ((isAt_set_of_ne hvt _ id).1 hv)
  inside u m p hat := by
    by_cases hut : u = t
    · subst hut
      simp at hat
    · rw [set_flusher_of_ne c hut] at hat
      exact h.inside u m p hat
  settled id hnot := by
    by_cases hat : c.IsAt t id
    · obtain ⟨m, p, hm, rfl⟩ := hat
      exact hleft m p hm
    · refine h.settled id fun u => ?_
      by_cases hut : u = t
      · subst hut
        exact hat
      · exact fun hu => hnot u ((isAt_set_of_ne hut _ id).2 hu)
  once := h.once

theorem FlushersOk.move {c : Flushers} (h : FlushersOk c) {w' : World} (hw : Enqueues c.world w') :
    FlushersOk { c with world := w' } where
  apart := h.apart
  inside t m p hat := RG.stable (R := Elsewhere m.id) (fun _ _ _ => Elsewhere.trans) (h.inside t m p hat)
    (hw.elsewhere m.id)
  settled id hnot := (hw.elsewhere id).settled (h.settled id hnot)
  once id := by rw [hw.deliveriesOf]; exact h.once id

theorem FlushersOk.take {c : Flushers} (h : FlushersOk c) {t : Flushing} {m : OutboxMessage}
    {rest : List OutboxMessage} (hidle : c.flusher t = { todo := m :: rest }) (hok : Exclusive c t m) :
    FlushersOk (c.set t { todo := rest, at? := some (m, t.round out m) }) where
  apart u v id hu hv := by
    have hother : ∀ x, x ≠ t → c.IsAt x id → m.id ≠ id := fun x hx hat heq => hok.2 x hx (heq ▸ hat)
    by_cases hut : u = t
    · subst hut
      by_cases hvu : v = u
      · exact hvu.symm
      · exact absurd (isAt_set_self.1 hu) (hother v hvu ((isAt_set_of_ne hvu _ id).1 hv))
    · by_cases hvt : v = t
      · subst hvt
        exact absurd (isAt_set_self.1 hv) (hother u hut ((isAt_set_of_ne hut _ id).1 hu))
      · exact h.apart u v id ((isAt_set_of_ne hut _ id).1 hu) ((isAt_set_of_ne hvt _ id).1 hv)
  inside u m' p hat := by
    by_cases hut : u = t
    · subst hut
      rw [set_flusher_self] at hat
      cases hat
      have hnobody : ∀ v, ¬ c.IsAt v m.id := by
        intro v
        by_cases hvu : v = u
        · subst hvu
          simp [Flushers.IsAt, hidle]
        · exact hok.2 v hvu
      rcases h.settled m.id hnobody with hnone | ⟨_, hsent⟩
      · exact round_rg out u m hok.1 hnone
      · rw [hok.1] at hsent
        cases hsent
    · rw [set_flusher_of_ne c hut] at hat
      exact h.inside u m' p hat
  settled id hnot := by
    refine h.settled id fun u => ?_
    by_cases hut : u = t
    · subst hut
      simp [Flushers.IsAt, hidle]
    · exact fun hu => hnot u ((isAt_set_of_ne hut _ id).2 hu)
  once := h.once

theorem FlushersOk.step {c : Flushers} (h : FlushersOk c) {t : Flushing} {m : OutboxMessage} {p p' : M Nat}
    {w' : World} (hat : (c.flusher t).at? = some (m, p)) (hstep : Step SteadyStores (p, c.world) (p', w')) :
    FlushersOk { c.set t { todo := (c.flusher t).todo, at? := some (m, p') } with world := w' } := by
  have hrg := h.inside t m p hat
  have hIsAt : c.IsAt t m.id := ⟨m, p, hat, rfl⟩
  -- the statement is inside `OnlyAt m.id`, and the program after it inside its judgement
  have hnext : OnlyAt m.id c.world w' ∧
      RG SteadyStores (Elsewhere m.id) (OnlyAt m.id) (fun _ => Settled m.id) p' w' := by
    generalize hd : c.world = w at hstep hrg
    cases hstep with
    | ok hallow => exact (hrg w (Elsewhere.refl _ _)).1 hallow
    | fault hfault =>
      refine ⟨OnlyAt.of_eq rfl rfl ?_, (hrg _ (Elsewhere.refl _ _)).2 _ hfault⟩
      rw [← hd]
      exact h.once m.id
  have hunchanged : ∀ u id, ({ c.set t { todo := (c.flusher t).todo, at? := some (m, p') } with
      world := w' } : Flushers).IsAt u id ↔ c.IsAt u id := by
    intro u id
    by_cases hut : u = t
    · subst hut
      refine (isAt_set_self (c := c)).trans ⟨fun hid => hid ▸ hIsAt, ?_⟩
      rintro ⟨m', q, hm', rfl⟩
      rw [hat] at hm'
      cases hm'
      rfl
    · exact isAt_set_of_ne hut _ id
  exact {
    apart := fun u v id hu hv => h.apart u v id ((hunchanged u id).1 hu) ((hunchanged v id).1 hv)
    inside := by
      intro u m' q hq
      by_cases hut : u = t
      · subst hut
        have hself : some (m, p') = some (m', q) := by simpa using hq
        cases hself
        exact hnext.2
      · have hother : (c.flusher u).at? = some (m', q) := by simpa [Flushers.set, hut] using hq
        have hne : m'.id ≠ m.id := fun heq => hut (h.apart u t m.id ⟨m', q, hother, heq⟩ hIsAt)
        exact RG.stable (R := Elsewhere m'.id) (fun _ _ _ => Elsewhere.trans) (h.inside u m' q hother)
          (hnext.1.elsewhere hne)
    settled := by
      intro id hnot
      have hbefore : ∀ u, ¬ c.IsAt u id := fun u hu => hnot u ((hunchanged u id).2 hu)
      have hne : id ≠ m.id := fun heq => hbefore t (heq ▸ hIsAt)
      exact (hnext.1.elsewhere hne).settled (h.settled id hbefore)
    once := by
      intro id
      by_cases hid : id = m.id
      · subst hid
        exact hnext.1.2
      · rw [(hnext.1.1 id hid).2]
        exact h.once id }

theorem flushersStep_ok {c c' : Flushers} (hstep : FlushersStep out SteadyStores Exclusive c c')
    (h : FlushersOk c) : FlushersOk c' := by
  have hended : ∀ {t m} {x : Except Exc Nat}, (c.flusher t).at? = some (m, ofExcept x) →
      ∀ m' p, (c.flusher t).at? = some (m', p) → Settled m'.id c.world := by
    intro t m x hat m' p hm'
    have hrg := h.inside t m _ hat
    rw [hat] at hm'
    cases hm'
    cases x with
    | ok n => exact hrg c.world (Elsewhere.refl _ _)
    | error e => exact hrg c.world (Elsewhere.refl _ _)
  cases hstep with
  | read hidle => exact h.leave _ _ fun m p hat => by simp [hidle] at hat
  | take hidle hok => exact h.take out hidle hok
  | step hat hs => exact h.step hat hs
  | @done t m n hat => exact h.leave t _ (hended (x := .ok n) hat)
  | @abort t m e hat => exact h.leave t [] (hended (x := .error e) hat)
  | around hw => exact h.move hw

/-- From any outbox, none of whose messages has been sent yet, no report mail is ever sent twice. -/
def SentOnce (E : Env Stmt World Exc) (ok : Flushers → Flushing → OutboxMessage → Prop) : Prop :=
  ∀ w, w.deliveries = [] → ∀ c, FlushersSteps out E ok { world := w } c →
    ∀ m ∈ c.world.outbox.rows, isReportMail m → (deliveriesOf c.world m.id).length ≤ 1

/-- **Exclusive flushers send once**: if a message is taken up only while its row is PENDING and the other flusher
is not at it, each link finds its values free, and the stores do not raise. -/
theorem sentOnce_exclusive : SentOnce out SteadyStores Exclusive := by
  intro w hw c hsteps
  have hstart : FlushersOk { world := w } :=
    { apart := fun t u id ht => by obtain ⟨m, p, hm, _⟩ := ht; cases hm
      inside := fun t m p hm => by cases hm
      settled := fun id _ => .inl (by simp [deliveriesOf, hw])
      once := fun id => by simp [deliveriesOf, hw] }
  have hc : FlushersOk c := by
    induction hsteps with
    | refl => exact hstart
    | tail _ hstep ih => exact flushersStep_ok out hstep ih
  exact fun m _ _ => hc.once m.id

/-- A weekly report that waits to be sent. -/
def reportMail : OutboxMessage :=
  { id := 1, jobId := some "WEEKLY-2026-08-03-0001", toEmail := "alice@uni.ac.uk", subject := "Weekly project update",
    bodyText := "Report", createdAt := 0 }

def reportWorld : World := { outbox := ⟨[reportMail], List.nodup_singleton _⟩ }

/-- Both flushers read the list, and each sends the report. -/
theorem report_sent_twice : ¬ SentOnce .plain Env.calm fun _ _ _ => True := by
  intro h
  let run := FlushersStep .plain Env.calm fun _ _ _ => True
  let c₀ : Flushers := { world := reportWorld }
  let c₁ := c₀.set .mailLoop { todo := [reportMail] }
  let c₂ := c₁.set .weeklyCommand { todo := [reportMail] }
  let c₃ := c₂.set .mailLoop { at? := some (reportMail, Flushing.mailLoop.round .plain reportMail) }
  let mail := follow [none] (Flushing.mailLoop.round .plain reportMail, reportWorld)
  let c₄ : Flushers := { c₃.set .mailLoop { at? := some (reportMail, mail.1) } with world := mail.2 }
  let c₅ := c₄.set .weeklyCommand { at? := some (reportMail, Flushing.weeklyCommand.round .plain reportMail) }
  let weekly := follow [none] (Flushing.weeklyCommand.round .plain reportMail, mail.2)
  let c₆ : Flushers := { c₅.set .weeklyCommand { at? := some (reportMail, weekly.1) } with world := weekly.2 }
  have h₁ : run c₀ c₁ := .read rfl
  have h₂ : run c₁ c₂ := .read rfl
  have h₃ : run c₂ c₃ := .take rfl trivial
  have h₄ : run c₃ c₄ := .step rfl (.ok trivial)
  have h₅ : run c₄ c₅ := .take rfl trivial
  have h₆ : run c₅ c₆ := .step rfl (.ok trivial)
  have hrun : FlushersSteps .plain Env.calm (fun _ _ _ => True) c₀ c₆ :=
    .head h₁ (.head h₂ (.head h₃ (.head h₄ (.head h₅ (.single h₆)))))
  have htwice := h reportWorld rfl c₆ hrun reportMail (by decide) (by decide)
  exact absurd htwice (by decide)

end GroupAssessmentAgent
