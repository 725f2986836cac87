import Mathlib.Algebra.Order.Group.Nat
import GroupAssessmentAgent.Admin.Notifier
import GroupAssessmentAgent.Lib.Cooldown

/-!
# The rate of the admin alerts

`AdminNotifier.alert` keeps for each category the time of the last alert, and refuses another one within the cooldown.
The clock is read for the check, for the `created_at` of the mail and for the record, and may advance in between. A
sequence of calls decides as a cooldown does (`decisions_alerts`); what follows for the mails in the outbox is
`alerts_rate_limited`.
-/

namespace GroupAssessmentAgent
open Prog

/-- A call of `alert`, with the time at its check, at the storing of the mail and at the record. -/
structure AlertCall where
  category : AdminCategory
  summary : Text
  detail : List (Text × Text) := []
  checkedAt : Instant
  enqueuedAt : Instant
  recordedAt : Instant

namespace AlertCall

/-- What the clock gives during the call. The check reads it only where there is a record of the category. -/
def readings (c : AlertCall) (w : World) : List Instant :=
  if (w.adminAlerts.find? c.category).isSome then [c.checkedAt, c.enqueuedAt, c.recordedAt]
  else [c.enqueuedAt, c.recordedAt]

def outside (c : AlertCall) (out : Outside) (w : World) : Outside :=
  { out with clock := fun n => (c.readings w).getD (n - w.ticks) c.recordedAt }

def run (c : AlertCall) (out : Outside) (n : AdminNotifier) (w : World) : Except Exc Bool × World :=
  (n.alert (c.outside out w) c.category c.summary c.detail).run w

/-- The mail of the alert. -/
def mail (c : AlertCall) (adminEmail : Text) (id : Nat) : OutboxMessage where
  id := id
  toEmail := adminEmail
  subject := AdminNotifier.alertSubject c.category
  bodyText := AdminNotifier.alertBody c.summary c.detail
  createdAt := c.enqueuedAt

def request (c : AlertCall) : Cooldown.Request AdminCategory Instant where
  key := c.category
  checked := c.checkedAt
  effected := c.enqueuedAt
  recorded := c.recordedAt

end AlertCall

/-- The times on record. -/
def lastAlerts (w : World) (category : AdminCategory) : Option Instant :=
  (w.adminAlerts.find? category).map AdminAlert.lastSentAt

/-! ### One call -/

section
variable (out : Outside) (n : AdminNotifier) {adminEmail : Text} (hadmin : truthy n.adminEmail = some adminEmail)
  (c : AlertCall) (w : World)

/-- The world after an alert that is sent. -/
def World.alerted (w : World) (adminEmail : Text) (c : AlertCall) : World :=
  { w with outbox := w.outbox.append (c.mail adminEmail) fun _ => rfl
           adminAlerts := w.adminAlerts.upsert ⟨c.category, c.recordedAt⟩
           ticks := w.ticks + (c.readings w).length }

theorem run_shouldSend_none (out : Outside) {category : AdminCategory} {w : World}
    (hrow : w.adminAlerts.find? category = none) : (n.shouldSend out category).run w = (.ok true, w) := by
  rw [AdminNotifier.shouldSend, bind_eq, run_bind_ok (run_observe _ _ w), hrow]
  rfl

theorem run_shouldSend_some (out : Outside) {category : AdminCategory} {w : World} {row : AdminAlert}
    (hrow : w.adminAlerts.find? category = some row) :
    (n.shouldSend out category).run w = (.ok (decide (row.lastSentAt + n.cooldown ≤ w.now out)), w.tick) := by
  rw [AdminNotifier.shouldSend, bind_eq, run_bind_ok (run_observe _ _ w), hrow]
  rfl

theorem AlertCall.outside_clock (k : Nat) :
    (c.outside out w).clock (w.ticks + k) = (c.readings w).getD k c.recordedAt := by
  show (c.readings w).getD (w.ticks + k - w.ticks) c.recordedAt = _
  rw [Nat.add_sub_cancel_left]

theorem run_enqueue_recordSent {out : Outside} {w : World} (henqueue : out.clock w.ticks = c.enqueuedAt)
    (hrecord : out.clock (w.ticks + 1) = c.recordedAt) (adminEmail : Text) :
    (Outbox.enqueue out adminEmail (AdminNotifier.alertSubject c.category) (AdminNotifier.alertBody c.summary c.detail)
        none [] none none >>= fun _ => AdminNotifier.recordSent out c.category >>= fun _ => (pure true : M Bool)).run w =
      (.ok true, { w with outbox := w.outbox.append (c.mail adminEmail) fun _ => rfl
                          adminAlerts := w.adminAlerts.upsert ⟨c.category, c.recordedAt⟩
                          ticks := w.ticks + 2 }) := by
  rw [← hrecord]
  unfold AlertCall.mail
  rw [← henqueue]
  rfl

include hadmin in
theorem run_due (hdue : Cooldown.Due n.cooldown (lastAlerts w c.category) c.request) :
    c.run out n w = (.ok true, w.alerted adminEmail c) := by
  have hclock := c.outside_clock out w
  rw [AlertCall.run, AdminNotifier.alert, hadmin]
  dsimp only
  cases hrow : w.adminAlerts.find? c.category with
  | none =>
    have hreadings : c.readings w = [c.enqueuedAt, c.recordedAt] := by rw [AlertCall.readings, hrow]; rfl
    rw [hreadings] at hclock
    rw [bind_eq, run_bind_ok (run_shouldSend_none n _ hrow), if_pos rfl, run_enqueue_recordSent c (hclock 0) (hclock 1),
      World.alerted, hreadings]
    rfl
  | some row =>
    have hreadings : c.readings w = [c.checkedAt, c.enqueuedAt, c.recordedAt] := by rw [AlertCall.readings, hrow]; rfl
    rw [hreadings] at hclock
    have hnow : w.now (c.outside out w) = c.checkedAt := hclock 0
    have hcheck : row.lastSentAt + n.cooldown ≤ c.checkedAt :=
      hdue row.lastSentAt (by rw [lastAlerts, hrow]; rfl)
    rw [bind_eq, run_bind_ok (run_shouldSend_some n _ hrow), hnow, if_pos (decide_eq_true hcheck),
      run_enqueue_recordSent c (hclock 1) (hclock 2), World.alerted, hreadings]
    rfl

include hadmin in
theorem run_not_due (hdue : ¬ Cooldown.Due n.cooldown (lastAlerts w c.category) c.request) :
    c.run out n w = (.ok false, w.tick) := by
  rw [AlertCall.run, AdminNotifier.alert, hadmin]
  dsimp only
  cases hrow : w.adminAlerts.find? c.category with
  | none =>
    have hlast : lastAlerts w c.category = none := by rw [lastAlerts, hrow]; rfl
    exact absurd (fun t ht => by rw [hlast] at ht; cases ht) hdue
  | some row =>
    have hlast : lastAlerts w c.category = some row.lastSentAt := by rw [lastAlerts, hrow]; rfl
    have hnow : w.now (c.outside out w) = c.checkedAt := by
      refine (c.outside_clock out w 0).trans ?_
      rw [AlertCall.readings, hrow]
      rfl
    have hcheck : ¬ row.lastSentAt + n.cooldown ≤ c.checkedAt := by
      intro hle
      refine hdue fun t ht => ?_
      rw [hlast] at ht
      obtain rfl := Option.some.inj ht
      exact hle
    rw [bind_eq, run_bind_ok (run_shouldSend_some n _ hrow), hnow, decide_eq_false hcheck]
    rfl

end

/-! ### A sequence of calls -/

structure AlertOutcome where
  call : AlertCall
  before : World
  answer : Except Exc Bool
  after : World

namespace AlertOutcome

def sent (x : AlertOutcome) : Bool :=
  match x.answer with
  | .ok b => b
  | .error _ => false

/-- The mails that the call added to the outbox. -/
def mails (x : AlertOutcome) : List OutboxMessage := x.after.outbox.rows.drop x.before.outbox.rows.length

end AlertOutcome

/-- The calls, one after another. -/
def alerts (out : Outside) (n : AdminNotifier) : World → List AlertCall → List AlertOutcome
  | _, [] => []
  | w, c :: cs => ⟨c, w, (c.run out n w).1, (c.run out n w).2⟩ :: alerts out n (c.run out n w).2 cs

/-- The time recorded for the last alert of the category that was sent, in the calls so far or before them. -/
def lastRecord (w : World) (earlier : List AlertOutcome) (category : AdminCategory) : Option Instant :=
  ((earlier.filter fun y => y.call.category = category && y.sent).getLast?.map fun y => y.call.recordedAt).or
    (lastAlerts w category)

theorem lastAlerts_alerted (adminEmail : Text) (c : AlertCall) (w : World) :
    lastAlerts (w.alerted adminEmail c) = Function.update (lastAlerts w) c.category (some c.recordedAt) := by
  funext k
  have hfind := Table.find?_upsert w.adminAlerts ⟨c.category, c.recordedAt⟩ k
  rw [lastAlerts, World.alerted]
  dsimp only
  rw [hfind]
  by_cases hk : c.category = k
  · obtain rfl := hk
    rw [if_pos rfl, Function.update_self]
    rfl
  · rw [if_neg hk, Function.update_of_ne (Ne.symm hk)]
    rfl

section
variable (out : Outside) (n : AdminNotifier) {adminEmail : Text} (hadmin : truthy n.adminEmail = some adminEmail)
include hadmin

theorem run_decides (c : AlertCall) (w : World) :
    (c.run out n w).1 = .ok (decide (Cooldown.Due n.cooldown (lastAlerts w c.category) c.request)) ∧
      lastAlerts (c.run out n w).2 = Cooldown.next n.cooldown (lastAlerts w) c.request := by
  by_cases hdue : Cooldown.Due n.cooldown (lastAlerts w c.category) c.request
  · rw [run_due out n hadmin c w hdue, decide_eq_true hdue, Cooldown.next_of_due hdue]
    exact ⟨rfl, lastAlerts_alerted adminEmail c w⟩
  · rw [run_not_due out n hadmin c w hdue, decide_eq_false hdue, Cooldown.next_of_not_due hdue]
    exact ⟨rfl, rfl⟩

/-- **A sequence of calls decides as a cooldown does.** -/
theorem decisions_alerts (calls : List AlertCall) (w : World) :
    (alerts out n w calls).map (fun x => (x.call.request, x.answer)) =
      (Cooldown.decisions n.cooldown (lastAlerts w) (calls.map AlertCall.request)).map fun y => (y.1, .ok y.2) := by
  induction calls generalizing w with
  | nil => rfl
  | cons c calls ih =>
    obtain ⟨hanswer, hnext⟩ := run_decides out n hadmin c w
    rw [alerts, List.map_cons, ih, hanswer, hnext]
    rfl

theorem alerts_split {calls : List AlertCall} {w : World} {earlier later : List AlertOutcome} {x : AlertOutcome}
    (h : alerts out n w calls = earlier ++ x :: later) :
    (x.answer, x.after) = x.call.run out n x.before ∧ ∀ k, lastAlerts x.before k = lastRecord w earlier k := by
  induction earlier generalizing w calls with
  | nil =>
    cases calls with
    | nil => cases h
    | cons c calls =>
      rw [alerts, List.nil_append] at h
      obtain ⟨rfl, -⟩ := List.cons.inj h
      exact ⟨rfl, fun k => rfl⟩
  | cons y earlier ih =>
    cases calls with
    | nil => cases h
    | cons c calls =>
      rw [alerts, List.cons_append] at h
      obtain ⟨rfl, htail⟩ := List.cons.inj h
      obtain ⟨hrun, hlast⟩ := ih htail
      refine ⟨hrun, fun k => ?_⟩
      obtain ⟨hanswer, hnext⟩ := run_decides out n hadmin c w
      rw [hlast k, lastRecord, lastRecord, hnext, List.filter_cons]
      by_cases hsent : c.category = k ∧ Cooldown.Due n.cooldown (lastAlerts w c.category) c.request
      · obtain ⟨rfl, hdue⟩ := hsent
        rw [Cooldown.next_of_due hdue, if_pos (by simp [AlertOutcome.sent, hanswer, hdue]), List.getLast?_cons]
        cases (earlier.filter _).getLast? <;> simp [AlertCall.request]
      · rw [if_neg (by simpa [AlertOutcome.sent, hanswer] using hsent)]
        congr 1
        by_cases hk : c.category = k
        · rw [Cooldown.next_of_not_due fun hdue => hsent ⟨hk, hdue⟩]
        · exact Cooldown.next_of_ne hk

theorem outcome_cases {x : AlertOutcome} (hrun : (x.answer, x.after) = x.call.run out n x.before) :
    (Cooldown.Due n.cooldown (lastAlerts x.before x.call.category) x.call.request ∧ x.answer = .ok true ∧
        x.after = x.before.alerted adminEmail x.call) ∨
      (¬ Cooldown.Due n.cooldown (lastAlerts x.before x.call.category) x.call.request ∧ x.answer = .ok false ∧
        x.after = x.before.tick) := by
  by_cases hdue : Cooldown.Due n.cooldown (lastAlerts x.before x.call.category) x.call.request
  · rw [run_due out n hadmin x.call x.before hdue, Prod.mk.injEq] at hrun
    exact .inl ⟨hdue, hrun⟩
  · rw [run_not_due out n hadmin x.call x.before hdue, Prod.mk.injEq] at hrun
    exact .inr ⟨hdue, hrun⟩

theorem mem_mails {x : AlertOutcome} (hrun : (x.answer, x.after) = x.call.run out n x.before) {m : OutboxMessage}
    (hm : m ∈ x.mails) : x.answer = .ok true ∧ m.createdAt = x.call.enqueuedAt := by
  rw [AlertOutcome.mails] at hm
  rcases outcome_cases out n hadmin hrun with ⟨-, hanswer, hafter⟩ | ⟨-, -, hafter⟩
  · have hrows : x.after.outbox.rows = x.before.outbox.rows ++ [x.call.mail adminEmail x.before.outbox.next] := by
      rw [hafter]
      rfl
    rw [hrows, List.drop_left, List.mem_singleton] at hm
    rw [hm]
    exact ⟨hanswer, rfl⟩
  · have hrows : x.after.outbox.rows = x.before.outbox.rows := by
      rw [hafter]
      rfl
    rw [hrows, List.drop_length] at hm
    cases hm

theorem alerts_run {calls : List AlertCall} {w : World} {x : AlertOutcome} (hx : x ∈ alerts out n w calls) :
    (x.answer, x.after) = x.call.run out n x.before := by
  obtain ⟨earlier, later, h⟩ := List.append_of_mem hx
  exact (alerts_split out n hadmin h).1

theorem mails_spaced {calls : List AlertCall} (horder : Cooldown.InOrder (calls.map AlertCall.request)) (w : World) :
    (alerts out n w calls).Pairwise fun x y => x.call.category = y.call.category →
      ∀ m ∈ x.mails, ∀ m' ∈ y.mails, m.createdAt + n.cooldown ≤ m'.createdAt := by
  have hspaced : (Cooldown.decisions n.cooldown (lastAlerts w) (calls.map AlertCall.request)).Pairwise _ :=
    Cooldown.decisions_spaced horder
  have hanswers : ((Cooldown.decisions n.cooldown (lastAlerts w) (calls.map AlertCall.request)).map
      fun y => (y.1, (.ok y.2 : Except Exc Bool))).Pairwise fun x y => x.1.key = y.1.key → x.2 = .ok true →
        y.2 = .ok true → x.1.effected + n.cooldown ≤ y.1.effected := by
    refine List.pairwise_map.2 (hspaced.imp fun h hkey hx hy => ?_)
    exact h hkey (Except.ok.inj hx) (Except.ok.inj hy)
  rw [← decisions_alerts out n hadmin, List.pairwise_map] at hanswers
  refine hanswers.imp_of_mem fun {x y} hx hy h hkey m hm m' hm' => ?_
  obtain ⟨hsent, hcreated⟩ := mem_mails out n hadmin (alerts_run out n hadmin hx) hm
  obtain ⟨hsent', hcreated'⟩ := mem_mails out n hadmin (alerts_run out n hadmin hy) hm'
  rw [hcreated, hcreated']
  exact h hkey hsent hsent'

theorem answers_filter (calls : List AlertCall) (w : World) (k : AdminCategory) :
    ((alerts out n w calls).filter fun x => x.call.category = k).map AlertOutcome.answer =
      (alerts out n w (calls.filter fun c => c.category = k)).map AlertOutcome.answer := by
  have hof : ∀ xs : List AlertOutcome, xs.map AlertOutcome.answer =
      (xs.map fun x => (x.call.request, x.answer)).map Prod.snd := fun xs => by rw [List.map_map]; rfl
  have hfilter : ((alerts out n w calls).filter fun x => x.call.category = k).map
      (fun x => (x.call.request, x.answer)) =
        ((alerts out n w calls).map fun x => (x.call.request, x.answer)).filter fun y => y.1.key = k := by
    rw [List.filter_map]
    rfl
  have hcalls : (calls.filter fun c => c.category = k).map AlertCall.request =
      (calls.map AlertCall.request).filter fun r => r.key = k := by
    rw [List.filter_map]
    rfl
  rw [hof, hof, hfilter, decisions_alerts out n hadmin, decisions_alerts out n hadmin, hcalls,
    ← Cooldown.decisions_filter k rfl, List.filter_map]
  rfl

/-- **The alerts keep the cooldown.** For calls in the order of the clock: the mails of a category are a cooldown
apart; a call whose category has no record, or one that is a cooldown old, adds one mail; a call that answers false
leaves everything as it is; and the answers for a category are those without the other calls. -/
theorem alerts_rate_limited {calls : List AlertCall} (horder : Cooldown.InOrder (calls.map AlertCall.request))
    (w : World) :
    ((alerts out n w calls).Pairwise fun x y => x.call.category = y.call.category →
        ∀ m ∈ x.mails, ∀ m' ∈ y.mails, m.createdAt + n.cooldown ≤ m'.createdAt) ∧
      (∀ earlier x later, alerts out n w calls = earlier ++ x :: later →
        (∀ t ∈ lastRecord w earlier x.call.category, t + n.cooldown ≤ x.call.checkedAt) →
          x.answer = .ok true ∧ ∃ mail, x.after.outbox.rows = x.before.outbox.rows ++ [mail] ∧
            mail.toEmail = adminEmail ∧ mail.status = .pending ∧ mail.createdAt = x.call.enqueuedAt) ∧
      (∀ x ∈ alerts out n w calls, x.answer = .ok false → x.after = { x.before with ticks := x.after.ticks }) ∧
      ∀ k, ((alerts out n w calls).filter fun x => x.call.category = k).map AlertOutcome.answer =
        (alerts out n w (calls.filter fun c => c.category = k)).map AlertOutcome.answer := by
  refine ⟨mails_spaced out n hadmin horder w, fun earlier x later h hdue => ?_, fun x hx hfalse => ?_,
    answers_filter out n hadmin calls w⟩
  · obtain ⟨hrun, hlast⟩ := alerts_split out n hadmin h
    rw [← hlast] at hdue
    rcases outcome_cases out n hadmin hrun with ⟨-, hanswer, hafter⟩ | ⟨hnot, -⟩
    · rw [hafter]
      exact ⟨hanswer, _, rfl, rfl, rfl, rfl⟩
    · exact absurd hdue hnot
  · rcases outcome_cases out n hadmin (alerts_run out n hadmin hx) with ⟨-, htrue, -⟩ | ⟨-, -, hafter⟩
    · cases hfalse.symm.trans htrue
    · rw [hafter]
      rfl

end

/-- Two alerts of one category within a minute, and one of another category between them. -/
def minuteCalls : List AlertCall :=
  [{ category := .infrastructure, summary := "Ollama is not reachable", checkedAt := 0, enqueuedAt := 1,
      recordedAt := 2 },
    { category := .llmParseFailure, summary := "Unreadable command", checkedAt := 30000000, enqueuedAt := 30000001,
      recordedAt := 30000002 },
    { category := .infrastructure, summary := "Ollama is not reachable", checkedAt := 60000000, enqueuedAt := 60000001,
      recordedAt := 60000002 }]

theorem minuteCalls_inOrder : Cooldown.InOrder (minuteCalls.map AlertCall.request) where
  within := by simp [minuteCalls, AlertCall.request]
  between := by simp [minuteCalls, AlertCall.request]

example : (alerts .plain ⟨some "admin@uni.ac.uk", 900000000⟩ {} minuteCalls).map AlertOutcome.sent =
    [true, true, false] := by decide

theorem alerts_rate_limited_minute :
    (alerts .plain ⟨some "admin@uni.ac.uk", 900000000⟩ {} minuteCalls).Pairwise fun x y =>
      x.call.category = y.call.category → ∀ m ∈ x.mails, ∀ m' ∈ y.mails, m.createdAt + 900000000 ≤ m'.createdAt :=
  (alerts_rate_limited .plain ⟨some "admin@uni.ac.uk", 900000000⟩ rfl minuteCalls_inOrder {}).1

end GroupAssessmentAgent
