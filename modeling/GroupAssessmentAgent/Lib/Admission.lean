import Mathlib.Data.List.Induction
import Mathlib.Tactic.Common

/-!
# Work with a bounded number of attempts

The life of a piece of work that may be started again until it is concluded, at most `limit` times. `Entry` is what
is on record about it, `Admits` says whether another attempt is let in, and `Moves` is what can happen to the
record. An entry that admits nothing is settled for good (`Moves.not_admits`), and each admission uses up one of the
attempts (`Tried.admits_iff`), none of which is ever given back (`Moves.used_le`). After a whole history of requests the entry is known from the number of attempts asked for
and the outcomes since the first of them (`after_eq`).
-/

/-- What is on record about a piece of work, with outcomes in `ο`. -/
inductive Entry (ο : Type) where
  | unseen
  | started (attempts : Nat)
  | closed (outcome : ο)
  deriving DecidableEq

namespace Entry
variable {ο : Type} (limit : Nat)

/-- Whether another attempt is let in. -/
def Admits : Entry ο → Prop
  | unseen => True
  | started n => n < limit
  | closed _ => False

instance : DecidablePred (Admits limit : Entry ο → Prop) := fun e =>
  match e with
  | unseen => inferInstanceAs (Decidable True)
  | started n => inferInstanceAs (Decidable (n < limit))
  | closed _ => inferInstanceAs (Decidable False)

/-- The record of one more attempt. -/
def next : Entry ο → Entry ο
  | unseen => started 1
  | started n => started (n + 1)
  | closed o => closed o

/-- The record of an outcome, for work that is on record. -/
def close (o : ο) : Entry ο → Entry ο
  | unseen => unseen
  | _ => closed o

theorem next_ne_unseen (e : Entry ο) : e.next ≠ unseen := by
  cases e <;> simp [next]

theorem close_of_ne {e : Entry ο} (h : e ≠ unseen) (o : ο) : e.close o = closed o := by
  cases e with
  | unseen => exact absurd rfl h
  | started n => rfl
  | closed o' => rfl

/-- What can happen to a record: nothing, an attempt that is let in, or an outcome. -/
inductive Moves : Entry ο → Entry ο → Prop
  | stay (e : Entry ο) : Moves e e
  | next {e : Entry ο} (h : e.Admits limit) : Moves e e.next
  | close (e : Entry ο) (o : ο) : Moves e (e.close o)

variable {limit}

theorem Moves.not_admits {e e' : Entry ο} (h : Moves limit e e') (he : ¬ e.Admits limit) : ¬ e'.Admits limit := by
  cases h with
  | stay => exact he
  | next hadmits => exact absurd hadmits he
  | close o =>
    cases e with
    | unseen => exact he
    | started n => exact id
    | closed o' => exact id

/-- The work is open after `n` attempts. -/
def Tried : Entry ο → Nat → Prop
  | unseen, n => n = 0
  | started m, n => m = n
  | closed _, _ => False

theorem Tried.next {e : Entry ο} {n : Nat} (h : e.Tried n) : e.next.Tried (n + 1) := by
  cases e with
  | unseen => exact congrArg Nat.succ (Eq.symm h)
  | started m => exact congrArg Nat.succ h
  | closed o => exact absurd h id

theorem Tried.admits_iff {e : Entry ο} {n : Nat} (h : e.Tried n) (hlimit : 0 < limit) :
    e.Admits limit ↔ n < limit := by
  cases e with
  | unseen =>
    obtain rfl : n = 0 := h
    simp [Admits, hlimit]
  | started m =>
    obtain rfl : m = n := h
    rfl
  | closed o => exact absurd h id

/-! ### Attempts used up -/

variable (limit) in
/-- How many of the attempts are used up: an outcome leaves none. -/
def used : Entry ο → Nat
  | unseen => 0
  | started n => min n limit
  | closed _ => limit

theorem used_le_limit (e : Entry ο) : e.used limit ≤ limit := by
  cases e with
  | unseen => exact Nat.zero_le limit
  | started n => exact Nat.min_le_right n limit
  | closed o => exact Nat.le_refl _

theorem used_next {e : Entry ο} (h : e.Admits limit) (hlimit : 0 < limit) : e.next.used limit = e.used limit + 1 := by
  cases e with
  | unseen => exact Nat.min_eq_left hlimit
  | started n =>
    have hn : n < limit := h
    simp only [next, used]
    omega
  | closed o => exact absurd h id

theorem used_close_le (e : Entry ο) (o : ο) : e.used limit ≤ (e.close o).used limit := by
  cases e with
  | unseen => exact Nat.le_refl _
  | started n => exact Nat.min_le_right n limit
  | closed o' => exact Nat.le_refl _

theorem Moves.used_le {e e' : Entry ο} (h : Moves limit e e') : e.used limit ≤ e'.used limit := by
  cases h with
  | stay => exact Nat.le_refl _
  | next hadmits =>
    cases e with
    | unseen => exact Nat.zero_le _
    | started n =>
      simp only [Entry.next, used]
      omega
    | closed o => exact Nat.le_refl _
  | close o => exact used_close_le e o

/-! ### Histories -/

/-- What is asked of a piece of work: another attempt, or its conclusion. -/
inductive Request (ο : Type) where
  | attempt
  | conclude (outcome : ο)
  deriving DecidableEq

/-- The outcome that a request brings. -/
def Request.outcome? : Request ο → Option ο
  | attempt => none
  | conclude o => some o

variable (limit) in
/-- What a request leaves of the record. -/
def take (e : Entry ο) : Request ο → Entry ο
  | .attempt => if e.Admits limit then e.next else e
  | .conclude o => e.close o

variable (limit) in
/-- The record after a history of requests. -/
def after (history : List (Request ο)) : Entry ο := history.foldl (take limit) unseen

theorem after_append (history : List (Request ο)) (r : Request ο) :
    after limit (history ++ [r]) = (after limit history).take limit r :=
  List.foldl_append

/-- How many attempts were asked for. -/
def attempts : List (Request ο) → Nat
  | [] => 0
  | .attempt :: history => attempts history + 1
  | .conclude _ :: history => attempts history

/-- The outcomes since the first attempt. -/
def outcomes : List (Request ο) → List ο
  | [] => []
  | .attempt :: history => history.filterMap Request.outcome?
  | .conclude _ :: history => outcomes history

theorem attempts_append (history history' : List (Request ο)) :
    attempts (history ++ history') = attempts history + attempts history' := by
  induction history with
  | nil => simp [attempts]
  | cons r history ih =>
    cases r with
    | attempt => simp [attempts, ih, Nat.add_right_comm]
    | conclude o => simp [attempts, ih]

theorem outcomes_append (history : List (Request ο)) (r : Request ο) :
    outcomes (history ++ [r]) = if attempts history = 0 then [] else outcomes history ++ r.outcome?.toList := by
  induction history with
  | nil => cases r <;> rfl
  | cons r' history ih =>
    cases r' with
    | attempt =>
      have hlast : [r].filterMap Request.outcome? = r.outcome?.toList := by
        cases r <;> rfl
      simp [outcomes, attempts, hlast]
    | conclude o => exact ih

theorem after_eq (hlimit : 0 < limit) (history : List (Request ο)) :
    after limit history =
      if attempts history = 0 then unseen
      else (outcomes history).getLast?.elim (started (min (attempts history) limit)) closed := by
  induction history using List.reverseRecOn with
  | nil => rfl
  | append_singleton history r ih =>
    rw [after_append, ih, attempts_append, outcomes_append]
    by_cases hnone : attempts history = 0
    · rw [if_pos hnone, if_pos hnone, hnone]
      cases r with
      | attempt => simp [take, Admits, next, attempts, Nat.min_eq_left hlimit]
      | conclude o => simp [take, close, attempts]
    · rw [if_neg hnone, if_neg hnone, if_neg (by omega)]
      cases r with
      | conclude o => cases (outcomes history).getLast? <;> simp [take, close, Request.outcome?]
      | attempt =>
        simp only [Request.outcome?, Option.toList_none, List.append_nil]
        cases (outcomes history).getLast? with
        | some o => simp [take, Admits]
        | none =>
          show (if min (attempts history) limit < limit then started (min (attempts history) limit + 1)
            else started (min (attempts history) limit)) = started (min (attempts history + 1) limit)
          split_ifs with hless
          · rw [Nat.min_eq_left (by omega), Nat.min_eq_left (by omega)]
          · rw [Nat.min_eq_right (by omega), Nat.min_eq_right (by omega)]

theorem admits_after (hlimit : 0 < limit) (history : List (Request ο)) :
    (after limit history).Admits limit ↔ outcomes history = [] ∧ attempts history < limit := by
  have hfirst : attempts history = 0 → outcomes history = [] := by
    induction history with
    | nil => exact fun _ => rfl
    | cons r history ih =>
      cases r with
      | attempt => simp [attempts]
      | conclude o => exact ih
  rw [after_eq hlimit]
  split_ifs with hnone
  · simp [Admits, hfirst hnone, hnone, hlimit]
  · cases hlast : (outcomes history).getLast? with
    | none =>
      rw [List.getLast?_eq_none_iff] at hlast
      simp only [Admits, Option.elim, hlast, true_and]
      omega
    | some o =>
      have hsome : outcomes history ≠ [] := by
        rintro heq
        simp [heq] at hlast
      simp [Admits, hsome]

end Entry
