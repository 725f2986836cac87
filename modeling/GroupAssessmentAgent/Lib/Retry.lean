import Mathlib.Data.List.Basic

/-!
# Requests that are repeated

A request is sent until it is answered or refused, and up to `limit` times while it fails in passing; at least once.
`send` gives the attempts that were made and what the sender is left with. The other side may have applied an attempt
whose answer is lost, so it can have applied several: one more, at most, than were repeated after it (`applied_le`).
-/

namespace Retry
variable {ε α : Type}

/-- What the sender sees of an attempt. -/
inductive Reply (ε α : Type) where
  | answered (a : α)
  | refused (e : ε)
  | transient (e : ε)

def Reply.isTransient : Reply ε α → Bool
  | transient _ => true
  | _ => false

/-- One attempt: whether the other side has applied it, and what the sender sees. -/
structure Attempt (ε α : Type) where
  applied : Bool
  reply : Reply ε α

/-- From the k-th attempt on, with so many left after it. -/
def sendFrom (attempt : Nat → Attempt ε α) : Nat → Nat → List (Attempt ε α) × Except ε α
  | left, k =>
    match (attempt k).reply, left with
    | .answered a, _ => ([attempt k], .ok a)
    | .refused e, _ => ([attempt k], .error e)
    | .transient e, 0 => ([attempt k], .error e)
    | .transient _, left + 1 =>
      let rest := sendFrom attempt left (k + 1)
      (attempt k :: rest.1, rest.2)

def send (limit : Nat) (attempt : Nat → Attempt ε α) : List (Attempt ε α) × Except ε α :=
  sendFrom attempt (limit - 1) 0

/-- How many attempts the other side has applied. -/
def applied (attempts : List (Attempt ε α)) : Nat := attempts.countP Attempt.applied

/-- How many attempts were applied and then repeated, since the answer was lost. -/
def lost (attempts : List (Attempt ε α)) : Nat := attempts.dropLast.countP fun a => a.applied && a.reply.isTransient

variable (attempt : Nat → Attempt ε α)

theorem sendFrom_cases (left k : Nat) :
    (sendFrom attempt left k).1 = [attempt k] ∨
      ∃ m, left = m + 1 ∧ (attempt k).reply.isTransient = true ∧
        (sendFrom attempt left k).1 = attempt k :: (sendFrom attempt m (k + 1)).1 := by
  cases hreply : (attempt k).reply with
  | answered a => exact .inl (by simp [sendFrom, hreply])
  | refused e => exact .inl (by simp [sendFrom, hreply])
  | transient e =>
    cases left with
    | zero => exact .inl (by simp [sendFrom, hreply])
    | succ m => exact .inr ⟨m, rfl, rfl, by simp [sendFrom, hreply]⟩

theorem sendFrom_ne_nil (left k : Nat) : (sendFrom attempt left k).1 ≠ [] := by
  rcases sendFrom_cases attempt left k with h | ⟨m, -, -, h⟩
  · rw [h]
    exact List.cons_ne_nil _ _
  · rw [h]
    exact List.cons_ne_nil _ _

theorem sendFrom_length_le (left k : Nat) : (sendFrom attempt left k).1.length ≤ left + 1 := by
  induction left generalizing k with
  | zero =>
    rcases sendFrom_cases attempt 0 k with h | ⟨m, hm, -⟩
    · rw [h]
      exact Nat.le_refl _
    · omega
  | succ left ih =>
    rcases sendFrom_cases attempt (left + 1) k with h | ⟨m, hm, -, h⟩
    · rw [h]
      exact Nat.le_add_left _ _
    · obtain rfl := Nat.succ.inj hm
      have hrest := ih (k + 1)
      rw [h, List.length_cons]
      omega

theorem sendFrom_applied_le (left k : Nat) :
    applied (sendFrom attempt left k).1 ≤ lost (sendFrom attempt left k).1 + 1 := by
  induction left generalizing k with
  | zero =>
    rcases sendFrom_cases attempt 0 k with h | ⟨m, hm, -⟩
    · rw [h]
      exact Nat.le_trans List.countP_le_length (Nat.le_add_left _ _)
    · omega
  | succ left ih =>
    rcases sendFrom_cases attempt (left + 1) k with h | ⟨m, hm, htransient, h⟩
    · rw [h]
      exact Nat.le_trans List.countP_le_length (Nat.le_add_left _ _)
    · obtain rfl := Nat.succ.inj hm
      have hrest := ih (k + 1)
      have hne := sendFrom_ne_nil attempt left (k + 1)
      unfold applied lost at hrest ⊢
      rw [h, List.dropLast_cons_of_ne_nil hne, List.countP_cons, List.countP_cons, htransient, Bool.and_true]
      omega

theorem send_length_le (limit : Nat) : (send limit attempt).1.length ≤ max 1 limit := by
  have hlen := sendFrom_length_le attempt (limit - 1) 0
  show (sendFrom attempt (limit - 1) 0).1.length ≤ _
  omega

theorem applied_le_limit (limit : Nat) : applied (send limit attempt).1 ≤ max 1 limit :=
  Nat.le_trans List.countP_le_length (send_length_le attempt limit)

theorem applied_le (limit : Nat) : applied (send limit attempt).1 ≤ lost (send limit attempt).1 + 1 :=
  sendFrom_applied_le attempt _ _

end Retry
