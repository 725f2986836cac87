import Mathlib.Algebra.Order.Monoid.Unbundled.Basic
import Mathlib.Data.List.Pairwise
import Mathlib.Logic.Function.Basic

/-!
# Cooldowns

A request of a key is granted unless the last grant of the key was recorded less than a cooldown ago. The clock is read
three times: at the check, at the effect of the grant and at its record. `decisions_spaced`: the effects of two grants
of a key are a cooldown apart. `decisions_filter`: the requests of other keys change nothing.
-/

namespace Cooldown

/-- A request, with the readings of the clock at the check, at the effect and at the record. -/
structure Request (κ T : Type) where
  key : κ
  checked : T
  effected : T
  recorded : T

section
variable {κ T : Type} [DecidableEq κ] [LinearOrder T] [Add T] (d : T)

/-- The last record is at least the cooldown old. -/
def Due (last : Option T) (r : Request κ T) : Prop := ∀ t ∈ last, t + d ≤ r.checked

instance (last : Option T) (r : Request κ T) : Decidable (Due d last r) := by
  unfold Due
  infer_instance

/-- The records after a request. -/
def next (last : κ → Option T) (r : Request κ T) : κ → Option T :=
  if Due d (last r.key) r then Function.update last r.key (some r.recorded) else last

/-- The requests of a history, with what is decided on each. -/
def decisions : (κ → Option T) → List (Request κ T) → List (Request κ T × Bool)
  | _, [] => []
  | last, r :: rs => (r, decide (Due d (last r.key) r)) :: decisions (next d last r) rs

/-- The clock does not go back, within a request and from one to the next. -/
structure InOrder (rs : List (Request κ T)) : Prop where
  within : ∀ r ∈ rs, r.checked ≤ r.effected ∧ r.effected ≤ r.recorded
  between : rs.Pairwise fun r r' => r.recorded ≤ r'.checked

variable {d}

theorem next_of_due {last : κ → Option T} {r : Request κ T} (h : Due d (last r.key) r) :
    next d last r = Function.update last r.key (some r.recorded) := if_pos h

theorem next_of_not_due {last : κ → Option T} {r : Request κ T} (h : ¬ Due d (last r.key) r) : next d last r = last :=
  if_neg h

theorem next_of_ne {last : κ → Option T} {r : Request κ T} {k : κ} (hk : r.key ≠ k) : next d last r k = last k := by
  by_cases hdue : Due d (last r.key) r
  · rw [next_of_due hdue, Function.update_of_ne hk.symm]
  · rw [next_of_not_due hdue]

theorem next_congr {last last' : κ → Option T} {r : Request κ T} (h : last r.key = last' r.key) :
    next d last r r.key = next d last' r r.key := by
  by_cases hdue : Due d (last r.key) r
  · rw [next_of_due hdue, next_of_due (h ▸ hdue), Function.update_self, Function.update_self]
  · rw [next_of_not_due hdue, next_of_not_due (h ▸ hdue), h]

/-- **Requests of other keys change no decision.** -/
theorem decisions_filter (k : κ) {last last' : κ → Option T} (h : last k = last' k) (rs : List (Request κ T)) :
    (decisions d last rs).filter (fun x => x.1.key = k) = decisions d last' (rs.filter fun r => r.key = k) := by
  induction rs generalizing last last' with
  | nil => rfl
  | cons r rs ih =>
    rw [decisions, List.filter_cons, List.filter_cons]
    by_cases hk : r.key = k
    · obtain rfl := hk
      rw [if_pos (by simp), if_pos (by simp), decisions, ih (next_congr h), h]
    · rw [if_neg (by simp [hk]), if_neg (by simp [hk]), ih ((next_of_ne hk).trans h)]

/-- The record at `k`, if there is one, is not before `t`. -/
def NotBefore (t : T) (last : κ → Option T) (k : κ) : Prop := ∃ t' ∈ last k, t ≤ t'

theorem NotBefore.next {t : T} {last : κ → Option T} {k : κ} (h : NotBefore t last k) {r : Request κ T}
    (hr : t ≤ r.recorded) : NotBefore t (next d last r) k := by
  by_cases hk : r.key = k
  · obtain rfl := hk
    by_cases hdue : Due d (last r.key) r
    · rw [next_of_due hdue]
      exact ⟨r.recorded, by simp, hr⟩
    · rwa [next_of_not_due hdue]
  · rwa [NotBefore, next_of_ne hk]

theorem map_fst_decisions (last : κ → Option T) (rs : List (Request κ T)) :
    (decisions d last rs).map Prod.fst = rs := by
  induction rs generalizing last with
  | nil => rfl
  | cons r rs ih => rw [decisions, List.map_cons, ih]

section
variable [AddRightMono T]

/-- What is granted after a record is checked a cooldown after it. -/
theorem checked_after {t : T} {last : κ → Option T} {k : κ} (h : NotBefore t last k) {rs : List (Request κ T)}
    (hrs : ∀ r ∈ rs, t ≤ r.recorded) :
    ∀ x ∈ decisions d last rs, x.1.key = k → x.2 = true → t + d ≤ x.1.checked := by
  induction rs generalizing last with
  | nil => intro x hx; cases hx
  | cons r rs ih =>
    intro x hx hkey hgranted
    rcases List.mem_cons.1 hx with rfl | hx
    · obtain rfl := hkey
      obtain ⟨t', ht', hle⟩ := h
      have hdue : Due d (last r.key) r := of_decide_eq_true hgranted
      exact (add_le_add_left hle d).trans (hdue t' ht')
    · exact ih (h.next (hrs r List.mem_cons_self)) (fun r' hr' => hrs r' (List.mem_cons_of_mem r hr')) x hx hkey hgranted

/-- **The effects of two grants of a key are a cooldown apart.** -/
theorem decisions_spaced {last : κ → Option T} {rs : List (Request κ T)} (h : InOrder rs) :
    (decisions d last rs).Pairwise fun x y =>
      x.1.key = y.1.key → x.2 = true → y.2 = true → x.1.effected + d ≤ y.1.effected := by
  induction rs generalizing last with
  | nil => exact List.Pairwise.nil
  | cons r rs ih =>
    have hbetween := List.pairwise_cons.1 h.between
    have hwithin := List.forall_mem_cons.1 h.within
    refine List.pairwise_cons.2 ⟨fun y hy hkey hgranted hgranted' => ?_, ih ⟨hwithin.2, hbetween.2⟩⟩
    have hmem : y.1 ∈ rs := map_fst_decisions (next d last r) rs ▸ List.mem_map_of_mem hy
    have hdue : Due d (last r.key) r := of_decide_eq_true hgranted
    have hrecord : NotBefore r.recorded (next d last r) r.key := by
      rw [next_of_due hdue]
      exact ⟨r.recorded, by simp, le_rfl⟩
    have hlater : ∀ r' ∈ rs, r.recorded ≤ r'.recorded := fun r' hr' =>
      (hbetween.1 r' hr').trans ((hwithin.2 r' hr').1.trans (hwithin.2 r' hr').2)
    calc r.effected + d ≤ r.recorded + d := add_le_add_left hwithin.1.2 d
      _ ≤ y.1.checked := checked_after hrecord hlater y hy hkey.symm hgranted'
      _ ≤ y.1.effected := (hwithin.2 y.1 hmem).1

end

end

end Cooldown
