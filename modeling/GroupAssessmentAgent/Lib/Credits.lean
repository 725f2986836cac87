import GroupAssessmentAgent.Lib.History
import Mathlib.Data.Nat.Basic
import Mathlib.Order.Basic

/-!
# Programs that pay for their steps

Each label has a cost. `Spends A cost m p n` says of a program that `n` credits pay for all its steps, whatever they
see, and that `m x` of them are left where it ends in `x`; a step that raises is free. `Costs A cost p n` is the case
in which nothing need be left: costs add along `bind` (`Costs.bind`), and a handler costs its share once more
(`Costs.tryCatch`). `Spends.watch` turns the credits into a judgement about what a history variable has counted.
-/

namespace Prog
variable {κ σ ε α β : Type}

section
variable (A : κ → (σ → σ) → Prop) (cost : κ → Nat)

/-- With `n` credits in hand the program pays for its steps, which are in `A`, and has `m` of its result left. -/
def Spends (m : Except ε α → Nat) : Prog κ σ ε α → Nat → Prop
  | ret a, n => m (.ok a) ≤ n
  | raise e, n => m (.error e) ≤ n
  | step l f k r, n => A l f ∧ cost l ≤ n ∧ (∀ s, Spends m (k s) (n - cost l)) ∧ ∀ e, Spends m (r e) n

/-- The program costs at most `n`. -/
abbrev Costs (p : Prog κ σ ε α) (n : Nat) : Prop := Spends A cost (fun _ => 0) p n

end

variable {A : κ → (σ → σ) → Prop} {cost : κ → Nat} {m m' : Except ε α → Nat} {p : Prog κ σ ε α} {n j : Nat}

theorem Spends.mono (h : Spends A cost m p n) (hn : n ≤ j) (hm : ∀ x, m' x ≤ m x) : Spends A cost m' p j := by
  induction p generalizing n j with
  | ret a => exact (hm _).trans (le_trans h hn)
  | raise e => exact (hm _).trans (le_trans h hn)
  | step l f k r ihk ihr =>
    obtain ⟨hf, hcost, hk, hr⟩ := h
    exact ⟨hf, hcost.trans hn, fun s => ihk s (hk s) (Nat.sub_le_sub_right hn _), fun e => ihr e (hr e) hn⟩

theorem Spends.frame (h : Spends A cost m p n) (j : Nat) : Spends A cost (fun x => m x + j) p (n + j) := by
  induction p generalizing n with
  | ret a => exact Nat.add_le_add_right h j
  | raise e => exact Nat.add_le_add_right h j
  | step l f k r ihk ihr =>
    obtain ⟨hf, hcost, hk, hr⟩ := h
    refine ⟨hf, hcost.trans (Nat.le_add_right _ _), fun s => ?_, fun e => ihr e (hr e)⟩
    rw [Nat.sub_add_comm hcost]
    exact ihk s (hk s)

theorem Spends.bind {g : α → Prog κ σ ε β} {m' : Except ε β → Nat} (hp : Spends A cost m p n)
    (hg : ∀ a, Spends A cost m' (g a) (m (.ok a))) (herr : ∀ e, m' (.error e) ≤ m (.error e)) :
    Spends A cost m' (p.bind g) n := by
  induction p generalizing n with
  | ret a => exact (hg a).mono hp fun _ => le_rfl
  | raise e => exact (herr e).trans hp
  | step l f k r ihk ihr =>
    obtain ⟨hf, hcost, hk, hr⟩ := hp
    exact ⟨hf, hcost, fun s => ihk s (hk s), fun e => ihr e (hr e)⟩

theorem Spends.tryCatch {h : ε → Prog κ σ ε α} (hp : Spends A cost m p n) (hok : ∀ a, m' (.ok a) ≤ m (.ok a))
    (hh : ∀ e, Spends A cost m' (h e) (m (.error e))) : Spends A cost m' (p.tryCatch h) n := by
  induction p generalizing n with
  | ret a => exact (hok a).trans hp
  | raise e => exact (hh e).mono hp fun _ => le_rfl
  | step l f k r ihk ihr =>
    obtain ⟨hf, hcost, hk, hr⟩ := hp
    exact ⟨hf, hcost, fun s => ihk s (hk s), fun e => ihr e (hr e)⟩

/-! ### What a program costs -/

theorem costs_atomic {l : κ} {h : σ → Except ε α × σ} (hA : A l fun s => (h s).2) :
    Costs A cost (atomic l h) (cost l) := by
  refine ⟨hA, le_rfl, fun s => ?_, fun e => Nat.zero_le _⟩
  show Costs A cost (ofExcept (h s).1) (cost l - cost l)
  cases (h s).1 with
  | ok a => exact Nat.zero_le _
  | error e => exact Nat.zero_le _

theorem Always.spends (hp : Always (fun l f => A l f ∧ cost l = 0) p) (n : Nat) : Spends A cost (fun _ => n) p n := by
  induction p with
  | ret a => exact le_rfl
  | raise e => exact le_rfl
  | step l f k r ihk ihr =>
    obtain ⟨⟨hf, hfree⟩, hk, hr⟩ := hp
    refine ⟨hf, hfree ▸ Nat.zero_le n, fun s => ?_, fun e => ihr e (hr e)⟩
    rw [hfree, Nat.sub_zero]
    exact ihk s (hk s)

theorem Costs.mono (hp : Costs A cost p n) (hn : n ≤ j) : Costs A cost p j := Spends.mono hp hn fun _ => le_rfl

theorem Always.costs (hp : Always (fun l f => A l f ∧ cost l = 0) p) (n : Nat) : Costs A cost p n :=
  (hp.spends n).mono le_rfl fun _ => Nat.zero_le _

theorem Costs.bind {g : α → Prog κ σ ε β} {k : Nat} (hp : Costs A cost p n) (hg : ∀ a, Costs A cost (g a) j)
    (hk : n + j ≤ k) : Costs A cost (p.bind g) k := by
  refine Costs.mono ((hp.frame j).bind (fun a => (hg a).mono ?_) fun _ => Nat.zero_le _) hk
  exact (Nat.zero_add j).ge

theorem Costs.tryCatch {h : ε → Prog κ σ ε α} {k : Nat} (hp : Costs A cost p n) (hh : ∀ e, Costs A cost (h e) j)
    (hk : n + j ≤ k) : Costs A cost (p.tryCatch h) k := by
  refine Costs.mono ((hp.frame j).tryCatch (fun _ => Nat.zero_le _) fun e => (hh e).mono ?_) hk
  exact (Nat.zero_add j).ge

theorem Always.costs_bind {g : α → Prog κ σ ε β} (hp : Always (fun l f => A l f ∧ cost l = 0) p)
    (hg : ∀ a, Costs A cost (g a) n) : Costs A cost (p.bind g) n :=
  (hp.spends n).bind hg fun _ => Nat.zero_le _

/-! ### What a history has counted -/

section
variable {H : Type} {δ : κ → σ → σ → H → H} {E : Env κ σ ε} {R G : σ × H → σ × H → Prop} {C : Nat → σ × H → Prop}

/-- `C n` says that `n` more may be spent. Where each step of `A` uses up its cost, the watched program goes from
`C n` to what it has left. -/
theorem Spends.watch (hp : Spends A cost m p n) (hstable : ∀ n, Stable R (C n))
    (hless : ∀ k n c, k ≤ n → C n c → C k c)
    (hstep : ∀ l f, A l f → ∀ n c, C (n + cost l) c → C n (f c.1, δ l c.1 (f c.1) c.2))
    (hG : ∀ n c c', C n c' → G c c') {c : σ × H} (hc : C n c) :
    RG (E.watched H) R G (fun x => C (m x)) (watch δ p) c := by
  induction p generalizing n c with
  | ret a => exact fun c' hcc' => hless _ _ _ hp (hstable n c c' hcc' hc)
  | raise e => exact fun c' hcc' => hless _ _ _ hp (hstable n c c' hcc' hc)
  | step l f k r ihk ihr =>
    obtain ⟨hf, hcost, hk, hr⟩ := hp
    intro c' hcc'
    have hc' : C n c' := hstable n c c' hcc' hc
    have hnext : C (n - cost l) (f c'.1, δ l c'.1 (f c'.1) c'.2) := by
      refine hstep l f hf _ c' ?_
      rwa [Nat.sub_add_cancel hcost]
    exact ⟨fun _ => ⟨hG _ _ _ hnext, ihk c'.1 (hk c'.1) hnext⟩, fun e _ => ihr e (hr e) hc'⟩

end

theorem RG.carry {E : Env κ σ ε} {R G : σ → σ → Prop} {Q : Except ε α → σ → Prop} {P : σ → Prop} {s : σ}
    (h : RG E R G Q p s) (hR : Stable R P) (hG : Stable G P) (hs : P s) :
    RG E R (fun s s' => G s s' ∧ P s') (fun x s => Q x s ∧ P s) p s := by
  induction p generalizing s with
  | ret a => exact fun s' hss' => ⟨h s' hss', hR s s' hss' hs⟩
  | raise e => exact fun s' hss' => ⟨h s' hss', hR s s' hss' hs⟩
  | step l f k r ihk ihr =>
    intro s' hss'
    obtain ⟨hok, hfault⟩ := h s' hss'
    have hs' : P s' := hR s s' hss' hs
    refine ⟨fun ha => ?_, fun e he => ihr e (hfault e he) hs'⟩
    have hnext : P (f s') := hG _ _ (hok ha).1 hs'
    exact ⟨⟨(hok ha).1, hnext⟩, ihk s' (hok ha).2 hnext⟩

end Prog
