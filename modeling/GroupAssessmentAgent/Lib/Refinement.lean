import GroupAssessmentAgent.Lib.Prog

/-!
# One program on two representations of the state

`Implements S V p q`: step by step, `q` does on the states below what `p` does on the states above. Their steps carry the
same labels and keep the states related by `S`; they raise the same exceptions, and end in values that `V` relates. There
is one rule for each way of building two programs alike.

A schedule says move by move which thread goes on and how: with a new call, with its next step, or with that step raising
(`Interface.replay`). Two interfaces whose calls implement one another, replayed by one schedule, are in lockstep: their
states stay related, and each thread has the same statement before it on both, or has ended alike
(`Interface.Implements.lockstep`).
-/

namespace Prog
variable {κ σ τ ε α α' β β' : Type} {S : σ → τ → Prop} {V : α → β → Prop}

/-- `q` does on `τ` what `p` does on `σ`. -/
inductive Implements (S : σ → τ → Prop) (V : α → β → Prop) : Prog κ σ ε α → Prog κ τ ε β → Prop
  | ret {a : α} {b : β} : V a b → Implements S V (ret a) (ret b)
  | raise {e : ε} : Implements S V (raise e) (raise e)
  | step {l : κ} {f : σ → σ} {g : τ → τ} {k : σ → Prog κ σ ε α} {k' : τ → Prog κ τ ε β} {r : ε → Prog κ σ ε α}
      {r' : ε → Prog κ τ ε β} : (∀ s t, S s t → S (f s) (g t)) → (∀ s t, S s t → Implements S V (k s) (k' t)) →
      (∀ e, Implements S V (r e) (r' e)) → Implements S V (step l f k r) (step l g k' r')

/-- Outcomes that `V` relates: two values, or one exception. -/
inductive Outcomes (V : α → β → Prop) : Except ε α → Except ε β → Prop
  | ok {a : α} {b : β} : V a b → Outcomes V (.ok a) (.ok b)
  | error {e : ε} : Outcomes V (.error e) (.error e)

theorem implements_ofExcept {x : Except ε α} {y : Except ε β} (h : Outcomes V x y) :
    Implements S V (ofExcept x : Prog κ σ ε α) (ofExcept y) := by
  cases h with
  | ok h => exact .ret h
  | error => exact .raise

theorem implements_atomic {l : κ} {h : σ → Except ε α × σ} {h' : τ → Except ε β × τ}
    (heq : ∀ s t, S s t → Outcomes V (h s).1 (h' t).1 ∧ S (h s).2 (h' t).2) :
    Implements S V (atomic l h) (atomic l h') :=
  .step (fun s t hs => (heq s t hs).2) (fun s t hs => implements_ofExcept (heq s t hs).1) fun _ => .raise

theorem implements_observe {l : κ} {h : σ → α} {h' : τ → β} (heq : ∀ s t, S s t → V (h s) (h' t)) :
    Implements S V (observe l h : Prog κ σ ε α) (observe l h') :=
  .step (fun _ _ hs => hs) (fun s t hs => .ret (heq s t hs)) fun _ => .raise

theorem implements_change {l : κ} {f : σ → σ} {g : τ → τ} {V : Unit → Unit → Prop} (hV : V () ())
    (heq : ∀ s t, S s t → S (f s) (g t)) : Implements S V (change l f : Prog κ σ ε Unit) (change l g) :=
  .step heq (fun _ _ _ => .ret hV) fun _ => .raise

theorem Implements.bind {U : α' → β' → Prop} {p : Prog κ σ ε α} {q : Prog κ τ ε β} {g : α → Prog κ σ ε α'}
    {g' : β → Prog κ τ ε β'} (hp : Implements S V p q) (hg : ∀ a b, V a b → Implements S U (g a) (g' b)) :
    Implements S U (p.bind g) (q.bind g') := by
  induction hp with
  | ret h => exact hg _ _ h
  | raise => exact .raise
  | step hS _ _ ihk ihr => exact .step hS ihk ihr

theorem Implements.tryCatch {p : Prog κ σ ε α} {q : Prog κ τ ε β} {h : ε → Prog κ σ ε α} {h' : ε → Prog κ τ ε β}
    (hp : Implements S V p q) (hh : ∀ e, Implements S V (h e) (h' e)) :
    Implements S V (p.tryCatch h) (q.tryCatch h') := by
  induction hp with
  | ret h => exact .ret h
  | raise => exact hh _
  | step hS _ _ ihk ihr => exact .step hS ihk ihr

theorem Implements.alike {p : Prog κ σ ε α} {q : Prog κ τ ε β} (h : Implements S V p q) :
    q.label? = p.label? ∧ Option.Rel (Outcomes V) p.ended? q.ended? := by
  cases h with
  | ret h => exact ⟨rfl, .some (.ok h)⟩
  | raise => exact ⟨rfl, .some .error⟩
  | step => exact ⟨rfl, .none⟩

/-! ### Schedules -/

/-- The next step of a program takes effect, or raises. A program that has ended stays as it is. -/
def advance (fault : Option ε) (s : σ) : Prog κ σ ε α → Prog κ σ ε α × σ
  | step _ f k r => fault.elim (k s, f s) fun e => (r e, s)
  | p => (p, s)

theorem Implements.advance {p : Prog κ σ ε α} {q : Prog κ τ ε β} (h : Implements S V p q) {s : σ} {t : τ} (hs : S s t)
    (fault : Option ε) :
    Implements S V (p.advance fault s).1 (q.advance fault t).1 ∧ S (p.advance fault s).2 (q.advance fault t).2 := by
  cases h with
  | ret h => exact ⟨.ret h, hs⟩
  | raise => exact ⟨.raise, hs⟩
  | step hS hk hr =>
    cases fault with
    | none => exact ⟨hk s t hs, hS s t hs⟩
    | some e => exact ⟨hr e, hs⟩

/-- A move of a pool of threads: a thread starts a call, whatever it was at; the next step of a thread takes effect or
raises; something else happens around the threads. -/
inductive Move (ι γ ρ ε : Type) where
  | call (i : ι) (c : γ)
  | step (i : ι) (fault : Option ε)
  | around (r : ρ)

/-- Calls in `γ` as programs, and what happens around them. -/
structure Interface (γ ρ κ σ ε α : Type) where
  prog : γ → Prog κ σ ε α
  around : ρ → σ → σ

namespace Interface
variable {ι γ ρ : Type} [DecidableEq ι]

def move (m : Interface γ ρ κ σ ε α) (c : (ι → Prog κ σ ε α) × σ) : Move ι γ ρ ε → (ι → Prog κ σ ε α) × σ
  | .call i call => (Function.update c.1 i (m.prog call), c.2)
  | .step i fault => (Function.update c.1 i ((c.1 i).advance fault c.2).1, ((c.1 i).advance fault c.2).2)
  | .around r => (c.1, m.around r c.2)

/-- The run that the schedule gives. -/
def replay (m : Interface γ ρ κ σ ε α) (c : (ι → Prog κ σ ε α) × σ) (schedule : List (Move ι γ ρ ε)) :
    (ι → Prog κ σ ε α) × σ :=
  schedule.foldl m.move c

/-- The calls of `n` do on `τ` what those of `m` do on `σ`. -/
structure Implements (S : σ → τ → Prop) (V : α → β → Prop) (m : Interface γ ρ κ σ ε α) (n : Interface γ ρ κ τ ε β) :
    Prop where
  prog : ∀ c, Prog.Implements S V (m.prog c) (n.prog c)
  around : ∀ r s t, S s t → S (m.around r s) (n.around r t)

/-- Each thread is at the same place on both sides. -/
structure Lockstep (S : σ → τ → Prop) (V : α → β → Prop) (c : (ι → Prog κ σ ε α) × σ) (d : (ι → Prog κ τ ε β) × τ) :
    Prop where
  threads : ∀ i, Prog.Implements S V (c.1 i) (d.1 i)
  state : S c.2 d.2

variable {S : σ → τ → Prop} {V : α → β → Prop} {m : Interface γ ρ κ σ ε α} {n : Interface γ ρ κ τ ε β}

theorem Lockstep.update {c : (ι → Prog κ σ ε α) × σ} {d : (ι → Prog κ τ ε β) × τ} (h : Lockstep S V c d) (i : ι)
    {p : Prog κ σ ε α} {q : Prog κ τ ε β} {s : σ} {t : τ} (hp : Prog.Implements S V p q) (hs : S s t) :
    Lockstep S V (Function.update c.1 i p, s) (Function.update d.1 i q, t) := by
  refine ⟨fun j => ?_, hs⟩
  by_cases hj : j = i
  · subst hj
    simpa only [Function.update_self] using hp
  · simpa only [Function.update_of_ne hj] using h.threads j

theorem Implements.move (h : Implements S V m n) {c : (ι → Prog κ σ ε α) × σ} {d : (ι → Prog κ τ ε β) × τ}
    (hcd : Lockstep S V c d) (x : Move ι γ ρ ε) : Lockstep S V (m.move c x) (n.move d x) := by
  cases x with
  | call i call => exact hcd.update i (h.prog call) hcd.state
  | step i fault =>
    obtain ⟨hp, hs⟩ := (hcd.threads i).advance hcd.state fault
    exact hcd.update i hp hs
  | around r => exact ⟨hcd.threads, h.around r _ _ hcd.state⟩

/-- **One schedule keeps both sides in lockstep.** -/
theorem Implements.lockstep (h : Implements S V m n) (schedule : List (Move ι γ ρ ε)) {c : (ι → Prog κ σ ε α) × σ}
    {d : (ι → Prog κ τ ε β) × τ} (hcd : Lockstep S V c d) :
    Lockstep S V (m.replay c schedule) (n.replay d schedule) := by
  induction schedule generalizing c d with
  | nil => exact hcd
  | cons x schedule ih => exact ih (h.move hcd x)

end Interface

end Prog
