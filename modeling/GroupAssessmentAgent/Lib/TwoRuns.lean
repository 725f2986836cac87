import GroupAssessmentAgent.Lib.Prog

/-!
# Two runs of one program

`Alike S T p`: two runs of `p` from states that `S` relates end alike, with one result, in states that `T` relates. What
`S` does not relate has no influence on the result. `Alike` follows the structure of a program: there is one rule for
each way of building one.
-/

namespace Prog
variable {κ σ ε α β : Type} {S : σ → σ → Prop}

/-- From states that `S` relates, `p` ends with one result, in states that `T` relates. -/
def Alike (S : σ → σ → Prop) (T : Except ε α → σ → σ → Prop) (p : Prog κ σ ε α) : Prop :=
  ∀ s s', S s s' → (p.run s).1 = (p.run s').1 ∧ T (p.run s).1 (p.run s).2 (p.run s').2

theorem alike_ret {T : Except ε α → σ → σ → Prop} {a : α} (h : ∀ s s', S s s' → T (.ok a) s s') :
    Alike S T (ret a : Prog κ σ ε α) :=
  fun s s' hs => ⟨rfl, h s s' hs⟩

theorem alike_raise {T : Except ε α → σ → σ → Prop} {e : ε} (h : ∀ s s', S s s' → T (.error e) s s') :
    Alike S T (raise e : Prog κ σ ε α) :=
  fun s s' hs => ⟨rfl, h s s' hs⟩

theorem alike_observe {l : κ} {h : σ → α} {T : Except ε α → σ → σ → Prop} (heq : ∀ s s', S s s' → h s = h s')
    (hT : ∀ s s', S s s' → T (.ok (h s)) s s') : Alike S T (observe l h : Prog κ σ ε α) :=
  fun s s' hs => ⟨congrArg Except.ok (heq s s' hs), hT s s' hs⟩

theorem alike_atomic {l : κ} {h : σ → Except ε α × σ} {T : Except ε α → σ → σ → Prop}
    (heq : ∀ s s', S s s' → (h s).1 = (h s').1) (hT : ∀ s s', S s s' → T (h s).1 (h s).2 (h s').2) :
    Alike S T (atomic l h) := by
  intro s s' hs
  rw [run_atomic, run_atomic]
  exact ⟨heq s s' hs, hT s s' hs⟩

theorem alike_change {l : κ} {f : σ → σ} {T : Except ε Unit → σ → σ → Prop}
    (hT : ∀ s s', S s s' → T (.ok ()) (f s) (f s')) : Alike S T (change l f : Prog κ σ ε Unit) :=
  fun s s' hs => ⟨rfl, hT s s' hs⟩

theorem Alike.bind {T : Except ε α → σ → σ → Prop} {U : Except ε β → σ → σ → Prop} {p : Prog κ σ ε α}
    {g : α → Prog κ σ ε β} (hp : Alike S T p) (hg : ∀ a, Alike (T (.ok a)) U (g a))
    (herr : ∀ e s s', T (.error e) s s' → U (.error e) s s') : Alike S U (p.bind g) := by
  intro s s' hs
  obtain ⟨hres, hT⟩ := hp s s' hs
  rw [run_bind, run_bind]
  generalize p.run s = c at hres hT ⊢
  generalize p.run s' = c' at hres hT ⊢
  obtain ⟨x, t⟩ := c
  obtain ⟨x', t'⟩ := c'
  obtain rfl : x = x' := hres
  cases x with
  | ok a => exact hg a t t' hT
  | error e => exact ⟨rfl, herr e t t' hT⟩

theorem Alike.then {p : Prog κ σ ε α} {g : α → Prog κ σ ε β} (hp : Alike S (fun _ => S) p)
    (hg : ∀ a, Alike S (fun _ => S) (g a)) : Alike S (fun _ => S) (p.bind g) :=
  hp.bind hg fun _ _ _ h => h

theorem Alike.weaken {S' : σ → σ → Prop} {T : Except ε α → σ → σ → Prop} {p : Prog κ σ ε α} (hp : Alike S T p)
    (hS : ∀ s s', S' s s' → S s s') : Alike S' T p :=
  fun s s' hs => hp s s' (hS s s' hs)

theorem alike_of_fact {P : Prop} {T : Except ε α → σ → σ → Prop} {p : Prog κ σ ε α} (hp : P → Alike S T p) :
    Alike (fun s s' => S s s' ∧ P) T p :=
  fun s s' hs => hp hs.2 s s' hs.1

theorem Alike.tryCatch {T U : Except ε α → σ → σ → Prop} {p : Prog κ σ ε α} {h : ε → Prog κ σ ε α} (hp : Alike S T p)
    (hok : ∀ a s s', T (.ok a) s s' → U (.ok a) s s') (hh : ∀ e, Alike (T (.error e)) U (h e)) :
    Alike S U (p.tryCatch h) := by
  intro s s' hs
  obtain ⟨hres, hT⟩ := hp s s' hs
  rw [run_tryCatch, run_tryCatch]
  generalize p.run s = c at hres hT ⊢
  generalize p.run s' = c' at hres hT ⊢
  obtain ⟨x, t⟩ := c
  obtain ⟨x', t'⟩ := c'
  obtain rfl : x = x' := hres
  cases x with
  | ok a => exact ⟨rfl, hok a t t' hT⟩
  | error e => exact hh e t t' hT

end Prog
