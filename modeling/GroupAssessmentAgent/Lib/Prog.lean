import Mathlib.Logic.Relation
import Mathlib.Logic.Function.Basic

/-!
# Programs of atomic steps

`Prog κ σ ε α`: a program over a shared state `σ` that ends in a value of `α` or an exception of `ε`. It is a
tree of *atomic* steps. A step carries a label in `κ`, its effect on the state, the program that follows (which
depends on the state the step saw), and the program that follows when the step raises instead of taking effect.
The last component is what an exception handler around the step does, so `tryCatch` is a plain recursion.

One program has three readings.

* `run`: no step raises, nobody else touches the state.
* `Step E`: one step at a time, where the environment `E` says in which states a step may be taken and which
  exceptions it may raise; a prefix of such an execution is a run that was cut short.
* `PoolStep E`: several threads, each running one program after another, interleaved one step at a time.

`Always A p` says of every step of `p`, and `Keeps φ p` that none of them changes `φ`. `RG E R G Q p s` is the
rely/guarantee judgement: started in `s`, if everybody else moves the state inside `R`, then each step `p` takes is
inside `G`, and `p` ends in `Q`. `PoolSpec` puts the judgements of the threads together, and `PoolSpec.inv` gives
invariants of their runs.
-/

/-- A program of atomic steps labelled in `κ` on states `σ`, with exceptions `ε` and result `α`. -/
inductive Prog (κ σ ε α : Type) where
  | ret (a : α)
  | raise (e : ε)
  | step (l : κ) (f : σ → σ) (k : σ → Prog κ σ ε α) (r : ε → Prog κ σ ε α)

namespace Prog
variable {κ σ ε α β γ : Type}

def bind : Prog κ σ ε α → (α → Prog κ σ ε β) → Prog κ σ ε β
  | ret a, g => g a
  | raise e, _ => raise e
  | step l f k r, g => step l f (fun s => (k s).bind g) (fun e => (r e).bind g)

protected def tryCatch : Prog κ σ ε α → (ε → Prog κ σ ε α) → Prog κ σ ε α
  | ret a, _ => ret a
  | raise e, h => h e
  | step l f k r, h => step l f (fun s => (k s).tryCatch h) (fun e => (r e).tryCatch h)

instance : Monad (Prog κ σ ε) where
  pure := ret
  bind := bind

instance : MonadExceptOf ε (Prog κ σ ε) where
  throw := raise
  tryCatch := Prog.tryCatch

@[simp] theorem pure_eq (a : α) : (pure a : Prog κ σ ε α) = ret a := rfl
@[simp] theorem throw_eq (e : ε) : (throw e : Prog κ σ ε α) = raise e := rfl
@[simp] theorem bind_eq (p : Prog κ σ ε α) (g : α → Prog κ σ ε β) : p >>= g = p.bind g := rfl
@[simp] theorem map_eq (f : α → β) (p : Prog κ σ ε α) : f <$> p = p.bind fun a => ret (f a) := rfl
@[simp] theorem tryCatch_eq (p : Prog κ σ ε α) (h : ε → Prog κ σ ε α) :
    tryCatch p h = p.tryCatch h := rfl
@[simp] theorem tryCatchThe_eq (p : Prog κ σ ε α) (h : ε → Prog κ σ ε α) :
    tryCatchThe ε p h = p.tryCatch h := rfl

@[simp] theorem ret_bind (a : α) (g : α → Prog κ σ ε β) : (ret a).bind g = g a := rfl
@[simp] theorem raise_bind (e : ε) (g : α → Prog κ σ ε β) : (raise e).bind g = raise e := rfl
@[simp] theorem ret_tryCatch (a : α) (h : ε → Prog κ σ ε α) : (ret a).tryCatch h = ret a := rfl
@[simp] theorem raise_tryCatch (e : ε) (h : ε → Prog κ σ ε α) : (raise e).tryCatch h = h e := rfl

theorem bind_assoc (p : Prog κ σ ε α) (g : α → Prog κ σ ε β) (h : β → Prog κ σ ε γ) :
    (p.bind g).bind h = p.bind fun a => (g a).bind h := by
  induction p with
  | ret a => rfl
  | raise e => rfl
  | step l f k r ihk ihr =>
    rw [bind, bind, bind, funext ihk, funext ihr]

/-- The program that ends as `x` says. -/
def ofExcept : Except ε α → Prog κ σ ε α
  | .ok a => ret a
  | .error e => raise e

/-- One atomic step: from `s` to `(h s).2`, with result `(h s).1`. -/
def atomic (l : κ) (h : σ → Except ε α × σ) : Prog κ σ ε α :=
  step l (fun s => (h s).2) (fun s => ofExcept (h s).1) raise

/-- An atomic step that only looks. -/
def observe (l : κ) (h : σ → α) : Prog κ σ ε α :=
  step l id (fun s => ret (h s)) raise

/-- An atomic step that only looks, and may raise on what it sees. -/
def observeE (l : κ) (h : σ → Except ε α) : Prog κ σ ε α :=
  step l id (fun s => ofExcept (h s)) raise

/-- An atomic step that only changes the state. -/
def change (l : κ) (f : σ → σ) : Prog κ σ ε Unit :=
  step l f (fun _ => ret ()) raise

/-- The step that comes next. -/
def label? : Prog κ σ ε α → Option κ
  | step l _ _ _ => some l
  | _ => none

/-- What the program has ended with. -/
def ended? : Prog κ σ ε α → Option (Except ε α)
  | ret a => some (.ok a)
  | raise e => some (.error e)
  | step .. => none

/-! ### Running alone, without faults -/

/-- The result and the last state of a run in which no step raises and nobody else touches the state. -/
def run : Prog κ σ ε α → σ → Except ε α × σ
  | ret a, s => (.ok a, s)
  | raise e, s => (.error e, s)
  | step _ f k _, s => (k s).run (f s)

@[simp] theorem run_ret (a : α) (s : σ) : (ret a : Prog κ σ ε α).run s = (.ok a, s) := rfl
@[simp] theorem run_raise (e : ε) (s : σ) : (raise e : Prog κ σ ε α).run s = (.error e, s) := rfl

@[simp] theorem run_ofExcept (x : Except ε α) (s : σ) :
    (ofExcept x : Prog κ σ ε α).run s = (x, s) := by
  cases x <;> rfl

@[simp] theorem run_atomic (l : κ) (h : σ → Except ε α × σ) (s : σ) : (atomic l h).run s = h s := by
  simp [atomic, run]

@[simp] theorem run_observe (l : κ) (h : σ → α) (s : σ) :
    (observe l h : Prog κ σ ε α).run s = (.ok (h s), s) := rfl

@[simp] theorem run_observeE (l : κ) (h : σ → Except ε α) (s : σ) :
    (observeE l h).run s = (h s, s) := by
  simp [observeE, run]

@[simp] theorem run_change (l : κ) (f : σ → σ) (s : σ) :
    (change l f : Prog κ σ ε Unit).run s = (.ok (), f s) := rfl

theorem run_bind (p : Prog κ σ ε α) (g : α → Prog κ σ ε β) (s : σ) :
    (p.bind g).run s = match p.run s with
      | (.ok a, s') => (g a).run s'
      | (.error e, s') => (.error e, s') := by
  induction p generalizing s with
  | ret a => rfl
  | raise e => rfl
  | step l f k r ihk ihr => simpa only [bind, run] using ihk s (f s)

theorem run_bind_ok {p : Prog κ σ ε α} {g : α → Prog κ σ ε β} {s s' : σ} {a : α}
    (h : p.run s = (.ok a, s')) : (p.bind g).run s = (g a).run s' := by
  rw [run_bind, h]

theorem run_bind_error {p : Prog κ σ ε α} {g : α → Prog κ σ ε β} {s s' : σ} {e : ε}
    (h : p.run s = (.error e, s')) : (p.bind g).run s = (.error e, s') := by
  rw [run_bind, h]

theorem run_tryCatch (p : Prog κ σ ε α) (h : ε → Prog κ σ ε α) (s : σ) :
    (p.tryCatch h).run s = match p.run s with
      | (.ok a, s') => (.ok a, s')
      | (.error e, s') => (h e).run s' := by
  induction p generalizing s with
  | ret a => rfl
  | raise e => rfl
  | step l f k r ihk ihr => simpa only [Prog.tryCatch, run] using ihk s (f s)

theorem run_tryCatch_ok {p : Prog κ σ ε α} {h : ε → Prog κ σ ε α} {s s' : σ} {a : α} (hp : p.run s = (.ok a, s')) :
    (p.tryCatch h).run s = (.ok a, s') := by
  rw [run_tryCatch, hp]

/-- The labels of the steps of that run. -/
def trace : Prog κ σ ε α → σ → List κ
  | ret _, _ => []
  | raise _, _ => []
  | step l f k _, s => l :: (k s).trace (f s)

theorem trace_bind (p : Prog κ σ ε α) (g : α → Prog κ σ ε β) (s : σ) :
    (p.bind g).trace s = p.trace s ++ match p.run s with
      | (.ok a, s') => (g a).trace s'
      | (.error _, _) => [] := by
  induction p generalizing s with
  | ret a => rfl
  | raise e => rfl
  | step l f k r ihk ihr => simpa only [bind, trace, run, List.cons_append, List.cons.injEq, true_and] using ihk s (f s)

theorem trace_tryCatch (p : Prog κ σ ε α) (h : ε → Prog κ σ ε α) (s : σ) :
    (p.tryCatch h).trace s = p.trace s ++ match p.run s with
      | (.ok _, _) => []
      | (.error e, s') => (h e).trace s' := by
  induction p generalizing s with
  | ret a => rfl
  | raise e => rfl
  | step l f k r ihk ihr =>
    simpa only [Prog.tryCatch, trace, run, List.cons_append, List.cons.injEq, true_and] using ihk s (f s)

/-! ### One step at a time -/

/-- What the environment of a program does: in which states a labelled step may be taken, and which exceptions
it may raise there in place of its effect. -/
structure Env (κ σ ε : Type) where
  allowed : κ → σ → Prop
  fault : κ → σ → ε → Prop

/-- Every step may be taken, and no step raises. -/
def Env.calm : Env κ σ ε := ⟨fun _ _ => True, fun _ _ _ => False⟩

/-- Every step may be taken, and every step may raise whatever exception. -/
def Env.faulty : Env κ σ ε := ⟨fun _ _ => True, fun _ _ _ => True⟩

inductive Step (E : Env κ σ ε) : Prog κ σ ε α × σ → Prog κ σ ε α × σ → Prop
  | ok {l f k r s} : E.allowed l s → Step E (step l f k r, s) (k s, f s)
  | fault {l f k r s e} : E.fault l s e → Step E (step l f k r, s) (r e, s)

/-- An execution up to any point. -/
abbrev Steps (E : Env κ σ ε) : Prog κ σ ε α × σ → Prog κ σ ε α × σ → Prop :=
  Relation.ReflTransGen (Step E)

theorem Steps.ok {E : Env κ σ ε} {l : κ} {f : σ → σ} {k : σ → Prog κ σ ε α} {r : ε → Prog κ σ ε α} {s : σ}
    {c : Prog κ σ ε α × σ} (h : E.allowed l s) (hs : Steps E (k s, f s) c) :
    Steps E (step l f k r, s) c :=
  Relation.ReflTransGen.head (Step.ok h) hs

theorem Steps.fault {E : Env κ σ ε} {l : κ} {f : σ → σ} {k : σ → Prog κ σ ε α} {r : ε → Prog κ σ ε α} {s : σ}
    {e : ε} {c : Prog κ σ ε α × σ} (h : E.fault l s e) (hs : Steps E (r e, s) c) :
    Steps E (step l f k r, s) c :=
  Relation.ReflTransGen.head (Step.fault h) hs

theorem steps_run (E : Env κ σ ε) (hE : ∀ l s, E.allowed l s) (p : Prog κ σ ε α) (s : σ) :
    Steps E (p, s) (ofExcept (p.run s).1, (p.run s).2) := by
  induction p generalizing s with
  | ret a => exact .refl
  | raise e => exact .refl
  | step l f k r ihk ihr => exact Steps.ok (hE l s) (ihk s (f s))

theorem steps_ret {E : Env κ σ ε} {a : α} {s : σ} {c : Prog κ σ ε α × σ} (h : Steps E (ret a, s) c) :
    c = (ret a, s) := by
  cases h.cases_head with
  | inl h => exact h.symm
  | inr h => obtain ⟨_, hstep, _⟩ := h; cases hstep

theorem steps_raise {E : Env κ σ ε} {e : ε} {s : σ} {c : Prog κ σ ε α × σ} (h : Steps E (raise e, s) c) :
    c = (raise e, s) := by
  cases h.cases_head with
  | inl h => exact h.symm
  | inr h => obtain ⟨_, hstep, _⟩ := h; cases hstep

theorem steps_bind {E : Env κ σ ε} (p : Prog κ σ ε α) (g : α → Prog κ σ ε β) (s : σ)
    {c : Prog κ σ ε β × σ} (h : Steps E (p.bind g, s) c) :
    (∃ p', Steps E (p, s) (p', c.2) ∧ c.1 = p'.bind g) ∨
      ∃ a s', Steps E (p, s) (ret a, s') ∧ Steps E (g a, s') c := by
  induction p generalizing s with
  | ret a => exact .inr ⟨a, s, .refl, h⟩
  | raise e =>
    rw [steps_raise h]
    exact .inl ⟨raise e, .refl, rfl⟩
  | step l f k r ihk ihr =>
    rcases h.cases_head with rfl | ⟨d, hstep, hrest⟩
    · exact .inl ⟨step l f k r, .refl, rfl⟩
    · cases hstep with
      | ok hallow =>
        rcases ihk s (f s) hrest with ⟨p', hp, hc⟩ | ⟨a, s', hp, hg⟩
        · exact .inl ⟨p', .ok hallow hp, hc⟩
        · exact .inr ⟨a, s', .ok hallow hp, hg⟩
      | fault hfault =>
        rcases ihr _ s hrest with ⟨p', hp, hc⟩ | ⟨a, s', hp, hg⟩
        · exact .inl ⟨p', .fault hfault hp, hc⟩
        · exact .inr ⟨a, s', .fault hfault hp, hg⟩

/-- The execution that a script gives: its entries say of each step whether it takes effect (`none`) or raises. -/
def follow : List (Option ε) → Prog κ σ ε α × σ → Prog κ σ ε α × σ
  | none :: script, (step _ f k _, s) => follow script (k s, f s)
  | some e :: script, (step _ _ _ r, s) => follow script (r e, s)
  | _, c => c

theorem steps_follow {E : Env κ σ ε} (hE : ∀ l s, E.allowed l s) (script : List (Option ε))
    (hfault : ∀ l s, ∀ e, some e ∈ script → E.fault l s e) (c : Prog κ σ ε α × σ) :
    Steps E c (follow script c) := by
  induction script generalizing c with
  | nil => exact .refl
  | cons x script ih =>
    obtain ⟨p, s⟩ := c
    have hrest := ih fun l s e he => hfault l s e (List.mem_cons_of_mem _ he)
    cases p with
    | ret a => cases x <;> exact .refl
    | raise e => cases x <;> exact .refl
    | step l f k r =>
      cases x with
      | none => exact Steps.ok (hE l s) (hrest _)
      | some e => exact Steps.fault (hfault l s e List.mem_cons_self) (hrest _)

theorem steps_follow_none {E : Env κ σ ε} (hE : ∀ l s, E.allowed l s) (n : Nat) (c : Prog κ σ ε α × σ) :
    Steps E c (follow (List.replicate n none) c) :=
  steps_follow hE _ (fun _ _ _ he => by simp at he) c

/-! ### Properties of all steps -/

section Always
variable {A : κ → (σ → σ) → Prop}

/-- Every step of `p`, whatever the steps before it saw, has its label and its effect in `A`. -/
def Always (A : κ → (σ → σ) → Prop) : Prog κ σ ε α → Prop
  | ret _ => True
  | raise _ => True
  | step l f k r => A l f ∧ (∀ s, Always A (k s)) ∧ ∀ e, Always A (r e)

@[simp] theorem always_ret (a : α) : Always A (ret a : Prog κ σ ε α) := trivial

@[simp] theorem always_ofExcept (x : Except ε α) : Always A (ofExcept x : Prog κ σ ε α) := by
  cases x <;> trivial

theorem always_any (hA : ∀ l f, A l f) (p : Prog κ σ ε α) : Always A p := by
  induction p with
  | ret a => trivial
  | raise e => trivial
  | step l f k r ihk ihr => exact ⟨hA l f, ihk, ihr⟩

theorem always_observe {l : κ} (hA : A l id) (h : σ → α) : Always A (observe l h : Prog κ σ ε α) :=
  ⟨hA, fun _ => trivial, fun _ => trivial⟩

theorem always_observeE {l : κ} (hA : A l id) (h : σ → Except ε α) : Always A (observeE l h) :=
  ⟨hA, fun _ => always_ofExcept _, fun _ => trivial⟩

theorem always_atomic {l : κ} {h : σ → Except ε α × σ} (hA : A l fun s => (h s).2) : Always A (atomic l h) :=
  ⟨hA, fun _ => always_ofExcept _, fun _ => trivial⟩

theorem always_change {l : κ} {f : σ → σ} (hA : A l f) : Always A (change l f : Prog κ σ ε Unit) :=
  ⟨hA, fun _ => trivial, fun _ => trivial⟩

theorem Always.bind {p : Prog κ σ ε α} {g : α → Prog κ σ ε β} (hp : Always A p)
    (hg : ∀ a, Always A (g a)) : Always A (p.bind g) := by
  induction p with
  | ret a => exact hg a
  | raise e => trivial
  | step l f k r ihk ihr =>
    obtain ⟨hf, hk, hr⟩ := hp
    exact ⟨hf, fun s => ihk s (hk s), fun e => ihr e (hr e)⟩

theorem Always.tryCatch {p : Prog κ σ ε α} {h : ε → Prog κ σ ε α} (hp : Always A p)
    (hh : ∀ e, Always A (h e)) : Always A (p.tryCatch h) := by
  induction p with
  | ret a => trivial
  | raise e => exact hh e
  | step l f k r ihk ihr =>
    obtain ⟨hf, hk, hr⟩ := hp
    exact ⟨hf, fun s => ihk s (hk s), fun e => ihr e (hr e)⟩

theorem Always.step {E : Env κ σ ε} {p p' : Prog κ σ ε α} {s s' : σ} (hp : Always A p)
    (h : Step E (p, s) (p', s')) : Always A p' := by
  cases h with
  | ok _ => exact hp.2.1 s
  | fault _ => exact hp.2.2 _

theorem Always.mono {B : κ → (σ → σ) → Prop} {p : Prog κ σ ε α} (hp : Always A p) (hAB : ∀ l f, A l f → B l f) :
    Always B p := by
  induction p with
  | ret a => trivial
  | raise e => trivial
  | step l f k r ihk ihr =>
    obtain ⟨hf, hk, hr⟩ := hp
    exact ⟨hAB l f hf, fun s => ihk s (hk s), fun e => ihr e (hr e)⟩

theorem Always.trace {p : Prog κ σ ε α} (hp : Always A p) {P : κ → Prop} (hA : ∀ l f, A l f → P l) (s : σ) :
    ∀ l ∈ p.trace s, P l := by
  induction p generalizing s with
  | ret a => simp [Prog.trace]
  | raise e => simp [Prog.trace]
  | step l f k r ihk ihr =>
    obtain ⟨hf, hk, hr⟩ := hp
    intro l' hl'
    rcases List.mem_cons.1 hl' with rfl | hl'
    · exact hA _ f hf
    · exact ihk s (hk s) (f s) l' hl'

end Always

/-! ### What a program never changes -/

section Keeps
variable (φ : σ → γ)

/-- No step of `p`, from whatever state, changes `φ`. -/
abbrev Keeps (p : Prog κ σ ε α) : Prop := Always (fun _ f => ∀ s, φ (f s) = φ s) p

@[simp] theorem keeps_observe (l : κ) (h : σ → α) : Keeps φ (observe l h : Prog κ σ ε α) :=
  always_observe (fun _ => rfl) h

variable {φ}

theorem Keeps.run {p : Prog κ σ ε α} (hp : Keeps φ p) (s : σ) : φ (p.run s).2 = φ s := by
  induction p generalizing s with
  | ret a => rfl
  | raise e => rfl
  | step l f k r ihk ihr =>
    obtain ⟨hf, hk, hr⟩ := hp
    exact (ihk s (hk s) (f s)).trans (hf s)

end Keeps

/-! ### Rely and guarantee -/

section RG
variable {E : Env κ σ ε} {R G : σ → σ → Prop}

/-- Started in `s`, while others move the state inside `R`: every step `p` takes is inside `G`, and if `p` ends,
it ends in `Q`. -/
def RG (E : Env κ σ ε) (R G : σ → σ → Prop) (Q : Except ε α → σ → Prop) : Prog κ σ ε α → σ → Prop
  | ret a, s => ∀ s', R s s' → Q (.ok a) s'
  | raise e, s => ∀ s', R s s' → Q (.error e) s'
  | step l f k r, s => ∀ s', R s s' →
      (E.allowed l s' → G s' (f s') ∧ RG E R G Q (k s') (f s')) ∧
        ∀ e, E.fault l s' e → RG E R G Q (r e) s'

theorem RG.mono {G' : σ → σ → Prop} {Q Q' : Except ε α → σ → Prop} {p : Prog κ σ ε α} {s : σ}
    (h : RG E R G Q p s) (hG : ∀ s s', G s s' → G' s s') (hQ : ∀ x s, Q x s → Q' x s) : RG E R G' Q' p s := by
  induction p generalizing s with
  | ret a => exact fun s' hs => hQ _ _ (h s' hs)
  | raise e => exact fun s' hs => hQ _ _ (h s' hs)
  | step l f k r ihk ihr =>
    intro s' hs
    obtain ⟨hok, hfault⟩ := h s' hs
    exact ⟨fun ha => ⟨hG _ _ (hok ha).1, ihk _ (hok ha).2⟩, fun e he => ihr e (hfault e he)⟩

theorem RG.among {R' : σ → σ → Prop} {Q : Except ε α → σ → Prop} {p : Prog κ σ ε α} {s : σ} (h : RG E R G Q p s)
    (hR : ∀ s s', R' s s' → R s s') : RG E R' G Q p s := by
  induction p generalizing s with
  | ret a => exact fun s' hs => h s' (hR _ _ hs)
  | raise e => exact fun s' hs => h s' (hR _ _ hs)
  | step l f k r ihk ihr =>
    intro s' hs
    obtain ⟨hok, hfault⟩ := h s' (hR _ _ hs)
    exact ⟨fun ha => ⟨(hok ha).1, ihk s' (hok ha).2⟩, fun e he => ihr e (hfault e he)⟩

theorem RG.and {G' : σ → σ → Prop} {Q Q' : Except ε α → σ → Prop} {p : Prog κ σ ε α} {s : σ}
    (h : RG E R G Q p s) (h' : RG E R G' Q' p s) :
    RG E R (fun s s' => G s s' ∧ G' s s') (fun x s => Q x s ∧ Q' x s) p s := by
  induction p generalizing s with
  | ret a => exact fun s' hs => ⟨h s' hs, h' s' hs⟩
  | raise e => exact fun s' hs => ⟨h s' hs, h' s' hs⟩
  | step l f k r ihk ihr =>
    intro s' hs
    obtain ⟨hok, hfault⟩ := h s' hs
    obtain ⟨hok', hfault'⟩ := h' s' hs
    exact ⟨fun ha => ⟨⟨(hok ha).1, (hok' ha).1⟩, ihk _ (hok ha).2 (hok' ha).2⟩,
      fun e he => ihr e (hfault e he) (hfault' e he)⟩

theorem RG.keep {Q : Except ε α → σ → Prop} {P : σ → Prop} {p : Prog κ σ ε α} {s : σ} (h : RG E R R Q p s)
    (hP : ∀ s s', R s s' → P s → P s') (hs : P s) : RG E R R (fun x s => Q x s ∧ P s) p s := by
  induction p generalizing s with
  | ret a => exact fun s' hss' => ⟨h s' hss', hP s s' hss' hs⟩
  | raise e => exact fun s' hss' => ⟨h s' hss', hP s s' hss' hs⟩
  | step l f k r ihk ihr =>
    intro s' hss'
    obtain ⟨hok, hfault⟩ := h s' hss'
    have hs' : P s' := hP s s' hss' hs
    exact ⟨fun ha => ⟨(hok ha).1, ihk s' (hok ha).2 (hP _ _ (hok ha).1 hs')⟩, fun e he => ihr e (hfault e he) hs'⟩

theorem RG.stable (hR : ∀ a b c, R a b → R b c → R a c) {Q : Except ε α → σ → Prop} {p : Prog κ σ ε α}
    {s s' : σ} (h : RG E R G Q p s) (hs : R s s') : RG E R G Q p s' := by
  cases p with
  | ret a => exact fun t ht => h t (hR _ _ _ hs ht)
  | raise e => exact fun t ht => h t (hR _ _ _ hs ht)
  | step l f k r => exact fun t ht => h t (hR _ _ _ hs ht)

/-- An execution whose steps nobody disturbs stays inside the judgement, and keeps what the guarantee preserves. -/
theorem RG.steps (hrefl : ∀ s, R s s) {Q : Except ε α → σ → Prop} {I : σ → Prop} (hI : ∀ s s', G s s' → I s → I s')
    {p : Prog κ σ ε α} {s : σ} {c : Prog κ σ ε α × σ} (h : RG E R G Q p s) (hs : I s) (hsteps : Steps E (p, s) c) :
    RG E R G Q c.1 c.2 ∧ I c.2 := by
  induction hsteps with
  | refl => exact ⟨h, hs⟩
  | tail _ hstep ih =>
    obtain ⟨hjudge, hinv⟩ := ih
    cases hstep with
    | ok hallow =>
      obtain ⟨hG, hnext⟩ := (hjudge _ (hrefl _)).1 hallow
      exact ⟨hnext, hI _ _ hG hinv⟩
    | fault hfault => exact ⟨(hjudge _ (hrefl _)).2 _ hfault, hinv⟩

theorem RG.run (hrefl : ∀ s, R s s) (hE : ∀ l s, E.allowed l s) {Q : Except ε α → σ → Prop} {p : Prog κ σ ε α}
    {s : σ} (h : RG E R G Q p s) : Q (p.run s).1 (p.run s).2 := by
  induction p generalizing s with
  | ret a => exact h s (hrefl s)
  | raise e => exact h s (hrefl s)
  | step l f k r ihk ihr => exact ihk s ((h s (hrefl s)).1 (hE l s)).2

theorem RG.bind (hrefl : ∀ s, R s s) {Q : Except ε β → σ → Prop} {M : Except ε α → σ → Prop}
    {p : Prog κ σ ε α} {g : α → Prog κ σ ε β} {s : σ} (hp : RG E R G M p s)
    (hok : ∀ a s, M (.ok a) s → RG E R G Q (g a) s) (herr : ∀ e s, M (.error e) s → Q (.error e) s) :
    RG E R G Q (p.bind g) s := by
  induction p generalizing s with
  | ret a => exact hok a s (hp s (hrefl s))
  | raise e => exact fun s' hs => herr e s' (hp s' hs)
  | step l f k r ihk ihr =>
    intro s' hs
    obtain ⟨hstep, hfault⟩ := hp s' hs
    exact ⟨fun ha => ⟨(hstep ha).1, ihk _ (hstep ha).2⟩, fun e he => ihr e (hfault e he)⟩

theorem RG.tryCatch (hrefl : ∀ s, R s s) {Q M : Except ε α → σ → Prop}
    {p : Prog κ σ ε α} {g : ε → Prog κ σ ε α} {s : σ} (hp : RG E R G M p s)
    (hok : ∀ a s, M (.ok a) s → Q (.ok a) s) (herr : ∀ e s, M (.error e) s → RG E R G Q (g e) s) :
    RG E R G Q (p.tryCatch g) s := by
  induction p generalizing s with
  | ret a => exact fun s' hs => hok a s' (hp s' hs)
  | raise e => exact herr e s (hp s (hrefl s))
  | step l f k r ihk ihr =>
    intro s' hs
    obtain ⟨hstep, hfault⟩ := hp s' hs
    exact ⟨fun ha => ⟨(hstep ha).1, ihk _ (hstep ha).2⟩, fun e he => ihr e (hfault e he)⟩

/-- Every step of `p` is inside `G`, however it ends. -/
abbrev Inside (E : Env κ σ ε) (R G : σ → σ → Prop) (p : Prog κ σ ε α) (s : σ) : Prop :=
  RG E R G (fun _ _ => True) p s

theorem RG.inside {Q : Except ε α → σ → Prop} {p : Prog κ σ ε α} {s : σ} (h : RG E R G Q p s) :
    Inside E R G p s :=
  h.mono (fun _ _ h => h) fun _ _ _ => trivial

theorem Inside.bind (hrefl : ∀ s, R s s) {p : Prog κ σ ε α} {g : α → Prog κ σ ε β} {s : σ} (hp : Inside E R G p s)
    (hg : ∀ a s, Inside E R G (g a) s) : Inside E R G (p.bind g) s :=
  RG.bind hrefl hp (fun a s _ => hg a s) fun _ _ _ => trivial

theorem Inside.tryCatch (hrefl : ∀ s, R s s) {p : Prog κ σ ε α} {g : ε → Prog κ σ ε α} {s : σ}
    (hp : Inside E R G p s) (hg : ∀ e s, Inside E R G (g e) s) : Inside E R G (p.tryCatch g) s :=
  RG.tryCatch hrefl hp (fun _ _ _ => trivial) fun e s _ => hg e s

/-- The others keep `P`. -/
def Stable (R : σ → σ → Prop) (P : σ → Prop) : Prop := ∀ s s', R s s' → P s → P s'

/-- A value in `P`, or an exception in `B`. -/
def Ends (P B : σ → Prop) : Except ε α → σ → Prop
  | .ok _ => P
  | .error _ => B

theorem Stable.ends {P B : σ → Prop} (hP : Stable R P) (hB : Stable R B) (x : Except ε α) : Stable R (Ends P B x) := by
  cases x with
  | ok a => exact hP
  | error e => exact hB

/-- One atomic step from a stable assertion: where it is taken it is inside `G` and leads to `Q`, and a fault leads
to `Q` as well. -/
theorem rg_atomic {P : σ → Prop} (hP : Stable R P) {Q : Except ε α → σ → Prop} (hQ : ∀ x, Stable R (Q x)) {l : κ}
    {h : σ → Except ε α × σ} (hstep : ∀ s, P s → E.allowed l s → G s (h s).2 ∧ Q (h s).1 (h s).2)
    (hfault : ∀ s e, P s → E.fault l s e → Q (.error e) s) {s : σ} (hs : P s) : RG E R G Q (atomic l h) s := by
  intro s' hss'
  have hs' : P s' := hP s s' hss' hs
  refine ⟨fun hallow => ?_, fun e he t ht => hQ _ s' t ht (hfault s' e hs' he)⟩
  obtain ⟨hG, hend⟩ := hstep s' hs' hallow
  refine ⟨hG, ?_⟩
  show RG E R G Q (ofExcept (h s').1) (h s').2
  generalize (h s').1 = x at hend ⊢
  cases x with
  | ok a => exact fun t ht => hQ _ _ t ht hend
  | error e => exact fun t ht => hQ _ _ t ht hend

theorem rg_observe {P : σ → Prop} (hP : Stable R P) {Q : Except ε α → σ → Prop} (hQ : ∀ x, Stable R (Q x)) {l : κ}
    {h : σ → α} (hstep : ∀ s, P s → G s s ∧ Q (.ok (h s)) s)
    (hfault : ∀ s e, P s → E.fault l s e → Q (.error e) s) {s : σ} (hs : P s) : RG E R G Q (observe l h) s :=
  rg_atomic (h := fun s => (.ok (h s), s)) hP hQ (fun s hs _ => hstep s hs) hfault hs

theorem rg_change {P : σ → Prop} (hP : Stable R P) {Q : Except ε Unit → σ → Prop} (hQ : ∀ x, Stable R (Q x)) {l : κ}
    {f : σ → σ} (hstep : ∀ s, P s → E.allowed l s → G s (f s) ∧ Q (.ok ()) (f s))
    (hfault : ∀ s e, P s → E.fault l s e → Q (.error e) s) {s : σ} (hs : P s) : RG E R G Q (change l f) s :=
  rg_atomic (h := fun s => (.ok (), f s)) hP hQ hstep hfault hs

theorem rg_ret {Q : Except ε α → σ → Prop} (hQ : ∀ x, Stable R (Q x)) {a : α} {s : σ} (hs : Q (.ok a) s) :
    RG E R G Q (ret a) s :=
  fun s' hss' => hQ _ s s' hss' hs

theorem rg_raise {Q : Except ε α → σ → Prop} (hQ : ∀ x, Stable R (Q x)) {e : ε} {s : σ} (hs : Q (.error e) s) :
    RG E R G Q (raise e) s :=
  fun s' hss' => hQ _ s s' hss' hs

theorem Always.rg {A : κ → (σ → σ) → Prop} {p : Prog κ σ ε α} (hp : Always A p)
    (hA : ∀ l f, A l f → ∀ s, E.allowed l s → G s (f s)) (s : σ) : RG E R G (fun _ _ => True) p s := by
  induction p generalizing s with
  | ret a => exact fun _ _ => trivial
  | raise e => exact fun _ _ => trivial
  | step l f k r ihk ihr =>
    obtain ⟨hf, hk, hr⟩ := hp
    exact fun s' _ => ⟨fun hallow => ⟨hA l f hf s' hallow, ihk s' (hk s') (f s')⟩, fun e _ => ihr e (hr e) s'⟩

theorem Always.rg_keep {A : κ → (σ → σ) → Prop} {P : σ → Prop} {p : Prog κ σ ε α} (hp : Always A p)
    (hP : Stable R P) (hA : ∀ l f, A l f → ∀ s, P s → G s (f s) ∧ P (f s)) {s : σ} (hs : P s) :
    RG E R G (fun _ => P) p s := by
  induction p generalizing s with
  | ret a => exact fun s' hss' => hP s s' hss' hs
  | raise e => exact fun s' hss' => hP s s' hss' hs
  | step l f k r ihk ihr =>
    obtain ⟨hf, hk, hr⟩ := hp
    intro s' hss'
    have hs' : P s' := hP s s' hss' hs
    obtain ⟨hG, hnext⟩ := hA l f hf s' hs'
    exact ⟨fun _ => ⟨hG, ihk s' (hk s') hnext⟩, fun e _ => ihr e (hr e) hs'⟩

/-- A program that keeps `φ`, among others who keep it, stays inside every guarantee that only looks at `φ`. -/
theorem Keeps.rg {φ : σ → γ} {p : Prog κ σ ε α} (hp : Keeps φ p) (hR : ∀ s s', R s s' → φ s' = φ s)
    (hG : ∀ s s', φ s' = φ s → G s s') (s : σ) : RG E R G (fun _ s' => φ s' = φ s) p s := by
  induction p generalizing s with
  | ret a => exact fun s' hs => hR s s' hs
  | raise e => exact fun s' hs => hR s s' hs
  | step l f k r ihk ihr =>
    obtain ⟨hf, hk, hr⟩ := hp
    intro s' hs
    have hs' : φ s' = φ s := hR s s' hs
    refine ⟨fun _ => ⟨hG _ _ (hf _), ?_⟩, fun e _ => ?_⟩
    · exact (ihk s' (hk s') (f s')).mono (fun _ _ h => h) fun _ t ht => (ht.trans (hf s')).trans hs'
    · exact (ihr e (hr e) s').mono (fun _ _ h => h) fun _ t ht => ht.trans hs'

end RG

/-! ### Threads -/

section Pool
variable {ι : Type} [DecidableEq ι]

/-- One step of a pool of threads: a thread takes a step of its program, or drops what is left of it (because it
has ended, or because the thread died) and starts the next of the programs that it `calls` in this state, or the
surroundings move the state inside `R₀`. -/
inductive PoolStep (E : Env κ σ ε) (R₀ : σ → σ → Prop) (calls : ι → Prog κ σ ε α → σ → Prop) :
    (ι → Prog κ σ ε α) × σ → (ι → Prog κ σ ε α) × σ → Prop
  | step {c s t p' s'} : Step E (c t, s) (p', s') → PoolStep E R₀ calls (c, s) (Function.update c t p', s')
  | call {c s t p} : calls t p s → PoolStep E R₀ calls (c, s) (Function.update c t p, s)
  | around {c s s'} : R₀ s s' → PoolStep E R₀ calls (c, s) (c, s')

abbrev PoolSteps (E : Env κ σ ε) (R₀ : σ → σ → Prop) (calls : ι → Prog κ σ ε α → σ → Prop) :
    (ι → Prog κ σ ε α) × σ → (ι → Prog κ σ ε α) × σ → Prop :=
  Relation.ReflTransGen (PoolStep E R₀ calls)

variable {E : Env κ σ ε} {R₀ : σ → σ → Prop} {calls : ι → Prog κ σ ε α → σ → Prop} {R G : ι → σ → σ → Prop}
  {Q : Except ε α → σ → Prop}

theorem Steps.pool {c : ι → Prog κ σ ε α} {t : ι} {s : σ} {d : Prog κ σ ε α × σ} (h : Steps E (c t, s) d) :
    PoolSteps E R₀ calls (c, s) (Function.update c t d.1, d.2) := by
  induction h with
  | refl => simpa using Relation.ReflTransGen.refl
  | @tail d d' _ hstep ih =>
    obtain ⟨p, s'⟩ := d
    obtain ⟨p', s''⟩ := d'
    refine ih.tail ?_
    have hthread : Step E (Function.update c t p t, s') (p', s'') := by simpa using hstep
    have hpool : PoolStep E R₀ calls (Function.update c t p, s')
        (Function.update (Function.update c t p) t p', s'') := .step hthread
    simpa using hpool

theorem PoolSteps.around {R₁ : σ → σ → Prop} {c c' : (ι → Prog κ σ ε α) × σ} (h : PoolSteps E R₀ calls c c')
    (hR : ∀ s s', R₀ s s' → R₁ s s') : PoolSteps E R₁ calls c c' := by
  refine Relation.ReflTransGen.mono (fun d d' hstep => ?_) _ _ h
  cases hstep with
  | step hs => exact .step hs
  | call hp => exact .call hp
  | around hs => exact .around (hR _ _ hs)

/-- A thread starts its next program and takes some steps of it. -/
theorem PoolSteps.call {t : ι} {p : Prog κ σ ε α} {s s₀ : σ} {c₀ c : ι → Prog κ σ ε α} {d : Prog κ σ ε α × σ}
    (h : PoolSteps E R₀ calls (c₀, s₀) (c, s)) (hp : calls t p s) (hsteps : Steps E (p, s) d) :
    PoolSteps E R₀ calls (c₀, s₀) (Function.update c t d.1, d.2) := by
  have hthread : Steps E (Function.update c t p t, s) d := by rwa [Function.update_self]
  have hpool : PoolSteps E R₀ calls (Function.update c t p, s) _ := hthread.pool
  refine (h.tail (.call hp)).trans ?_
  simpa using hpool

/-- Every thread is still inside its judgement. -/
def PoolOk (E : Env κ σ ε) (R G : ι → σ → σ → Prop) (Q : Except ε α → σ → Prop)
    (c : (ι → Prog κ σ ε α) × σ) : Prop :=
  ∀ t, RG E (R t) (G t) Q (c.1 t) c.2

/-- The judgements of the threads fit together: what a thread guarantees is what the others rely on, so is what the
surroundings do, and each program that a thread starts is inside its judgement. -/
structure PoolSpec (E : Env κ σ ε) (R₀ : σ → σ → Prop) (calls : ι → Prog κ σ ε α → σ → Prop)
    (R G : ι → σ → σ → Prop) (Q : Except ε α → σ → Prop) : Prop where
  refl : ∀ t s, R t s s
  trans : ∀ t a b c, R t a b → R t b c → R t a c
  others : ∀ t u, t ≠ u → ∀ s s', G t s s' → R u s s'
  around : ∀ t s s', R₀ s s' → R t s s'
  called : ∀ t p s, calls t p s → RG E (R t) (G t) Q p s

/-- **Parallel composition.** A step of the pool keeps every judgement, and moves the state inside the guarantee of a
thread, inside `R₀`, or not at all. -/
theorem PoolSpec.step (h : PoolSpec E R₀ calls R G Q) {c c' : (ι → Prog κ σ ε α) × σ}
    (hstep : PoolStep E R₀ calls c c') (hc : PoolOk E R G Q c) :
    PoolOk E R G Q c' ∧ ((∃ t, G t c.2 c'.2) ∨ R₀ c.2 c'.2 ∨ c'.2 = c.2) := by
  cases hstep with
  | @step c s t p' s' hs =>
    have ht : RG E (R t) (G t) Q (c t) s := hc t
    generalize c t = p at hs ht
    cases hs with
    | ok hallow =>
      obtain ⟨hG, hnext⟩ := (ht s (h.refl t s)).1 hallow
      refine ⟨fun u => ?_, .inl ⟨t, hG⟩⟩
      by_cases hut : u = t
      · subst hut
        simpa using hnext
      · simp only [Function.update_of_ne hut]
        exact (hc u).stable (h.trans u) (h.others t u (Ne.symm hut) _ _ hG)
    | fault hfault =>
      refine ⟨fun u => ?_, .inr (.inr rfl)⟩
      by_cases hut : u = t
      · subst hut
        simpa using (ht s (h.refl u s)).2 _ hfault
      · simpa only [Function.update_of_ne hut] using hc u
  | @call c s t p hp =>
    refine ⟨fun u => ?_, .inr (.inr rfl)⟩
    by_cases hut : u = t
    · subst hut
      simpa using h.called u p s hp
    · simpa only [Function.update_of_ne hut] using hc u
  | @around c s s' hs =>
    exact ⟨fun u => (hc u).stable (h.trans u) (h.around u s s' hs), .inr (.inl hs)⟩

theorem PoolSpec.ok (h : PoolSpec E R₀ calls R G Q) {c c' : (ι → Prog κ σ ε α) × σ}
    (hsteps : PoolSteps E R₀ calls c c') (hc : PoolOk E R G Q c) : PoolOk E R G Q c' := by
  induction hsteps with
  | refl => exact hc
  | tail _ hstep ih => exact (h.step hstep ih).1

/-- **Invariants of runs.** What the guarantees of the threads and the surroundings preserve holds in every state of
every run. -/
theorem PoolSpec.inv (h : PoolSpec E R₀ calls R G Q) {I : σ → Prop} (hG : ∀ t s s', G t s s' → I s → I s')
    (hR₀ : ∀ s s', R₀ s s' → I s → I s') {c c' : (ι → Prog κ σ ε α) × σ} (hsteps : PoolSteps E R₀ calls c c')
    (hc : PoolOk E R G Q c) (hinv : I c.2) : I c'.2 := by
  induction hsteps with
  | refl => exact hinv
  | tail hrun hstep ih =>
    obtain ⟨_, ⟨t, hmove⟩ | hmove | heq⟩ := h.step hstep (h.ok hrun hc)
    · exact hG t _ _ hmove ih
    · exact hR₀ _ _ hmove ih
    · rwa [heq]

/-- The same, where the judgements of the programs need the invariant at their start. -/
theorem PoolSpec.inv_of_calls {I : σ → Prop} (h : PoolSpec E R₀ (fun t p s => calls t p s ∧ I s) R G Q)
    (hG : ∀ t s s', G t s s' → I s → I s') (hR₀ : ∀ s s', R₀ s s' → I s → I s') {c c' : (ι → Prog κ σ ε α) × σ}
    (hsteps : PoolSteps E R₀ calls c c') (hc : PoolOk E R G Q c) (hinv : I c.2) : PoolOk E R G Q c' ∧ I c'.2 := by
  induction hsteps with
  | refl => exact ⟨hc, hinv⟩
  | @tail d d' _ hstep ih =>
    obtain ⟨hok, hI⟩ := ih
    have hcalled : PoolStep E R₀ (fun t p s => calls t p s ∧ I s) d d' := by
      cases hstep with
      | step hs => exact .step hs
      | call hp => exact .call ⟨hp, hI⟩
      | around hs => exact .around hs
    obtain ⟨hok', ⟨t, hmove⟩ | hmove | heq⟩ := h.step hcalled hok
    · exact ⟨hok', hG t _ _ hmove hI⟩
    · exact ⟨hok', hR₀ _ _ hmove hI⟩
    · exact ⟨hok', by rwa [heq]⟩

theorem poolSteps_always {A : κ → (σ → σ) → Prop} (hcalls : ∀ t p s, calls t p s → Always A p)
    {c c' : (ι → Prog κ σ ε α) × σ} (hsteps : PoolSteps E R₀ calls c c') (hc : ∀ t, Always A (c.1 t)) :
    ∀ t, Always A (c'.1 t) := by
  induction hsteps with
  | refl => exact hc
  | tail _ hstep ih =>
    intro u
    cases hstep with
    | @step c s t p' s' hs =>
      by_cases hut : u = t
      · subst hut
        simpa using (ih u).step hs
      · simpa only [Function.update_of_ne hut] using ih u
    | @call c s t p hp =>
      by_cases hut : u = t
      · subst hut
        simpa using hcalls u p s hp
      · simpa only [Function.update_of_ne hut] using ih u
    | around _ => exact ih u

end Pool

end Prog
