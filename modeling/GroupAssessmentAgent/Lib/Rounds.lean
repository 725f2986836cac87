import GroupAssessmentAgent.Lib.Prog

/-!
# Threads that finish their calls

`RoundStep` is the interleaving of threads each of which starts a call only when it has come to the end of the one
before, with a result or with an exception. Then a thread may break its invariant during a call: `RoundSpec` asks of
each program that it takes the invariant of its thread, under the rely of the thread, from its start to its end. In a
state in which no call is running all invariants hold (`RoundSpec.idle`).
-/

namespace Prog
variable {κ σ ε α ι : Type} [DecidableEq ι]

/-- The program has come to its end. -/
def Ended : Prog κ σ ε α → Prop
  | step .. => False
  | _ => True

theorem ended_update {c : ι → Prog κ σ ε α} (hc : ∀ u, (c u).Ended) (t : ι) (x : Except ε α) (u : ι) :
    (Function.update c t (ofExcept x) u).Ended := by
  by_cases hut : u = t
  · rw [hut, Function.update_self]
    cases x <;> trivial
  · rw [Function.update_of_ne hut]
    exact hc u

inductive RoundStep (E : Env κ σ ε) (calls : ι → Prog κ σ ε α → σ → Prop) :
    (ι → Prog κ σ ε α) × σ → (ι → Prog κ σ ε α) × σ → Prop
  | step {c s t p' s'} : Step E (c t, s) (p', s') → RoundStep E calls (c, s) (Function.update c t p', s')
  | call {c s t p} : (c t).Ended → calls t p s → RoundStep E calls (c, s) (Function.update c t p, s)

abbrev RoundSteps (E : Env κ σ ε) (calls : ι → Prog κ σ ε α → σ → Prop) :
    (ι → Prog κ σ ε α) × σ → (ι → Prog κ σ ε α) × σ → Prop :=
  Relation.ReflTransGen (RoundStep E calls)

variable {E : Env κ σ ε} {calls : ι → Prog κ σ ε α → σ → Prop} {R G : ι → σ → σ → Prop} {P : ι → σ → Prop}

theorem RoundSteps.call {t : ι} {p : Prog κ σ ε α} {s s₀ : σ} {c₀ c : ι → Prog κ σ ε α} {d : Prog κ σ ε α × σ}
    (h : RoundSteps E calls (c₀, s₀) (c, s)) (hended : (c t).Ended) (hp : calls t p s) (hsteps : Steps E (p, s) d) :
    RoundSteps E calls (c₀, s₀) (Function.update c t d.1, d.2) := by
  have hcalled : RoundSteps E calls (c₀, s₀) (Function.update c t p, s) := h.tail (.call hended hp)
  induction hsteps with
  | refl => exact hcalled
  | @tail d d' _ hstep ih =>
    obtain ⟨q, s'⟩ := d
    obtain ⟨q', s''⟩ := d'
    have hthread : Step E (Function.update c t q t, s') (q', s'') := by simpa using hstep
    have hround : RoundStep E calls (Function.update c t q, s') (Function.update (Function.update c t q) t q', s'') :=
      .step hthread
    simpa using ih.tail hround

theorem RoundSteps.run (hE : ∀ l s, E.allowed l s) {t : ι} {p : Prog κ σ ε α} {s s₀ : σ} {c₀ c : ι → Prog κ σ ε α}
    (h : RoundSteps E calls (c₀, s₀) (c, s)) (hended : (c t).Ended) (hp : calls t p s) :
    RoundSteps E calls (c₀, s₀) (Function.update c t (ofExcept (p.run s).1), (p.run s).2) :=
  h.call hended hp (steps_run E hE p s)

/-- The judgements fit together, and each call takes the invariant of its thread from its start to its end. -/
structure RoundSpec (E : Env κ σ ε) (calls : ι → Prog κ σ ε α → σ → Prop) (R G : ι → σ → σ → Prop)
    (P : ι → σ → Prop) : Prop where
  refl : ∀ t s, R t s s
  trans : ∀ t a b c, R t a b → R t b c → R t a c
  others : ∀ t u, t ≠ u → ∀ s s', G t s s' → R u s s'
  called : ∀ t p s, calls t p s → P t s → RG E (R t) (G t) (fun _ => P t) p s

/-- Every thread is inside the judgement of its call. -/
def RoundOk (E : Env κ σ ε) (R G : ι → σ → σ → Prop) (P : ι → σ → Prop) (c : (ι → Prog κ σ ε α) × σ) : Prop :=
  ∀ t, RG E (R t) (G t) (fun _ => P t) (c.1 t) c.2

omit [DecidableEq ι] in
theorem RoundOk.ended (hrefl : ∀ t s, R t s s) {c : (ι → Prog κ σ ε α) × σ} (hc : RoundOk E R G P c) {t : ι}
    (hended : (c.1 t).Ended) : P t c.2 := by
  have ht := hc t
  generalize c.1 t = p at hended ht
  cases p with
  | ret a => exact ht c.2 (hrefl t c.2)
  | raise e => exact ht c.2 (hrefl t c.2)
  | step l f k r => exact hended.elim

theorem RoundOk.update (h : RoundSpec E calls R G P) {c : ι → Prog κ σ ε α} {s s' : σ} (hc : RoundOk E R G P (c, s))
    {t : ι} {p : Prog κ σ ε α} (hp : RG E (R t) (G t) (fun _ => P t) p s') (hmove : G t s s' ∨ s' = s) :
    RoundOk E R G P (Function.update c t p, s') := by
  intro u
  by_cases hut : u = t
  · subst hut
    simpa using hp
  · simp only [Function.update_of_ne hut]
    rcases hmove with hG | rfl
    · exact (hc u).stable (h.trans u) (h.others t u (Ne.symm hut) s s' hG)
    · exact hc u

theorem RoundSpec.step (h : RoundSpec E calls R G P) {c c' : (ι → Prog κ σ ε α) × σ} (hstep : RoundStep E calls c c')
    (hc : RoundOk E R G P c) : RoundOk E R G P c' := by
  cases hstep with
  | @step c s t p' s' hs =>
    have ht : RG E (R t) (G t) (fun _ => P t) (c t) s := hc t
    generalize c t = p at hs ht
    cases hs with
    | ok hallow =>
      obtain ⟨hG, hnext⟩ := (ht s (h.refl t s)).1 hallow
      exact hc.update h hnext (.inl hG)
    | fault hfault => exact hc.update h ((ht s (h.refl t s)).2 _ hfault) (.inr rfl)
  | @call c s t p hended hp => exact hc.update h (h.called t p s hp (hc.ended h.refl hended)) (.inr rfl)

theorem RoundSpec.steps (h : RoundSpec E calls R G P) {c c' : (ι → Prog κ σ ε α) × σ}
    (hsteps : RoundSteps E calls c c') (hc : RoundOk E R G P c) : RoundOk E R G P c' := by
  induction hsteps with
  | refl => exact hc
  | tail _ hstep ih => exact h.step hstep ih

/-- What every step of every thread keeps holds throughout a run, during the calls as well. -/
theorem RoundSpec.inv (h : RoundSpec E calls R G P) {I : σ → Prop} (hI : ∀ t s s', G t s s' → I s → I s')
    {c c' : (ι → Prog κ σ ε α) × σ} (hsteps : RoundSteps E calls c c') (hc : RoundOk E R G P c) (hinv : I c.2) :
    I c'.2 := by
  induction hsteps with
  | refl => exact hinv
  | tail hbefore hstep ih =>
    have hok := h.steps hbefore hc
    cases hstep with
    | call _ _ => exact ih
    | @step c s t p' s' hs =>
      have ht : RG E (R t) (G t) (fun _ => P t) (c t) s := hok t
      generalize c t = p at hs ht
      cases hs with
      | ok hallow => exact hI t _ _ ((ht s (h.refl t s)).1 hallow).1 ih
      | fault _ => exact ih

theorem RoundSteps.always {A : κ → (σ → σ) → Prop} (hcalls : ∀ t p s, calls t p s → Always A p) {I : σ → Prop}
    (hI : ∀ l f, A l f → ∀ s, I s → I (f s)) {c c' : (ι → Prog κ σ ε α) × σ} (hsteps : RoundSteps E calls c c')
    (hc : ∀ t, Always A (c.1 t)) (hinv : I c.2) : I c'.2 := by
  have hspec : RoundSpec E calls (fun _ _ _ => True) (fun _ s s' => I s → I s') fun _ _ => True :=
    { refl := fun _ _ => trivial
      trans := fun _ _ _ _ _ _ => trivial
      others := fun _ _ _ _ _ _ => trivial
      called := fun t p s hp _ => (hcalls t p s hp).rg (fun l f hf s _ => hI l f hf s) s }
  exact hspec.inv (fun _ _ _ h => h) hsteps (fun t => (hc t).rg (fun l f hf s _ => hI l f hf s) c.2) hinv

/-- **Invariants between calls.** Where no call is running, the invariant of every thread holds. -/
theorem RoundSpec.idle (h : RoundSpec E calls R G P) {c c' : (ι → Prog κ σ ε α) × σ}
    (hsteps : RoundSteps E calls c c') (hc : RoundOk E R G P c) (hidle : ∀ t, (c'.1 t).Ended) (t : ι) : P t c'.2 := by
  exact (h.steps hsteps hc).ended h.refl (hidle t)

end Prog
