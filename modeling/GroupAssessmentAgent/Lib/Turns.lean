import GroupAssessmentAgent.Lib.Prog

/-!
# Threads that go from place to place

A thread whose program is a loop over values that the state does not hold (a list read earlier, the item in hand) is
cut into *turns*: the result of a turn is the place that the thread has come to, and `turns` says which programs it may
start from there. `TurnStep` interleaves the steps of such threads. A place of one thread is known to the invariant of
that thread, `P t (.ok place)`, which the steps of the others have to keep (`TurnSpec`); it then holds whenever the
thread is there (`TurnSpec.at_place`).

`TurnRun` is such a run with the places that each thread has been at, `visited`. There the judgement of a turn may
speak of the places before it (`RunSpec`), and `RunSpec.always` gives an invariant of all states, those within the turns
included, that ties the state to what the threads have been through.

What is left of the loop at each place is the next turn followed by what is left at the place that it leads to;
`tryCatch_bind` shows this for a turn that ends inside an exception handler.
-/

namespace Prog
variable {κ σ ε ι : Type} [DecidableEq ι] {α : ι → Type}

/-- A step of a thread, or the start of its next turn. -/
inductive TurnStep (E : Env κ σ ε) (turns : (t : ι) → Except ε (α t) → Prog κ σ ε (α t) → Prop) :
    ((t : ι) → Prog κ σ ε (α t)) × σ → ((t : ι) → Prog κ σ ε (α t)) × σ → Prop
  | step {c s t p' s'} : Step E (c t, s) (p', s') → TurnStep E turns (c, s) (Function.update c t p', s')
  | turn {c s t x p} : c t = ofExcept x → turns t x p → TurnStep E turns (c, s) (Function.update c t p, s)

abbrev TurnSteps (E : Env κ σ ε) (turns : (t : ι) → Except ε (α t) → Prog κ σ ε (α t) → Prop) :
    ((t : ι) → Prog κ σ ε (α t)) × σ → ((t : ι) → Prog κ σ ε (α t)) × σ → Prop :=
  Relation.ReflTransGen (TurnStep E turns)

variable {E : Env κ σ ε} {turns : (t : ι) → Except ε (α t) → Prog κ σ ε (α t) → Prop}

theorem TurnSteps.next {t : ι} {x : Except ε (α t)} {p : Prog κ σ ε (α t)} {s s₀ : σ}
    {c₀ c : (t : ι) → Prog κ σ ε (α t)} {d : Prog κ σ ε (α t) × σ} (h : TurnSteps E turns (c₀, s₀) (c, s))
    (hx : c t = ofExcept x) (hp : turns t x p) (hsteps : Steps E (p, s) d) :
    TurnSteps E turns (c₀, s₀) (Function.update c t d.1, d.2) := by
  have hturn : TurnSteps E turns (c₀, s₀) (Function.update c t p, s) := h.tail (.turn hx hp)
  induction hsteps with
  | refl => exact hturn
  | @tail d d' _ hstep ih =>
    obtain ⟨q, s'⟩ := d
    obtain ⟨q', s''⟩ := d'
    have hthread : Step E (Function.update c t q t, s') (q', s'') := by simpa using hstep
    have hround : TurnStep E turns (Function.update c t q, s') (Function.update (Function.update c t q) t q', s'') :=
      .step hthread
    simpa using ih.tail hround

theorem TurnSteps.run (hE : ∀ l s, E.allowed l s) {c₀ c : ((t : ι) → Prog κ σ ε (α t)) × σ}
    (h : TurnSteps E turns c₀ c) {t : ι} {x : Except ε (α t)} {p : Prog κ σ ε (α t)} (hx : c.1 t = ofExcept x)
    (hp : turns t x p) : ∃ d : ((t : ι) → Prog κ σ ε (α t)) × σ, TurnSteps E turns c₀ d ∧
      d.1 t = ofExcept (p.run c.2).1 ∧ d.2 = (p.run c.2).2 ∧ ∀ u, u ≠ t → d.1 u = c.1 u :=
  ⟨_, h.next hx hp (steps_run E hE p c.2), Function.update_self .., rfl, fun _ hu => Function.update_of_ne hu ..⟩

/-! ### The places of a run -/

theorem eq_ofExcept {α : Type} {p : Prog κ σ ε α} {x : Except ε α} (h : p.ended? = some x) : p = ofExcept x := by
  cases p with
  | ret a =>
    obtain rfl := Option.some.inj h
    rfl
  | raise e =>
    obtain rfl := Option.some.inj h
    rfl
  | step l f k r => cases h

/-- A run of the threads from `c₀`, with the places that each thread has left, the last one first. -/
inductive TurnRun (E : Env κ σ ε) (turns : (t : ι) → Except ε (α t) → Prog κ σ ε (α t) → Prop)
    (c₀ : ((t : ι) → Prog κ σ ε (α t)) × σ) :
    ((t : ι) → List (Except ε (α t))) → ((t : ι) → Prog κ σ ε (α t)) × σ → Prop
  | start : TurnRun E turns c₀ (fun _ => []) c₀
  | step {past c s t p' s'} : TurnRun E turns c₀ past (c, s) → Step E (c t, s) (p', s') →
      TurnRun E turns c₀ past (Function.update c t p', s')
  | turn {past c s t x p} : TurnRun E turns c₀ past (c, s) → c t = ofExcept x → turns t x p →
      TurnRun E turns c₀ (Function.update past t (x :: past t)) (Function.update c t p, s)

theorem TurnRun.next {c₀ : ((t : ι) → Prog κ σ ε (α t)) × σ} {past : (t : ι) → List (Except ε (α t))}
    {c : (t : ι) → Prog κ σ ε (α t)} {s : σ} {t : ι} {x : Except ε (α t)} {p : Prog κ σ ε (α t)}
    {d : Prog κ σ ε (α t) × σ} (h : TurnRun E turns c₀ past (c, s)) (hx : c t = ofExcept x) (hp : turns t x p)
    (hsteps : Steps E (p, s) d) :
    TurnRun E turns c₀ (Function.update past t (x :: past t)) (Function.update c t d.1, d.2) := by
  have hturn := h.turn hx hp
  induction hsteps with
  | refl => exact hturn
  | @tail d d' _ hstep ih =>
    obtain ⟨q, s'⟩ := d
    obtain ⟨q', s''⟩ := d'
    have hthread : Step E (Function.update c t q t, s') (q', s'') := by simpa using hstep
    simpa using ih.step hthread

theorem TurnSteps.turnRun {c₀ c : ((t : ι) → Prog κ σ ε (α t)) × σ} (h : TurnSteps E turns c₀ c) :
    ∃ past, TurnRun E turns c₀ past c := by
  induction h with
  | refl => exact ⟨_, .start⟩
  | tail _ hstep ih =>
    obtain ⟨past, hrun⟩ := ih
    cases hstep with
    | step hs => exact ⟨past, hrun.step hs⟩
    | turn hx hp => exact ⟨_, hrun.turn hx hp⟩

omit [DecidableEq ι] in
/-- The places that a thread has been at, the one that it is at included. -/
def visited (past : (t : ι) → List (Except ε (α t))) (c : (t : ι) → Prog κ σ ε (α t)) (t : ι) :
    List (Except ε (α t)) := (c t).ended?.toList ++ past t

/-! ### Judgements -/

section
variable {R : ι → σ → σ → Prop} {G : (t : ι) → List (Except ε (α t)) → σ → σ → Prop}
  {P : (t : ι) → List (Except ε (α t)) → σ → Prop}

/-- The judgements fit together, where those of a turn may depend on the places that the thread has been at: each turn
leads from what is known there to what is known at one place more. -/
structure RunSpec (E : Env κ σ ε) (turns : (t : ι) → Except ε (α t) → Prog κ σ ε (α t) → Prop) (R : ι → σ → σ → Prop)
    (G : (t : ι) → List (Except ε (α t)) → σ → σ → Prop) (P : (t : ι) → List (Except ε (α t)) → σ → Prop) :
    Prop where
  refl : ∀ t s, R t s s
  trans : ∀ t a b c, R t a b → R t b c → R t a c
  others : ∀ t u, t ≠ u → ∀ past s s', G t past s s' → R u s s'
  taken : ∀ t past x p s, turns t x p → P t (x :: past) s →
    RG E (R t) (G t (x :: past)) (fun y => P t (y :: x :: past)) p s

/-- Every thread is inside the judgement of its turn. -/
def RunOk (E : Env κ σ ε) (R : ι → σ → σ → Prop) (G : (t : ι) → List (Except ε (α t)) → σ → σ → Prop)
    (P : (t : ι) → List (Except ε (α t)) → σ → Prop) (past : (t : ι) → List (Except ε (α t)))
    (c : ((t : ι) → Prog κ σ ε (α t)) × σ) : Prop :=
  ∀ t, RG E (R t) (G t (past t)) (fun y => P t (y :: past t)) (c.1 t) c.2

variable {past : (t : ι) → List (Except ε (α t))} {c₀ c : ((t : ι) → Prog κ σ ε (α t)) × σ}

omit [DecidableEq ι] in
theorem RunOk.at_place (hrefl : ∀ t s, R t s s) (hc : RunOk E R G P past c) {t : ι} {x : Except ε (α t)}
    (hx : c.1 t = ofExcept x) : P t (x :: past t) c.2 := by
  have ht := hc t
  rw [hx] at ht
  cases x with
  | ok a => exact ht c.2 (hrefl t c.2)
  | error e => exact ht c.2 (hrefl t c.2)

theorem RunOk.step (h : RunSpec E turns R G P) {c : (t : ι) → Prog κ σ ε (α t)} {s s' : σ}
    (hc : RunOk E R G P past (c, s)) {t : ι} {p' : Prog κ σ ε (α t)} (hs : Step E (c t, s) (p', s')) :
    RunOk E R G P past (Function.update c t p', s') ∧ (G t (past t) s s' ∨ s' = s) := by
  have ht : RG E (R t) (G t (past t)) (fun y => P t (y :: past t)) (c t) s := hc t
  have hmove : RG E (R t) (G t (past t)) (fun y => P t (y :: past t)) p' s' ∧ (G t (past t) s s' ∨ s' = s) := by
    generalize c t = p at hs ht
    cases hs with
    | ok hallow => exact ⟨((ht s (h.refl t s)).1 hallow).2, .inl ((ht s (h.refl t s)).1 hallow).1⟩
    | fault hfault => exact ⟨(ht s (h.refl t s)).2 _ hfault, .inr rfl⟩
  refine ⟨fun u => ?_, hmove.2⟩
  by_cases hut : u = t
  · subst hut
    simpa using hmove.1
  · simp only [Function.update_of_ne hut]
    obtain hG | rfl := hmove.2
    · exact (hc u).stable (h.trans u) (h.others t u (Ne.symm hut) _ s s' hG)
    · exact hc u

theorem RunOk.turn (h : RunSpec E turns R G P) {c : (t : ι) → Prog κ σ ε (α t)} {s : σ}
    (hc : RunOk E R G P past (c, s)) {t : ι} {x : Except ε (α t)} {p : Prog κ σ ε (α t)} (hx : c t = ofExcept x)
    (hp : turns t x p) : RunOk E R G P (Function.update past t (x :: past t)) (Function.update c t p, s) := by
  intro u
  by_cases hut : u = t
  · subst hut
    simpa using h.taken u (past u) x p s hp (hc.at_place h.refl hx)
  · simpa only [Function.update_of_ne hut] using hc u

theorem RunSpec.run (h : RunSpec E turns R G P) (hrun : TurnRun E turns c₀ past c)
    (hc : RunOk E R G P (fun _ => []) c₀) : RunOk E R G P past c := by
  induction hrun with
  | start => exact hc
  | step _ hs ih => exact (ih.step h hs).1
  | turn _ hx hp ih => exact ih.turn h hx hp

/-- **Invariants over the places of a run.** What holds at the places, and before every step of a turn, holds at all
times. -/
theorem RunSpec.always (h : RunSpec E turns R G P) (hE : ∀ l s, E.allowed l s)
    {J : (t : ι) → List (Except ε (α t)) → σ → Prop} (hP : ∀ t v s, P t v s → J t v s)
    (hG : ∀ t v s s', G t v s s' → J t v s) (hrun : TurnRun E turns c₀ past c)
    (hc : RunOk E R G P (fun _ => []) c₀) (t : ι) : J t (visited past c.1 t) c.2 := by
  have hok := h.run hrun hc
  unfold visited
  cases hx : (c.1 t).ended? with
  | some x => exact hP t _ _ (hok.at_place h.refl (eq_ofExcept hx))
  | none =>
    have ht := hok t
    generalize c.1 t = p at hx ht
    cases p with
    | ret a => cases hx
    | raise e => cases hx
    | step l f k r => exact hG t _ _ _ ((ht c.2 (h.refl t c.2)).1 (hE l c.2)).1

theorem RunSpec.moves (h : RunSpec E turns R G P) {M : σ → σ → Prop} (hrefl : ∀ s, M s s)
    (htrans : ∀ a b c, M a b → M b c → M a c) (hG : ∀ t v s s', G t v s s' → M s s') (hc : RunOk E R G P past c)
    {c' : ((t : ι) → Prog κ σ ε (α t)) × σ} (hsteps : TurnSteps E turns c c') : M c.2 c'.2 := by
  suffices hboth : ∃ past', RunOk E R G P past' c' ∧ M c.2 c'.2 from hboth.choose_spec.2
  induction hsteps with
  | refl => exact ⟨past, hc, hrefl _⟩
  | tail _ hstep ih =>
    obtain ⟨past', hok, hmove⟩ := ih
    cases hstep with
    | step hs =>
      obtain ⟨hok', hG' | rfl⟩ := hok.step h hs
      · exact ⟨past', hok', htrans _ _ _ hmove (hG _ _ _ _ hG')⟩
      · exact ⟨past', hok', hmove⟩
    | turn hx hp => exact ⟨_, hok.turn h hx hp, hmove⟩

end

section
variable {R G : ι → σ → σ → Prop} {P : (t : ι) → Except ε (α t) → σ → Prop}

/-- The judgements fit together, and each turn leads from what is known of its place to what is known of the next. -/
structure TurnSpec (E : Env κ σ ε) (turns : (t : ι) → Except ε (α t) → Prog κ σ ε (α t) → Prop)
    (R G : ι → σ → σ → Prop) (P : (t : ι) → Except ε (α t) → σ → Prop) : Prop where
  refl : ∀ t s, R t s s
  trans : ∀ t a b c, R t a b → R t b c → R t a c
  others : ∀ t u, t ≠ u → ∀ s s', G t s s' → R u s s'
  taken : ∀ t x p s, turns t x p → P t x s → RG E (R t) (G t) (P t) p s

/-- Every thread is inside the judgement of its turn. -/
def TurnOk (E : Env κ σ ε) (R G : ι → σ → σ → Prop) (P : (t : ι) → Except ε (α t) → σ → Prop)
    (c : ((t : ι) → Prog κ σ ε (α t)) × σ) : Prop :=
  ∀ t, RG E (R t) (G t) (P t) (c.1 t) c.2

/-- What is known at the last place. -/
def AtLast (P : (t : ι) → Except ε (α t) → σ → Prop) (t : ι) : List (Except ε (α t)) → σ → Prop
  | [], _ => True
  | x :: _, s => P t x s

omit [DecidableEq ι] in
theorem TurnSpec.runSpec (h : TurnSpec E turns R G P) : RunSpec E turns R (fun t _ => G t) (AtLast P) where
  refl := h.refl
  trans := h.trans
  others t u htu _ := h.others t u htu
  taken t _ := h.taken t

/-- **Invariants of places.** Whenever a thread is at a place, what is known of the place holds. -/
theorem TurnSpec.at_place (h : TurnSpec E turns R G P) {c c' : ((t : ι) → Prog κ σ ε (α t)) × σ}
    (hsteps : TurnSteps E turns c c') (hc : TurnOk E R G P c) {t : ι} {x : Except ε (α t)} (hx : c'.1 t = ofExcept x) :
    P t x c'.2 := by
  obtain ⟨past, hrun⟩ := hsteps.turnRun
  have hok : RunOk E R (fun t _ => G t) (AtLast P) past c' := h.runSpec.run hrun hc
  exact hok.at_place h.refl hx

end

/-! ### Cutting a program into turns -/

section
variable {α β γ δ : Type}

/-- What is left of a program inside an exception handler is cut after its first part, where `rest` is what is left at
the place after it, or after its exception. -/
theorem tryCatch_bind (p : Prog κ σ ε α) {g : α → Prog κ σ ε β} {r : ε → Prog κ σ ε β} {k : β → Prog κ σ ε γ}
    {rest : δ → Prog κ σ ε γ} {place : α → δ} {fallback : ε → δ}
    (hplace : ∀ a, rest (place a) = ((g a).tryCatch r).bind k) (hfallback : ∀ e, rest (fallback e) = (r e).bind k) :
    ((p.bind g).tryCatch r).bind k =
      ((p.bind fun a => ret (place a)).tryCatch fun e => ret (fallback e)).bind rest := by
  induction p with
  | ret a => exact (hplace a).symm
  | raise e => exact (hfallback e).symm
  | step l f k' r' ihk ihr =>
    simp only [bind, Prog.tryCatch, ihk, ihr]

end

end Prog
