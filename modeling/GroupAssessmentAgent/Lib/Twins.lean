import GroupAssessmentAgent.Lib.Prog

/-!
# Two programs side by side

`runRaising x p s` is the run of `p` alone from `s` in which a step raises where `x` says so, once it has taken effect:
a call that was made and came back with an exception.

`Twin x y S R p q`: such runs of `p` and of `q` from states that `S` relates lead to states that `S` relates, and end in
values that `R` relates or in one exception. There is one rule for each way of building a program, for two programs that
are built alike. `Leaves x φ V p` is about one program that the other run does not have: `p` leaves `φ` as it is, and
ends in `V`.
-/

namespace Prog
variable {κ σ ε α α' β β' γ : Type}

def runRaising (x : κ → σ → Option ε) : Prog κ σ ε α → σ → Except ε α × σ
  | ret a, s => (.ok a, s)
  | raise e, s => (.error e, s)
  | step l f k r, s =>
    match x l s with
    | none => (k s).runRaising x (f s)
    | some e => (r e).runRaising x (f s)

variable {x y : κ → σ → Option ε}

theorem runRaising_ofExcept (a : Except ε α) (s : σ) : (ofExcept a : Prog κ σ ε α).runRaising x s = (a, s) := by
  cases a <;> rfl

theorem runRaising_bind (p : Prog κ σ ε α) (g : α → Prog κ σ ε β) (s : σ) :
    (p.bind g).runRaising x s = match p.runRaising x s with
      | (.ok a, s') => (g a).runRaising x s'
      | (.error e, s') => (.error e, s') := by
  induction p generalizing s with
  | ret a => rfl
  | raise e => rfl
  | step l f k r ihk ihr =>
    rw [bind, runRaising, runRaising]
    cases x l s with
    | none => exact ihk s (f s)
    | some e => exact ihr e (f s)

theorem runRaising_tryCatch (p : Prog κ σ ε α) (h : ε → Prog κ σ ε α) (s : σ) :
    (p.tryCatch h).runRaising x s = match p.runRaising x s with
      | (.ok a, s') => (.ok a, s')
      | (.error e, s') => (h e).runRaising x s' := by
  induction p generalizing s with
  | ret a => rfl
  | raise e => rfl
  | step l f k r ihk ihr =>
    rw [Prog.tryCatch, runRaising, runRaising]
    cases x l s with
    | none => exact ihk s (f s)
    | some e => exact ihr e (f s)

theorem runRaising_atomic (l : κ) (h : σ → Except ε α × σ) (s : σ) :
    (atomic l h).runRaising x s = ((x l s).elim (h s).1 Except.error, (h s).2) := by
  rw [atomic, runRaising]
  cases x l s with
  | none => exact runRaising_ofExcept _ _
  | some e => rfl

/-! ### One program -/

section Leaves
variable {φ : σ → γ}

/-- `p` leaves `φ` as it is, and ends in `V`. -/
def Leaves (x : κ → σ → Option ε) (φ : σ → γ) (V : Except ε α → Prop) (p : Prog κ σ ε α) : Prop :=
  ∀ s, φ (p.runRaising x s).2 = φ s ∧ V (p.runRaising x s).1

theorem Keeps.leaves {p : Prog κ σ ε α} (hp : Keeps φ p) : Leaves x φ (fun _ => True) p := by
  refine fun s => ⟨?_, trivial⟩
  induction p generalizing s with
  | ret a => rfl
  | raise e => rfl
  | step l f k r ihk ihr =>
    obtain ⟨hf, hk, hr⟩ := hp
    rw [runRaising]
    cases x l s with
    | none => exact (ihk s (hk s) (f s)).trans (hf s)
    | some e => exact (ihr e (hr e) (f s)).trans (hf s)

theorem leaves_ret {V : Except ε α → Prop} {a : α} (ha : V (.ok a)) : Leaves x φ V (ret a) := fun _ => ⟨rfl, ha⟩

theorem leaves_raise {V : Except ε α → Prop} {e : ε} (he : V (.error e)) : Leaves x φ V (raise e) :=
  fun _ => ⟨rfl, he⟩

theorem leaves_atomic {V : Except ε α → Prop} {l : κ} {h : σ → Except ε α × σ} (hl : ∀ s, x l s = none)
    (hstep : ∀ s, φ (h s).2 = φ s ∧ V (h s).1) : Leaves x φ V (atomic l h) := by
  intro s
  rw [runRaising_atomic, hl]
  exact hstep s

theorem Leaves.bind {V : Except ε α → Prop} {U : Except ε β → Prop} {p : Prog κ σ ε α} {g : α → Prog κ σ ε β}
    (hp : Leaves x φ V p) (hg : ∀ a, V (.ok a) → Leaves x φ U (g a)) (herr : ∀ e, V (.error e) → U (.error e)) :
    Leaves x φ U (p.bind g) := by
  intro s
  obtain ⟨hφ, hV⟩ := hp s
  rw [runRaising_bind]
  generalize p.runRaising x s = c at hφ hV ⊢
  obtain ⟨e | a, t⟩ := c
  · exact ⟨hφ, herr _ hV⟩
  · obtain ⟨hφ', hU⟩ := hg _ hV t
    exact ⟨hφ'.trans hφ, hU⟩

theorem Leaves.then {p : Prog κ σ ε α} {g : α → Prog κ σ ε β} (hp : Leaves x φ (fun a => ∃ v, a = .ok v) p)
    (hg : ∀ a, Leaves x φ (fun b => ∃ v, b = .ok v) (g a)) : Leaves x φ (fun b => ∃ v, b = .ok v) (p.bind g) :=
  hp.bind (fun a _ => hg a) fun _ h => by
    obtain ⟨_, h⟩ := h
    cases h

theorem Leaves.tryCatch {V U : Except ε α → Prop} {p : Prog κ σ ε α} {h : ε → Prog κ σ ε α} (hp : Leaves x φ V p)
    (hok : ∀ a, V (.ok a) → U (.ok a)) (hh : ∀ e, V (.error e) → Leaves x φ U (h e)) :
    Leaves x φ U (p.tryCatch h) := by
  intro s
  obtain ⟨hφ, hV⟩ := hp s
  rw [runRaising_tryCatch]
  generalize p.runRaising x s = c at hφ hV ⊢
  obtain ⟨e | a, t⟩ := c
  · obtain ⟨hφ', hU⟩ := hh _ hV t
    exact ⟨hφ'.trans hφ, hU⟩
  · exact ⟨hφ, hok _ hV⟩

end Leaves

/-! ### Two programs -/

/-- Values that `R` relates, or one exception. -/
def Matching (R : α → β → Prop) : Except ε α → Except ε β → Prop
  | .ok a, .ok b => R a b
  | .error e, .error e' => e = e'
  | _, _ => False

def Twin (x y : κ → σ → Option ε) (S : σ → σ → Prop) (R : α → β → Prop) (p : Prog κ σ ε α) (q : Prog κ σ ε β) : Prop :=
  ∀ s t, S s t → Matching R (p.runRaising x s).1 (q.runRaising y t).1 ∧ S (p.runRaising x s).2 (q.runRaising y t).2

section Twin
variable {S : σ → σ → Prop}

theorem twin_ret {R : α → β → Prop} {a : α} {b : β} (h : R a b) : Twin x y S R (ret a) (ret b) :=
  fun _ _ hst => ⟨h, hst⟩

theorem twin_raise {R : α → β → Prop} (e : ε) : Twin x y S R (raise e) (raise e) := fun _ _ hst => ⟨rfl, hst⟩

theorem matching_refl (a : Except ε α) : Matching (· = ·) a a := by
  cases a <;> rfl

theorem twin_ofExcept (a : Except ε α) : Twin x y S (· = ·) (ofExcept a) (ofExcept a) := by
  intro s t hst
  rw [runRaising_ofExcept, runRaising_ofExcept]
  exact ⟨matching_refl a, hst⟩

theorem twin_atomic {R : α → β → Prop} {l : κ} {h : σ → Except ε α × σ} {h' : σ → Except ε β × σ}
    (hl : ∀ s t, S s t → x l s = y l t) (hstep : ∀ s t, S s t → Matching R (h s).1 (h' t).1 ∧ S (h s).2 (h' t).2) :
    Twin x y S R (atomic l h) (atomic l h') := by
  intro s t hst
  obtain ⟨hmatch, hS⟩ := hstep s t hst
  rw [runRaising_atomic, runRaising_atomic, ← hl s t hst]
  refine ⟨?_, hS⟩
  cases x l s with
  | none => exact hmatch
  | some e => rfl

theorem twin_observe {R : α → β → Prop} {l : κ} {h : σ → α} {h' : σ → β} (hl : ∀ s t, S s t → x l s = y l t)
    (hstep : ∀ s t, S s t → R (h s) (h' t)) : Twin x y S R (observe l h) (observe l h') := by
  show Twin x y S R (atomic l fun s => (.ok (h s), s)) (atomic l fun s => (.ok (h' s), s))
  exact twin_atomic hl fun s t hst => ⟨hstep s t hst, hst⟩

theorem twin_observeE {R : α → β → Prop} {l : κ} {h : σ → Except ε α} {h' : σ → Except ε β}
    (hl : ∀ s t, S s t → x l s = y l t) (hstep : ∀ s t, S s t → Matching R (h s) (h' t)) :
    Twin x y S R (observeE l h) (observeE l h') := by
  show Twin x y S R (atomic l fun s => (h s, s)) (atomic l fun s => (h' s, s))
  exact twin_atomic hl fun s t hst => ⟨hstep s t hst, hst⟩

theorem twin_change {R : Unit → Unit → Prop} {l : κ} {f f' : σ → σ} (hl : ∀ s t, S s t → x l s = y l t)
    (hR : R () ()) (hstep : ∀ s t, S s t → S (f s) (f' t)) : Twin x y S R (change l f) (change l f') := by
  show Twin x y S R (atomic l fun s => (.ok (), f s)) (atomic l fun s => (.ok (), f' s))
  exact twin_atomic hl fun s t hst => ⟨hR, hstep s t hst⟩

theorem Twin.bind {R : α → α' → Prop} {U : β → β' → Prop} {p : Prog κ σ ε α} {q : Prog κ σ ε α'}
    {g : α → Prog κ σ ε β} {g' : α' → Prog κ σ ε β'} (hp : Twin x y S R p q)
    (hg : ∀ a b, R a b → Twin x y S U (g a) (g' b)) : Twin x y S U (p.bind g) (q.bind g') := by
  intro s t hst
  obtain ⟨hmatch, hS⟩ := hp s t hst
  rw [runRaising_bind, runRaising_bind]
  generalize p.runRaising x s = c at hmatch hS ⊢
  generalize q.runRaising y t = d at hmatch hS ⊢
  obtain ⟨e | a, s'⟩ := c <;> obtain ⟨e' | b, t'⟩ := d
  · exact ⟨hmatch, hS⟩
  · exact hmatch.elim
  · exact hmatch.elim
  · exact hg a b hmatch s' t' hS

theorem Twin.then {U : β → β' → Prop} {p q : Prog κ σ ε α} {g : α → Prog κ σ ε β} {g' : α → Prog κ σ ε β'}
    (hp : Twin x y S (· = ·) p q) (hg : ∀ a, Twin x y S U (g a) (g' a)) : Twin x y S U (p.bind g) (q.bind g') :=
  hp.bind fun a _ hab => hab ▸ hg a

theorem Twin.tryCatch {R : α → β → Prop} {p : Prog κ σ ε α} {q : Prog κ σ ε β} {h : ε → Prog κ σ ε α}
    {h' : ε → Prog κ σ ε β} (hp : Twin x y S R p q) (hh : ∀ e, Twin x y S R (h e) (h' e)) :
    Twin x y S R (p.tryCatch h) (q.tryCatch h') := by
  intro s t hst
  obtain ⟨hmatch, hS⟩ := hp s t hst
  rw [runRaising_tryCatch, runRaising_tryCatch]
  generalize p.runRaising x s = c at hmatch hS ⊢
  generalize q.runRaising y t = d at hmatch hS ⊢
  obtain ⟨e | a, s'⟩ := c <;> obtain ⟨e' | b, t'⟩ := d
  · obtain rfl : e = e' := hmatch
    exact hh e s' t' hS
  · exact hmatch.elim
  · exact hmatch.elim
  · exact ⟨hmatch, hS⟩

/-- Programs that have nothing in common, except that they return, and leave alone what `S` looks at. -/
theorem twin_of_leaves {φ : σ → γ} (hφ : ∀ s s' t t', φ s' = φ s → φ t' = φ t → S s t → S s' t') {R : α → β → Prop}
    {p : Prog κ σ ε α} {q : Prog κ σ ε β} (hp : Leaves x φ (fun a => ∃ v, a = .ok v) p)
    (hq : Leaves y φ (fun b => ∃ v, b = .ok v) q) (hR : ∀ a b, R a b) : Twin x y S R p q := by
  intro s t hst
  obtain ⟨hs, a, ha⟩ := hp s
  obtain ⟨ht, b, hb⟩ := hq t
  rw [ha, hb]
  exact ⟨hR a b, hφ _ _ _ _ hs ht hst⟩

end Twin

end Prog
