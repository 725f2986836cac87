import GroupAssessmentAgent.Lib.Prog

/-!
# History variables

`watch δ p` is the program `p` beside a variable that records what its steps did. The program does not read the
variable, so its steps are those of `p` (`watch_steps`), and `watch` commutes with the constructs of programs. A
judgement about `watch δ p` then speaks of the state and of the history that led to it.
-/

namespace Prog
variable {κ σ ε α β A : Type}

/-- The program with a variable that each step updates, by its label and the states before and after it. -/
def watch (δ : κ → σ → σ → A → A) : Prog κ σ ε α → Prog κ (σ × A) ε α
  | ret a => ret a
  | raise e => raise e
  | step l f k r => step l (fun c => (f c.1, δ l c.1 (f c.1) c.2)) (fun c => watch δ (k c.1)) fun e => watch δ (r e)

/-- What happens around the program does not depend on the variable. -/
def Env.watched (A : Type) (E : Env κ σ ε) : Env κ (σ × A) ε :=
  ⟨fun l c => E.allowed l c.1, fun l c e => E.fault l c.1 e⟩

variable {δ : κ → σ → σ → A → A} {E : Env κ σ ε}

@[simp] theorem watch_ret (a : α) : watch δ (ret a : Prog κ σ ε α) = ret a := rfl

@[simp] theorem watch_raise (e : ε) : watch δ (raise e : Prog κ σ ε α) = raise e := rfl

@[simp] theorem watch_ofExcept (x : Except ε α) : watch δ (ofExcept x : Prog κ σ ε α) = ofExcept x := by
  cases x <;> rfl

theorem watch_bind (p : Prog κ σ ε α) (g : α → Prog κ σ ε β) :
    watch δ (p.bind g) = (watch δ p).bind fun a => watch δ (g a) := by
  induction p with
  | ret a => rfl
  | raise e => rfl
  | step l f k r ihk ihr => simp only [Prog.bind, watch, ihk, ihr]

theorem watch_tryCatch (p : Prog κ σ ε α) (h : ε → Prog κ σ ε α) :
    watch δ (p.tryCatch h) = (watch δ p).tryCatch fun e => watch δ (h e) := by
  induction p with
  | ret a => rfl
  | raise e => rfl
  | step l f k r ihk ihr => simp only [Prog.tryCatch, watch, ihk, ihr]

theorem watch_atomic (l : κ) (h : σ → Except ε α × σ) :
    watch δ (atomic l h) = atomic l fun c => ((h c.1).1, (h c.1).2, δ l c.1 (h c.1).2 c.2) := by
  simp only [atomic, watch, watch_ofExcept]

theorem watch_observe (l : κ) (h : σ → α) :
    watch δ (observe l h : Prog κ σ ε α) = atomic l fun c => (.ok (h c.1), c.1, δ l c.1 c.1 c.2) := rfl

theorem watch_observeE (l : κ) (h : σ → Except ε α) :
    watch δ (observeE l h) = atomic l fun c => (h c.1, c.1, δ l c.1 c.1 c.2) := by
  simp only [observeE, atomic, watch, watch_ofExcept, id]

theorem watch_change (l : κ) (f : σ → σ) :
    watch δ (change l f : Prog κ σ ε Unit) = change l fun c => (f c.1, δ l c.1 (f c.1) c.2) := rfl

theorem watch_steps {p : Prog κ σ ε α} {s : σ} {d : Prog κ σ ε α × σ} (h : Steps E (p, s) d) (a : A) :
    ∃ a', Steps (E.watched A) (watch δ p, s, a) (watch δ d.1, d.2, a') := by
  induction h with
  | refl => exact ⟨a, .refl⟩
  | @tail d d' _ hstep ih =>
    obtain ⟨a', hrun⟩ := ih
    obtain ⟨q, t⟩ := d
    cases hstep with
    | ok hallow => exact ⟨_, hrun.tail (.ok hallow)⟩
    | fault hfault => exact ⟨a', hrun.tail (.fault hfault)⟩

/-! ### Judgements -/

/-- The effect of a step on the state and the variable, where it keeps `P`. -/
def Preserves (δ : κ → σ → σ → A → A) (P : σ × A → Prop) (l : κ) (f : σ → σ) : Prop :=
  ∀ c, P c → P (f c.1, δ l c.1 (f c.1) c.2)

/-- The same, where it is inside `G` as well. -/
def Moves (δ : κ → σ → σ → A → A) (P : σ × A → Prop) (G : σ × A → σ × A → Prop) (l : κ) (f : σ → σ) : Prop :=
  ∀ c, P c → P (f c.1, δ l c.1 (f c.1) c.2) ∧ G c (f c.1, δ l c.1 (f c.1) c.2)

variable {R G : σ × A → σ × A → Prop}

theorem Always.moves {P : σ × A → Prop} {p : Prog κ σ ε α} (hp : Always (Moves δ P G) p) (hP : Stable R P) {c : σ × A}
    (hc : P c) : RG (E.watched A) R G (fun _ => P) (watch δ p) c := by
  induction p generalizing c with
  | ret a => exact fun c' hcc' => hP c c' hcc' hc
  | raise e => exact fun c' hcc' => hP c c' hcc' hc
  | step l f k r ihk ihr =>
    obtain ⟨hf, hk, hr⟩ := hp
    intro c' hcc'
    have hc' : P c' := hP c c' hcc' hc
    obtain ⟨hnext, hG⟩ := hf c' hc'
    exact ⟨fun _ => ⟨hG, ihk c'.1 (hk c'.1) hnext⟩, fun e _ => ihr e (hr e) hc'⟩

theorem Always.watch {P : σ × A → Prop} {p : Prog κ σ ε α} (hp : Always (Preserves δ P) p) (hP : Stable R P)
    (hG : ∀ c c', P c' → G c c') {c : σ × A} (hc : P c) : RG (E.watched A) R G (fun _ => P) (watch δ p) c :=
  (hp.mono fun _ _ hf c hc => ⟨hf c hc, hG _ _ (hf c hc)⟩ : Always (Moves δ P G) p).moves hP hc

theorem always_watched {P : κ → (σ → σ) → Prop} {P' : κ → (σ × A → σ × A) → Prop} {p : Prog κ σ ε α} (hp : Always P p)
    (hPP' : ∀ l f, P l f → P' l fun c => (f c.1, δ l c.1 (f c.1) c.2)) : Always P' (watch δ p) := by
  induction p with
  | ret a => trivial
  | raise e => trivial
  | step l f k r ihk ihr =>
    obtain ⟨hf, hk, hr⟩ := hp
    exact ⟨hPP' l f hf, fun c => ihk c.1 (hk c.1), fun e => ihr e (hr e)⟩

/-- A judgement of the program is one of the watched program, where each step records itself. -/
theorem rg_watched {P : κ → (σ → σ) → Prop} {R G : σ → σ → Prop} {Q : Except ε α → σ → Prop} {p : Prog κ σ ε α} {s : σ}
    (h : RG E R G Q p s) (hp : Always P p) (a : A) :
    RG (E.watched A) (fun c c' => R c.1 c'.1)
      (fun c c' => G c.1 c'.1 ∧ ∃ l f, P l f ∧ c' = (f c.1, δ l c.1 (f c.1) c.2)) (fun x c => Q x c.1) (watch δ p)
      (s, a) := by
  induction p generalizing s a with
  | ret a => exact fun c' hcc' => h c'.1 hcc'
  | raise e => exact fun c' hcc' => h c'.1 hcc'
  | step l f k r ihk ihr =>
    obtain ⟨hf, hk, hr⟩ := hp
    intro c' hcc'
    obtain ⟨hok, hfault⟩ := h c'.1 hcc'
    exact ⟨fun ha => ⟨⟨(hok ha).1, l, f, hf, rfl⟩, ihk c'.1 (hok ha).2 (hk c'.1) _⟩,
      fun e he => ihr e (hfault e he) (hr e) c'.2⟩

theorem rg_watch_bind (hrefl : ∀ c, R c c) {Q : Except ε β → σ × A → Prop} {M : Except ε α → σ × A → Prop}
    {p : Prog κ σ ε α} {g : α → Prog κ σ ε β} {c : σ × A} (hp : RG (E.watched A) R G M (watch δ p) c)
    (hok : ∀ a c, M (.ok a) c → RG (E.watched A) R G Q (watch δ (g a)) c)
    (herr : ∀ e c, M (.error e) c → Q (.error e) c) : RG (E.watched A) R G Q (watch δ (p.bind g)) c := by
  rw [watch_bind]
  exact RG.bind hrefl hp hok herr

theorem rg_watch_tryCatch (hrefl : ∀ c, R c c) {Q M : Except ε α → σ × A → Prop} {p : Prog κ σ ε α}
    {g : ε → Prog κ σ ε α} {c : σ × A} (hp : RG (E.watched A) R G M (watch δ p) c)
    (hok : ∀ a c, M (.ok a) c → Q (.ok a) c)
    (herr : ∀ e c, M (.error e) c → RG (E.watched A) R G Q (watch δ (g e)) c) :
    RG (E.watched A) R G Q (watch δ (p.tryCatch g)) c := by
  rw [watch_tryCatch]
  exact RG.tryCatch hrefl hp hok herr

end Prog
