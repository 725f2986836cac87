import GroupAssessmentAgent.Lib.Prog

/-!
# Complete executions and their histories

`Exec E p s h x s'`: the program `p`, alone from `s`, ends with the result `x` in the state `s'`. The history `h` lists
the steps on the way, each with its label, the state it was taken in, and the exception that it raised in place of its
effect, if it did. These are the executions of `Steps` that have come to their end (`exec_iff_steps`), and `play` is the
one that a script gives.

`Ensures E Q p s` says that each of them ends in `Q`, which may speak of the history. It follows the structure of a
program: there is one rule for each way of building one.
-/

namespace Prog
variable {κ σ ε α β : Type}

/-- A step that a program has taken. -/
structure Taken (κ σ ε : Type) where
  label : κ
  state : σ
  fault : Option ε

abbrev History (κ σ ε : Type) := List (Taken κ σ ε)

inductive Exec (E : Env κ σ ε) : Prog κ σ ε α → σ → History κ σ ε → Except ε α → σ → Prop
  | ret {a s} : Exec E (ret a) s [] (.ok a) s
  | raise {e s} : Exec E (raise e) s [] (.error e) s
  | ok {l f k r s h x s'} : E.allowed l s → Exec E (k s) (f s) h x s' →
      Exec E (step l f k r) s (⟨l, s, none⟩ :: h) x s'
  | fault {l f k r s e h x s'} : E.fault l s e → Exec E (r e) s h x s' →
      Exec E (step l f k r) s (⟨l, s, some e⟩ :: h) x s'

/-- The history, the result and the last state of the execution that a script gives: its entries say of each step
whether it takes effect (`none`) or raises. After its end no step raises. -/
def play : List (Option ε) → Prog κ σ ε α → σ → History κ σ ε × Except ε α × σ
  | _, ret a, s => ([], .ok a, s)
  | _, raise e, s => ([], .error e, s)
  | some e :: script, step l _ _ r, s =>
    let c := play script (r e) s
    (⟨l, s, some e⟩ :: c.1, c.2)
  | none :: script, step l f k _, s =>
    let c := play script (k s) (f s)
    (⟨l, s, none⟩ :: c.1, c.2)
  | [], step l f k _, s =>
    let c := play [] (k s) (f s)
    (⟨l, s, none⟩ :: c.1, c.2)

variable {E : Env κ σ ε}

theorem exec_play (hE : ∀ l s, E.allowed l s) (script : List (Option ε)) (p : Prog κ σ ε α) (s : σ)
    (hfault : ∀ t ∈ (play script p s).1, ∀ e ∈ t.fault, E.fault t.label t.state e) :
    Exec E p s (play script p s).1 (play script p s).2.1 (play script p s).2.2 := by
  induction p generalizing script s with
  | ret a =>
    cases script with
    | nil => exact .ret
    | cons x script => cases x <;> exact .ret
  | raise e =>
    cases script with
    | nil => exact .raise
    | cons x script => cases x <;> exact .raise
  | step l f k r ihk ihr =>
    cases script with
    | nil => exact .ok (hE l s) (ihk s [] (f s) fun t ht => hfault t (List.mem_cons_of_mem _ ht))
    | cons x script =>
      cases x with
      | none => exact .ok (hE l s) (ihk s script (f s) fun t ht => hfault t (List.mem_cons_of_mem _ ht))
      | some e =>
        refine .fault (hfault _ List.mem_cons_self e rfl) (ihr e script s fun t ht => ?_)
        exact hfault t (List.mem_cons_of_mem _ ht)

theorem exec_run (hE : ∀ l s, E.allowed l s) (p : Prog κ σ ε α) (s : σ) :
    ∃ h, Exec E p s h (p.run s).1 (p.run s).2 ∧ ∀ t ∈ h, t.fault = none := by
  induction p generalizing s with
  | ret a => exact ⟨[], .ret, nofun⟩
  | raise e => exact ⟨[], .raise, nofun⟩
  | step l f k r ihk ihr =>
    obtain ⟨h, hexec, hnone⟩ := ihk s (f s)
    exact ⟨_, .ok (hE l s) hexec, List.forall_mem_cons.2 ⟨rfl, hnone⟩⟩

theorem Exec.steps {p : Prog κ σ ε α} {s s' : σ} {h : History κ σ ε} {x : Except ε α} (hexec : Exec E p s h x s') :
    Steps E (p, s) (ofExcept x, s') := by
  induction hexec with
  | ret => exact .refl
  | raise => exact .refl
  | ok hallow _ ih => exact .ok hallow ih
  | fault hfault _ ih => exact .fault hfault ih

theorem exec_ofExcept (x : Except ε α) (s : σ) : Exec E (ofExcept x) s [] x s := by
  cases x with
  | ok a => exact .ret
  | error e => exact .raise

theorem exec_iff_steps {p : Prog κ σ ε α} {s s' : σ} {x : Except ε α} :
    (∃ h, Exec E p s h x s') ↔ Steps E (p, s) (ofExcept x, s') := by
  refine ⟨fun ⟨h, hexec⟩ => hexec.steps, fun hsteps => ?_⟩
  suffices hend : ∀ c, Steps E c (ofExcept x, s') → ∃ h, Exec E c.1 c.2 h x s' from hend (p, s) hsteps
  intro c hc
  induction hc using Relation.ReflTransGen.head_induction_on with
  | refl => exact ⟨[], exec_ofExcept x s'⟩
  | head hstep _ ih =>
    obtain ⟨h, hexec⟩ := ih
    cases hstep with
    | ok hallow => exact ⟨_, .ok hallow hexec⟩
    | fault hfault => exact ⟨_, .fault hfault hexec⟩

theorem Exec.faults {p : Prog κ σ ε α} {s s' : σ} {h : History κ σ ε} {x : Except ε α} (hexec : Exec E p s h x s') :
    ∀ t ∈ h, ∀ e ∈ t.fault, E.fault t.label t.state e := by
  induction hexec with
  | ret => exact nofun
  | raise => exact nofun
  | ok _ _ ih => exact List.forall_mem_cons.2 ⟨nofun, ih⟩
  | fault hfault _ ih =>
    refine List.forall_mem_cons.2 ⟨fun e he => ?_, ih⟩
    obtain rfl := Option.some.inj he
    exact hfault

/-! ### Putting executions together -/

theorem Exec.bind {p : Prog κ σ ε α} {g : α → Prog κ σ ε β} {s s₁ s' : σ} {h₁ h₂ : History κ σ ε} {a : α}
    {x : Except ε β} (hp : Exec E p s h₁ (.ok a) s₁) (hg : Exec E (g a) s₁ h₂ x s') :
    Exec E (p.bind g) s (h₁ ++ h₂) x s' := by
  generalize hy : Except.ok a = y at hp
  induction hp with
  | ret =>
    obtain rfl := Except.ok.inj hy
    exact hg
  | raise => cases hy
  | ok hallow _ ih => exact .ok hallow (ih hg hy)
  | fault hfault _ ih => exact .fault hfault (ih hg hy)

theorem Exec.bind_error {p : Prog κ σ ε α} {g : α → Prog κ σ ε β} {s s' : σ} {h : History κ σ ε} {e : ε}
    (hp : Exec E p s h (.error e) s') : Exec E (p.bind g) s h (.error e) s' := by
  generalize hy : Except.error e = y at hp
  induction hp with
  | ret => cases hy
  | raise =>
    obtain rfl := Except.error.inj hy
    exact .raise
  | ok hallow _ ih => exact .ok hallow (ih hy)
  | fault hfault _ ih => exact .fault hfault (ih hy)

theorem Exec.tryCatch_error {p : Prog κ σ ε α} {g : ε → Prog κ σ ε α} {s s₁ s' : σ} {h₁ h₂ : History κ σ ε} {e : ε}
    {x : Except ε α} (hp : Exec E p s h₁ (.error e) s₁) (hg : Exec E (g e) s₁ h₂ x s') :
    Exec E (p.tryCatch g) s (h₁ ++ h₂) x s' := by
  generalize hy : Except.error e = y at hp
  induction hp with
  | ret => cases hy
  | raise =>
    obtain rfl := Except.error.inj hy
    exact hg
  | ok hallow _ ih => exact .ok hallow (ih hg hy)
  | fault hfault _ ih => exact .fault hfault (ih hg hy)

/-! ### Taking an execution apart -/

theorem Exec.bind_inv {p : Prog κ σ ε α} {g : α → Prog κ σ ε β} {s s' : σ} {h : History κ σ ε} {x : Except ε β}
    (hexec : Exec E (p.bind g) s h x s') :
    (∃ a h₁ s₁ h₂, Exec E p s h₁ (.ok a) s₁ ∧ Exec E (g a) s₁ h₂ x s' ∧ h = h₁ ++ h₂) ∨
      ∃ e, x = .error e ∧ Exec E p s h (.error e) s' := by
  induction p generalizing s h with
  | ret a => exact .inl ⟨a, [], s, h, .ret, hexec, rfl⟩
  | raise e =>
    cases hexec with
    | raise => exact .inr ⟨e, rfl, .raise⟩
  | step l f k r ihk ihr =>
    cases hexec with
    | ok hallow hrest =>
      rcases ihk s hrest with ⟨a, h₁, s₁, h₂, hp, hg, rfl⟩ | ⟨e, rfl, hp⟩
      · exact .inl ⟨a, _, s₁, h₂, .ok hallow hp, hg, rfl⟩
      · exact .inr ⟨e, rfl, .ok hallow hp⟩
    | fault hfault hrest =>
      rcases ihr _ hrest with ⟨a, h₁, s₁, h₂, hp, hg, rfl⟩ | ⟨e, rfl, hp⟩
      · exact .inl ⟨a, _, s₁, h₂, .fault hfault hp, hg, rfl⟩
      · exact .inr ⟨e, rfl, .fault hfault hp⟩

theorem Exec.tryCatch_inv {p : Prog κ σ ε α} {g : ε → Prog κ σ ε α} {s s' : σ} {h : History κ σ ε} {x : Except ε α}
    (hexec : Exec E (p.tryCatch g) s h x s') :
    (∃ e h₁ s₁ h₂, Exec E p s h₁ (.error e) s₁ ∧ Exec E (g e) s₁ h₂ x s' ∧ h = h₁ ++ h₂) ∨
      ∃ a, x = .ok a ∧ Exec E p s h (.ok a) s' := by
  induction p generalizing s h with
  | ret a =>
    cases hexec with
    | ret => exact .inr ⟨a, rfl, .ret⟩
  | raise e => exact .inl ⟨e, [], s, h, .raise, hexec, rfl⟩
  | step l f k r ihk ihr =>
    cases hexec with
    | ok hallow hrest =>
      rcases ihk s hrest with ⟨e, h₁, s₁, h₂, hp, hg, rfl⟩ | ⟨a, rfl, hp⟩
      · exact .inl ⟨e, _, s₁, h₂, .ok hallow hp, hg, rfl⟩
      · exact .inr ⟨a, rfl, .ok hallow hp⟩
    | fault hfault hrest =>
      rcases ihr _ hrest with ⟨e, h₁, s₁, h₂, hp, hg, rfl⟩ | ⟨a, rfl, hp⟩
      · exact .inl ⟨e, _, s₁, h₂, .fault hfault hp, hg, rfl⟩
      · exact .inr ⟨a, rfl, .fault hfault hp⟩

/-! ### What every execution ends in -/

def Ensures (E : Env κ σ ε) (Q : History κ σ ε → Except ε α → σ → Prop) (p : Prog κ σ ε α) (s : σ) : Prop :=
  ∀ h x s', Exec E p s h x s' → Q h x s'

variable {Q : History κ σ ε → Except ε α → σ → Prop} {s : σ}

theorem Ensures.mono {Q' : History κ σ ε → Except ε α → σ → Prop} {p : Prog κ σ ε α} (hp : Ensures E Q p s)
    (hQ : ∀ h x s', Q h x s' → Q' h x s') : Ensures E Q' p s :=
  fun h x s' hexec => hQ h x s' (hp h x s' hexec)

theorem Ensures.and {Q' : History κ σ ε → Except ε α → σ → Prop} {p : Prog κ σ ε α} (hp : Ensures E Q p s)
    (hp' : Ensures E Q' p s) : Ensures E (fun h x s' => Q h x s' ∧ Q' h x s') p s :=
  fun h x s' hexec => ⟨hp h x s' hexec, hp' h x s' hexec⟩

theorem ensures_ret {a : α} (hQ : Q [] (.ok a) s) : Ensures E Q (ret a) s := by
  intro h x s' hexec
  cases hexec
  exact hQ

theorem ensures_raise {e : ε} (hQ : Q [] (.error e) s) : Ensures E Q (raise e) s := by
  intro h x s' hexec
  cases hexec
  exact hQ

theorem ensures_ofExcept {y : Except ε α} (hQ : Q [] y s) : Ensures E Q (ofExcept y) s := by
  cases y with
  | ok a => exact ensures_ret hQ
  | error e => exact ensures_raise hQ

theorem Ensures.bind {Q : History κ σ ε → Except ε β → σ → Prop} {M : History κ σ ε → Except ε α → σ → Prop}
    {p : Prog κ σ ε α} {g : α → Prog κ σ ε β} (hp : Ensures E M p s)
    (hok : ∀ h a s', M h (.ok a) s' → Ensures E (fun h' => Q (h ++ h')) (g a) s')
    (herr : ∀ h e s', M h (.error e) s' → Q h (.error e) s') : Ensures E Q (p.bind g) s := by
  intro h x s' hexec
  rcases hexec.bind_inv with ⟨a, h₁, s₁, h₂, hfirst, hrest, rfl⟩ | ⟨e, rfl, hfirst⟩
  · exact hok h₁ a s₁ (hp _ _ _ hfirst) h₂ x s' hrest
  · exact herr h e s' (hp _ _ _ hfirst)

theorem Ensures.tryCatch {M : History κ σ ε → Except ε α → σ → Prop} {p : Prog κ σ ε α} {g : ε → Prog κ σ ε α}
    (hp : Ensures E M p s) (hok : ∀ h a s', M h (.ok a) s' → Q h (.ok a) s')
    (herr : ∀ h e s', M h (.error e) s' → Ensures E (fun h' => Q (h ++ h')) (g e) s') :
    Ensures E Q (p.tryCatch g) s := by
  intro h x s' hexec
  rcases hexec.tryCatch_inv with ⟨e, h₁, s₁, h₂, hfirst, hrest, rfl⟩ | ⟨a, rfl, hfirst⟩
  · exact herr h₁ e s₁ (hp _ _ _ hfirst) h₂ x s' hrest
  · exact hok h a s' (hp _ _ _ hfirst)

theorem ensures_atomic {l : κ} {f : σ → Except ε α × σ} (hstep : Q [⟨l, s, none⟩] (f s).1 (f s).2)
    (hfault : ∀ e, E.fault l s e → Q [⟨l, s, some e⟩] (.error e) s) : Ensures E Q (atomic l f) s := by
  intro h x s' hexec
  cases hexec with
  | ok _ hrest => exact ensures_ofExcept (Q := fun h' => Q (⟨l, s, none⟩ :: h')) hstep _ _ _ hrest
  | fault hf hrest =>
    cases hrest
    exact hfault _ hf

theorem ensures_observe {l : κ} {f : σ → α} (hstep : Q [⟨l, s, none⟩] (.ok (f s)) s)
    (hfault : ∀ e, E.fault l s e → Q [⟨l, s, some e⟩] (.error e) s) : Ensures E Q (observe l f) s :=
  ensures_atomic (f := fun s => (.ok (f s), s)) hstep hfault

theorem ensures_change {Q : History κ σ ε → Except ε Unit → σ → Prop} {l : κ} {f : σ → σ}
    (hstep : Q [⟨l, s, none⟩] (.ok ()) (f s)) (hfault : ∀ e, E.fault l s e → Q [⟨l, s, some e⟩] (.error e) s) :
    Ensures E Q (change l f) s :=
  ensures_atomic (f := fun s => (.ok (), f s)) hstep hfault

/-- No step has raised. -/
def Clean (h : History κ σ ε) : Prop := ∀ t ∈ h, t.fault = none

theorem clean_nil : Clean ([] : History κ σ ε) := nofun

theorem clean_step (l : κ) (s : σ) : Clean [(⟨l, s, none⟩ : Taken κ σ ε)] := List.forall_mem_singleton.2 rfl

theorem Clean.append {h h' : History κ σ ε} (hh : Clean h) (hh' : Clean h') : Clean (h ++ h') :=
  List.forall_mem_append.2 ⟨hh, hh'⟩

/-- Each execution ends in a value, and in `Q`, and no step of it raises. -/
def Returns (E : Env κ σ ε) (Q : α → σ → Prop) (p : Prog κ σ ε α) (s : σ) : Prop :=
  Ensures E (fun h x s' => Clean h ∧ ∃ a, x = .ok a ∧ Q a s') p s

theorem returns_ret {Q : α → σ → Prop} {a : α} (hQ : Q a s) : Returns E Q (ret a) s :=
  ensures_ret ⟨clean_nil, a, rfl, hQ⟩

theorem Returns.mono {Q Q' : α → σ → Prop} {p : Prog κ σ ε α} (hp : Returns E Q p s) (hQ : ∀ a s', Q a s' → Q' a s') :
    Returns E Q' p s :=
  Ensures.mono hp fun _ _ s' ⟨hclean, a, ha, hend⟩ => ⟨hclean, a, ha, hQ a s' hend⟩

theorem Returns.after {Q : α → σ → Prop} {p : Prog κ σ ε α} {h : History κ σ ε} (hh : Clean h) (hp : Returns E Q p s) :
    Ensures E (fun h' x s' => Clean (h ++ h') ∧ ∃ a, x = .ok a ∧ Q a s') p s :=
  Ensures.mono hp fun _ _ _ ⟨hclean, hend⟩ => ⟨hh.append hclean, hend⟩

/-- After a program that returns there is no exception to consider. -/
theorem Returns.then {Q : History κ σ ε → Except ε β → σ → Prop} {M : α → σ → Prop}
    {p : Prog κ σ ε α} {g : α → Prog κ σ ε β} (hp : Returns E M p s)
    (hg : ∀ h a s', Clean h → M a s' → Ensures E (fun h' => Q (h ++ h')) (g a) s') : Ensures E Q (p.bind g) s := by
  refine Ensures.bind hp (fun h a s' hend => ?_) fun h e s' hend => ?_
  · obtain ⟨hclean, _, ha, hend⟩ := hend
    obtain rfl := Except.ok.inj ha
    exact hg h a s' hclean hend
  · obtain ⟨-, _, ha, -⟩ := hend
    cases ha

theorem Returns.bind {Q : β → σ → Prop} {M : α → σ → Prop} {p : Prog κ σ ε α} {g : α → Prog κ σ ε β}
    (hp : Returns E M p s) (hg : ∀ a s', M a s' → Returns E Q (g a) s') : Returns E Q (p.bind g) s :=
  hp.then fun _ a s' hclean hend => (hg a s' hend).after hclean

theorem Ensures.run {Q : History κ σ ε → Except ε α → σ → Prop} {p : Prog κ σ ε α} (hE : ∀ l s, E.allowed l s)
    (hp : Ensures E Q p s) : ∃ h, Q h (p.run s).1 (p.run s).2 := by
  obtain ⟨h, hexec, -⟩ := exec_run hE p s
  exact ⟨h, hp _ _ _ hexec⟩

theorem Always.ensures {A : κ → (σ → σ) → Prop} {L : κ → Prop} {G : σ → σ → Prop} (hrefl : ∀ s, G s s)
    (htrans : ∀ a b c, G a b → G b c → G a c) (hA : ∀ l f, A l f → L l ∧ ∀ s, G s (f s)) {p : Prog κ σ ε α}
    (hp : Always A p) (s : σ) : Ensures E (fun h _ s' => G s s' ∧ ∀ t ∈ h, L t.label) p s := by
  induction p generalizing s with
  | ret a => exact ensures_ret ⟨hrefl s, nofun⟩
  | raise e => exact ensures_raise ⟨hrefl s, nofun⟩
  | step l f k r ihk ihr =>
    obtain ⟨hf, hk, hr⟩ := hp
    obtain ⟨hl, hG⟩ := hA l f hf
    intro h x s' hexec
    cases hexec with
    | ok _ hrest =>
      obtain ⟨hmove, hlabels⟩ := ihk s (hk s) (f s) _ _ _ hrest
      exact ⟨htrans _ _ _ (hG s) hmove, List.forall_mem_cons.2 ⟨hl, hlabels⟩⟩
    | fault _ hrest =>
      obtain ⟨hmove, hlabels⟩ := ihr _ (hr _) s _ _ _ hrest
      exact ⟨hmove, List.forall_mem_cons.2 ⟨hl, hlabels⟩⟩

theorem Keeps.ensures {γ : Type} {φ : σ → γ} {p : Prog κ σ ε α} (hp : Keeps φ p) (s : σ) :
    Ensures E (fun _ _ s' => φ s' = φ s) p s := by
  have hsteps : Ensures E (fun h _ s' => φ s' = φ s ∧ ∀ t ∈ h, True) p s :=
    Always.ensures (L := fun _ => True) (G := fun s s' => φ s' = φ s) (fun _ => rfl) (fun _ _ _ h h' => h'.trans h)
      (fun _ _ hf => ⟨trivial, hf⟩) hp s
  exact hsteps.mono fun _ _ _ h => h.1

/-- Where no step of the program raises, it does what it does in its run. -/
theorem Always.ensures_run {p : Prog κ σ ε α} (hp : Always (fun l _ => ∀ s e, ¬ E.fault l s e) p) (s : σ) :
    Ensures E (fun _ x s' => p.run s = (x, s')) p s := by
  induction p generalizing s with
  | ret a => exact ensures_ret rfl
  | raise e => exact ensures_raise rfl
  | step l f k r ihk ihr =>
    obtain ⟨hl, hk, hr⟩ := hp
    intro h x s' hexec
    cases hexec with
    | ok _ hrest => exact ihk s (hk s) (f s) _ _ _ hrest
    | fault hfault _ => exact absurd hfault (hl s _)

/-- Each execution, from each state, leads from `s` to `s'` by a history `h` with `R s h s'`. -/
def Records (E : Env κ σ ε) (R : σ → History κ σ ε → σ → Prop) (p : Prog κ σ ε α) : Prop :=
  ∀ s, Ensures E (fun h _ s' => R s h s') p s

section
variable {R : σ → History κ σ ε → σ → Prop} (htrans : ∀ a h b h' c, R a h b → R b h' c → R a (h ++ h') c)
include htrans

theorem Records.bind {p : Prog κ σ ε α} {g : α → Prog κ σ ε β} (hp : Records E R p) (hg : ∀ a, Records E R (g a)) :
    Records E R (p.bind g) := fun s =>
  Ensures.bind (hp s) (fun _ a s₁ hfirst => (hg a s₁).mono fun _ _ _ hrest => htrans _ _ _ _ _ hfirst hrest)
    fun _ _ _ hfirst => hfirst

theorem Records.tryCatch {p : Prog κ σ ε α} {g : ε → Prog κ σ ε α} (hp : Records E R p)
    (hg : ∀ e, Records E R (g e)) : Records E R (p.tryCatch g) := fun s =>
  Ensures.tryCatch (hp s) (fun _ _ _ hfirst => hfirst) fun _ e s₁ hfirst =>
    (hg e s₁).mono fun _ _ _ hrest => htrans _ _ _ _ _ hfirst hrest

end

theorem Always.labels {L : κ → Prop} {p : Prog κ σ ε α} (hp : Always (fun l _ => L l) p) (s : σ) :
    Ensures E (fun h _ _ => ∀ t ∈ h, L t.label) p s := by
  have hsteps : Ensures E (fun h _ s' => True ∧ ∀ t ∈ h, L t.label) p s :=
    Always.ensures (L := L) (G := fun _ _ => True) (fun _ => trivial) (fun _ _ _ _ _ => trivial)
      (fun _ _ hf => ⟨hf, fun _ => trivial⟩) hp s
  exact hsteps.mono fun _ _ _ h => h.2

end Prog
