import Mathlib.Data.List.Nodup
import Mathlib.Data.List.ReduceOption
import GroupAssessmentAgent.Lib.Prog

/-!
# Keys that are allocated once

Threads that allocate keys: the state has a list of the keys that are `taken`, and a program that ends with a key has
added this key to them in one of its steps (`Allocates`). Then no two results of all the threads are the same
(`PoolRun.distinct`), however the steps are interleaved: the key that a thread holds, from the step that took it to the
result that gives it, is held by no other thread and has not been given before.

`I` is an invariant of the state, under which the steps are taken, and `B` holds of the exceptions that may be raised.
-/

namespace Prog
variable {κ σ ε α K ι : Type} [DecidableEq ι]

/-- The result of a program that has ended. -/
def value? : Prog κ σ ε α → Option α
  | ret a => some a
  | _ => none

/-- A run of a pool, with the results that its programs have given so far. -/
inductive PoolRun (E : Env κ σ ε) (R₀ : σ → σ → Prop) (calls : ι → Prog κ σ ε α → σ → Prop)
    (start : (ι → Prog κ σ ε α) × σ) : List α → (ι → Prog κ σ ε α) × σ → Prop
  | start : PoolRun E R₀ calls start [] start
  | step {results c s t p' s'} : PoolRun E R₀ calls start results (c, s) → Step E (c t, s) (p', s') →
      PoolRun E R₀ calls start (results ++ p'.value?.toList) (Function.update c t p', s')
  | call {results c s t p} : PoolRun E R₀ calls start results (c, s) → calls t p s →
      PoolRun E R₀ calls start results (Function.update c t p, s)
  | around {results c s s'} : PoolRun E R₀ calls start results (c, s) → R₀ s s' →
      PoolRun E R₀ calls start results (c, s')

theorem PoolRun.run {R₀ : σ → σ → Prop} {calls : ι → Prog κ σ ε α → σ → Prop} {start : (ι → Prog κ σ ε α) × σ}
    {results : List α} {c : ι → Prog κ σ ε α} {t : ι} {p : Prog κ σ ε α} {s s' : σ} {a : α}
    (h : PoolRun Env.calm R₀ calls start results (c, s)) (hp : c t = p) (hstep : p.label? ≠ none)
    (hend : p.run s = (.ok a, s')) :
    PoolRun Env.calm R₀ calls start (results ++ [a]) (Function.update c t (ret a), s') := by
  induction p generalizing c s with
  | ret b => exact absurd rfl hstep
  | raise e => exact absurd rfl hstep
  | step l f k r ihk ihr =>
    have hnext : Step (Env.calm : Env κ σ ε) (c t, s) (k s, f s) := by
      rw [hp]
      exact .ok trivial
    have hmove := h.step hnext
    replace hend : (k s).run (f s) = (.ok a, s') := hend
    cases hk : k s with
    | ret b =>
      rw [hk] at hmove hend
      cases hend
      exact hmove
    | raise e =>
      rw [hk] at hend
      cases hend
    | step l' f' k' r' =>
      have hquiet : (k s).value?.toList = [] := by rw [hk]; rfl
      rw [hquiet, List.append_nil] at hmove
      have hrest := ihk s hmove (Function.update_self ..) (by rw [hk]; simp [label?]) hend
      rwa [Function.update_idem] at hrest

section
variable (taken : σ → List K) (I : σ → Prop) (B : ε → Prop)

/-- The steps take no key. -/
def Takes0 : Prog κ σ ε α → Prop
  | ret _ => True
  | raise e => B e
  | step _ f k _ => ∀ s, I s → I (f s) ∧ taken (f s) = taken s ∧ Takes0 (k s)

/-- The program ends with the key, once it is taken, and takes no other. -/
def Gives (key : K) : Prog κ σ ε (Option K) → Prop
  | ret a => a = some key
  | raise e => B e
  | step _ f k _ => ∀ s, I s → key ∈ taken s → I (f s) ∧ taken (f s) = taken s ∧ Gives key (k s)

/-- The program takes one new key at most, and ends with that. -/
def Allocates : Prog κ σ ε (Option K) → Prop
  | ret a => a = none
  | raise e => B e
  | step _ f k _ => ∀ s, I s → I (f s) ∧ (taken (f s) = taken s ∧ Allocates (k s) ∨
      ∃ key, key ∉ taken s ∧ taken (f s) = taken s ++ [key] ∧ Gives taken I B key (k s))

variable {taken I B}

theorem Takes0.bind {β : Type} {p : Prog κ σ ε α} {g : α → Prog κ σ ε β} (hp : Takes0 taken I B p)
    (hg : ∀ a, Takes0 taken I B (g a)) : Takes0 taken I B (p.bind g) := by
  induction p with
  | ret a => exact hg a
  | raise e => exact hp
  | step l f k r ihk ihr =>
    intro s hs
    obtain ⟨hinv, hsame, hnext⟩ := hp s hs
    exact ⟨hinv, hsame, ihk s hnext⟩

theorem Allocates.bind {p : Prog κ σ ε α} {g : α → Prog κ σ ε (Option K)} (hp : Takes0 taken I B p)
    (hg : ∀ a, Allocates taken I B (g a)) : Allocates taken I B (p.bind g) := by
  induction p with
  | ret a => exact hg a
  | raise e => exact hp
  | step l f k r ihk ihr =>
    intro s hs
    obtain ⟨hinv, hsame, hnext⟩ := hp s hs
    exact ⟨hinv, .inl ⟨hsame, ihk s hnext⟩⟩

/-- What the threads hold: a key that was taken and not given yet, each its own. -/
structure Held (taken : σ → List K) (I : σ → Prop) (B : ε → Prop) (results : List (Option K))
    (c : (ι → Prog κ σ ε (Option K)) × σ) (held : ι → Option K) : Prop where
  inv : I c.2
  free : ∀ t, held t = none → (∃ a, c.1 t = ret a) ∨ Allocates taken I B (c.1 t)
  gives : ∀ t key, held t = some key → Gives taken I B key (c.1 t) ∧ key ∈ taken c.2 ∧ key ∉ results.reduceOption
  own : ∀ t u key, held t = some key → held u = some key → t = u
  given : ∀ key ∈ results.reduceOption, key ∈ taken c.2
  distinct : results.reduceOption.Nodup

variable {results results' : List (Option K)} {c : ι → Prog κ σ ε (Option K)} {s s' : σ} {held : ι → Option K}

theorem Held.move (h : Held taken I B results (c, s) held) (hinv : I s') (hsub : ∀ key ∈ taken s, key ∈ taken s')
    {t : ι} {p' : Prog κ σ ε (Option K)} {x : Option K}
    (hfree : x = none → (∃ a, p' = ret a) ∨ Allocates taken I B p')
    (hgives : ∀ key, x = some key → Gives taken I B key p' ∧ key ∈ taken s' ∧ key ∉ results'.reduceOption ∧
      ∀ u, u ≠ t → held u ≠ some key)
    (hgiven : ∀ key ∈ results'.reduceOption,
      key ∈ results.reduceOption ∨ key ∈ taken s' ∧ ∀ u, u ≠ t → held u ≠ some key)
    (hdistinct : results'.reduceOption.Nodup) :
    Held taken I B results' (Function.update c t p', s') (Function.update held t x) := by
  refine ⟨hinv, fun u hu => ?_, fun u key hu => ?_, fun u v key hu hv => ?_, fun key hkey => ?_, hdistinct⟩
  · by_cases hut : u = t
    · subst hut
      rw [Function.update_self] at hu
      simpa using hfree hu
    · rw [Function.update_of_ne hut] at hu
      simpa [Function.update_of_ne hut] using h.free u hu
  · by_cases hut : u = t
    · subst hut
      rw [Function.update_self] at hu
      obtain ⟨hp', hmem, hnew, _⟩ := hgives key hu
      simpa using ⟨hp', hmem, hnew⟩
    · rw [Function.update_of_ne hut] at hu
      obtain ⟨hp', hmem, hnew⟩ := h.gives u key hu
      refine ⟨by simpa [Function.update_of_ne hut] using hp', hsub key hmem, fun hres => ?_⟩
      rcases hgiven key hres with hold | ⟨_, hother⟩
      · exact hnew hold
      · exact hother u hut hu
  · by_cases hut : u = t
    · by_cases hvt : v = t
      · rw [hut, hvt]
      · subst hut
        rw [Function.update_self] at hu
        rw [Function.update_of_ne hvt] at hv
        exact absurd hv ((hgives key hu).2.2.2 v hvt)
    · by_cases hvt : v = t
      · subst hvt
        rw [Function.update_self] at hv
        rw [Function.update_of_ne hut] at hu
        exact absurd hu ((hgives key hv).2.2.2 u hut)
      · rw [Function.update_of_ne hut] at hu
        rw [Function.update_of_ne hvt] at hv
        exact h.own u v key hu hv
  · rcases hgiven key hkey with hold | ⟨hmem, _⟩
    · exact hsub key (h.given key hold)
    · exact hmem

theorem reduceOption_append_none (results : List (Option K)) (p' : Prog κ σ ε (Option K))
    (hp' : ∀ a, p' = ret a → a = none) :
    (results ++ p'.value?.toList).reduceOption = results.reduceOption := by
  cases p' with
  | ret a =>
    rw [hp' a rfl]
    simp [value?, List.reduceOption]
  | raise e => simp [value?]
  | step l f k r => simp [value?]

/-- A thread that has just taken a key, or goes on holding it. -/
theorem Held.settle (h : Held taken I B results (c, s) held) (hinv : I s') (hsub : ∀ key ∈ taken s, key ∈ taken s')
    {t : ι} {p' : Prog κ σ ε (Option K)} {key : K} (hgives : Gives taken I B key p') (hmem : key ∈ taken s')
    (hnew : key ∉ results.reduceOption) (hother : ∀ u, u ≠ t → held u ≠ some key) :
    ∃ held', Held taken I B (results ++ p'.value?.toList) (Function.update c t p', s') held' := by
  have hkeep : (∀ a, p' ≠ ret a) →
      Held taken I B (results ++ p'.value?.toList) (Function.update c t p', s')
        (Function.update held t (some key)) := by
    intro hnot
    have hres := reduceOption_append_none results p' fun a ha => absurd ha (hnot a)
    refine h.move hinv hsub (fun hnone => by cases hnone) (fun key' hkey' => ?_) (fun key' hkey' => ?_) ?_
    · cases hkey'
      rw [hres]
      exact ⟨hgives, hmem, hnew, hother⟩
    · rw [hres] at hkey'
      exact .inl hkey'
    · rw [hres]
      exact h.distinct
  cases p' with
  | raise e => exact ⟨_, hkeep fun a ha => by cases ha⟩
  | step l f k r => exact ⟨_, hkeep fun a ha => by cases ha⟩
  | ret a =>
    obtain rfl : a = some key := hgives
    have hres : (results ++ (ret (some key) : Prog κ σ ε (Option K)).value?.toList).reduceOption =
        results.reduceOption ++ [key] := by
      simp [value?, List.reduceOption]
    refine ⟨_, h.move (x := none) hinv hsub (fun _ => .inl ⟨_, rfl⟩) (fun key' hkey' => by cases hkey')
      (fun key' hkey' => ?_) ?_⟩
    · rw [hres] at hkey'
      rcases List.mem_append.1 hkey' with hold | hkey'
      · exact .inl hold
      · rw [List.mem_singleton.1 hkey']
        exact .inr ⟨hmem, hother⟩
    · rw [hres]
      exact List.Nodup.append h.distinct (List.nodup_singleton _) (by simpa using hnew)

variable {R₀ : σ → σ → Prop} {calls : ι → Prog κ σ ε (Option K) → σ → Prop}

theorem Held.step (h : Held taken I B results (c, s) held) {t : ι} {p' : Prog κ σ ε (Option K)}
    (hstep : Step Env.calm (c t, s) (p', s')) :
    ∃ held', Held taken I B (results ++ p'.value?.toList) (Function.update c t p', s') held' := by
  have hfree : held t = none → (∃ a, c t = ret a) ∨ Allocates taken I B (c t) := h.free t
  have hgives : ∀ key, held t = some key → Gives taken I B key (c t) ∧ key ∈ taken s ∧ key ∉ results.reduceOption :=
    h.gives t
  generalize c t = p at hstep hfree hgives
  cases hstep with
  | fault hfault => exact absurd hfault id
  | @ok l f k r hallow =>
    cases hheld : held t with
    | some key =>
      obtain ⟨hp, hmem, hnew⟩ := hgives key hheld
      obtain ⟨hinv, hsame, hnext⟩ := hp s h.inv hmem
      have hother : ∀ u, u ≠ t → held u ≠ some key := fun u hut hu => hut (h.own u t key hu hheld)
      exact h.settle hinv (by rw [hsame]; exact fun _ h => h) hnext (by rwa [hsame]) hnew hother
    | none =>
      rcases hfree hheld with ⟨a, ha⟩ | hp
      · cases ha
      · obtain ⟨hinv, ⟨hsame, hnext⟩ | ⟨key, hnew, htaken, hnext⟩⟩ := hp s h.inv
        · have hres := reduceOption_append_none results (k s) fun a ha => by
            rw [ha] at hnext
            exact hnext
          refine ⟨_, h.move (x := none) hinv (by rw [hsame]; exact fun _ h => h) (fun _ => .inr hnext)
            (fun key hkey => by cases hkey) (fun key hkey => ?_) ?_⟩
          · rw [hres] at hkey
            exact .inl hkey
          · rw [hres]
            exact h.distinct
        · refine h.settle hinv (by rw [htaken]; exact fun _ h => List.mem_append_left _ h) hnext (by simp [htaken])
            (fun hres => hnew (h.given key hres)) fun u _ hu => hnew (h.gives u key hu).2.1

/-- **Allocation.** In every run of threads that allocate, the invariant holds, no key is given twice, and no
exception is raised but those in `B`. -/
theorem PoolRun.distinct (hR₀ : ∀ s s', R₀ s s' → I s → I s' ∧ taken s' = taken s)
    (hcalls : ∀ t p s, calls t p s → Allocates taken I B p) {s₀ : σ} (hs₀ : I s₀)
    {d : (ι → Prog κ σ ε (Option K)) × σ}
    (hrun : PoolRun Env.calm R₀ calls (fun _ => ret none, s₀) results d) :
    I d.2 ∧ results.reduceOption.Nodup ∧ ∀ t e, d.1 t = raise e → B e := by
  have hheld : ∃ held, Held taken I B results d held := by
    induction hrun with
    | start =>
      exact ⟨fun _ => none, hs₀, fun _ _ => .inl ⟨none, rfl⟩, by simp, by simp, by simp [List.reduceOption],
        by simp [List.reduceOption]⟩
    | step _ hstep ih =>
      obtain ⟨held, h⟩ := ih
      exact h.step hstep
    | call _ hcall ih =>
      obtain ⟨held, h⟩ := ih
      exact ⟨_, h.move (x := none) h.inv (fun _ h => h) (fun _ => .inr (hcalls _ _ _ hcall))
        (fun key hkey => by cases hkey) (fun _ hkey => .inl hkey) h.distinct⟩
    | around _ hmove ih =>
      obtain ⟨held, h⟩ := ih
      obtain ⟨hinv, hsame⟩ := hR₀ _ _ hmove h.inv
      refine ⟨held, hinv, h.free, fun t key hkey => ?_, h.own, fun key hkey => ?_, h.distinct⟩
      · obtain ⟨hp, hmem, hnew⟩ := h.gives t key hkey
        exact ⟨hp, hsame ▸ hmem, hnew⟩
      · exact hsame ▸ h.given key hkey
  obtain ⟨held, h⟩ := hheld
  refine ⟨h.inv, h.distinct, fun t e ht => ?_⟩
  cases hkey : held t with
  | some key =>
    have hp := (h.gives t key hkey).1
    rw [ht] at hp
    exact hp
  | none =>
    rcases h.free t hkey with ⟨a, ha⟩ | hp
    · rw [ht] at ha
      cases ha
    · rw [ht] at hp
      exact hp

end

end Prog
