import Mathlib.Data.List.Nodup
import Mathlib.Data.List.Perm.Basic

/-!
# Keyed tables

`Table key`: the rows of a table in insertion order, with distinct keys. A row is added with `insert?`, which
fails on a key that is taken, or with `append`, which allots the next number; `modify` changes the row of a key
and `erase` removes it. Every operation keeps the keys distinct by construction, so `find?` reads each of them
back exactly.
-/

/-- Rows in insertion order, no two with the same key. -/
structure Table {α κ : Type} (key : α → κ) where
  rows : List α
  nodup : (rows.map key).Nodup

namespace Table
variable {α κ : Type} [DecidableEq κ] {key : α → κ}

def empty : Table key := ⟨[], List.nodup_nil⟩

def find? (t : Table key) (k : κ) : Option α := t.rows.find? fun a => key a = k

/-- The table with `a` added at its end; nothing if the key of `a` is taken. -/
def insert? (t : Table key) (a : α) : Option (Table key) :=
  if h : key a ∈ t.rows.map key then none
  else some ⟨t.rows ++ [a], by
    rw [List.map_append]
    exact t.nodup.append (List.nodup_singleton _) (by simpa using h)⟩

/-- The table with `f` applied to the row of key `k`, if there is one. -/
def modify (t : Table key) (k : κ) (f : α → α) (hf : ∀ a, key (f a) = key a) : Table key :=
  ⟨t.rows.map fun a => if key a = k then f a else a, by
    have hkeys : (t.rows.map fun a => if key a = k then f a else a).map key = t.rows.map key := by
      rw [List.map_map]
      refine List.map_congr_left fun a _ => ?_
      simp only [Function.comp]
      split_ifs
      · exact hf a
      · rfl
    rw [hkeys]
    exact t.nodup⟩

def erase (t : Table key) (k : κ) : Table key :=
  ⟨t.rows.filter fun a => key a ≠ k, (List.filter_sublist.map key).nodup t.nodup⟩

/-- The rows that `p` selects. -/
def select (t : Table key) (p : α → Bool) : Table key := ⟨t.rows.filter p, (List.filter_sublist.map key).nodup t.nodup⟩

/-- Replace the row of `a`'s key by `a`, or add `a`. -/
def upsert (t : Table key) (a : α) : Table key :=
  match h : t.insert? a with
  | some t' => t'
  | none => ⟨t.rows.map fun b => if key b = key a then a else b, by
      have hkeys : (t.rows.map fun b => if key b = key a then a else b).map key = t.rows.map key := by
        rw [List.map_map]
        refine List.map_congr_left fun b _ => ?_
        simp only [Function.comp]
        split_ifs with hb
        · exact hb.symm
        · rfl
      rw [hkeys]
      exact t.nodup⟩

/-! ### Reading back -/

theorem find?_key {t : Table key} {k : κ} {a : α} (h : t.find? k = some a) : key a = k := by
  simpa using List.find?_some h

theorem find?_mem {t : Table key} {k : κ} {a : α} (h : t.find? k = some a) : a ∈ t.rows :=
  List.mem_of_find?_eq_some h

theorem find?_eq_none {t : Table key} {k : κ} : t.find? k = none ↔ k ∉ t.rows.map key := by
  simp [find?]

theorem find?_of_mem {t : Table key} {a : α} (h : a ∈ t.rows) : t.find? (key a) = some a := by
  cases hf : t.find? (key a) with
  | none =>
    exact absurd (List.mem_map_of_mem h) (find?_eq_none.1 hf)
  | some b =>
    rw [List.inj_on_of_nodup_map t.nodup (find?_mem hf) h (find?_key hf)]

theorem find?_filter (t : Table key) (p : α → Bool) (k : κ) :
    (t.rows.filter p).find? (fun a => key a = k) = (t.find? k).filter p := by
  cases hf : (t.rows.filter p).find? (fun a => key a = k) with
  | none =>
    symm
    rw [Option.filter_eq_none_iff]
    intro a ha hp
    have hne := List.find?_eq_none.1 hf a (List.mem_filter.2 ⟨find?_mem ha, hp⟩)
    simp [find?_key ha] at hne
  | some a =>
    obtain ⟨hmem, hp⟩ := List.mem_filter.1 (List.mem_of_find?_eq_some hf)
    have hkey : key a = k := by simpa using List.find?_some hf
    rw [← hkey, find?_of_mem hmem, Option.filter_some, if_pos hp]

theorem insert?_isSome (t : Table key) (a : α) : (t.insert? a).isSome ↔ t.find? (key a) = none := by
  rw [find?_eq_none, insert?]
  split_ifs with h <;> simp [h]

theorem insert?_rows {t t' : Table key} {a : α} (h : t.insert? a = some t') : t'.rows = t.rows ++ [a] := by
  unfold insert? at h
  split_ifs at h
  cases h
  rfl

theorem insert?_eq_none {t : Table key} {a : α} (h : t.insert? a = none) : ∃ b, t.find? (key a) = some b := by
  cases hf : t.find? (key a) with
  | some b => exact ⟨b, rfl⟩
  | none =>
    have := (t.insert?_isSome a).2 hf
    simp [h] at this

theorem find?_insert? {t t' : Table key} {a : α} (h : t.insert? a = some t') (k : κ) :
    t'.find? k = if key a = k then some a else t.find? k := by
  have hnew : t.find? (key a) = none := (t.insert?_isSome a).1 (by simp [h])
  rw [find?, insert?_rows h, List.find?_append]
  split_ifs with hk
  · subst hk
    rw [find?] at hnew
    simp [hnew]
  · have hsingle : [a].find? (fun b => decide (key b = k)) = none := by simp [hk]
    rw [hsingle, Option.or_none]
    rfl

theorem find?_modify (t : Table key) (k : κ) (f : α → α) (hf : ∀ a, key (f a) = key a) (k' : κ) :
    (t.modify k f hf).find? k' = if k' = k then (t.find? k').map f else t.find? k' := by
  simp only [find?, modify]
  induction t.rows with
  | nil => simp
  | cons a rows ih =>
    simp only [List.map_cons, List.find?_cons]
    by_cases hak : key a = k
    · simp only [hak, if_true, hf]
      by_cases hk : k' = k
      · subst hk
        simp
      · simp only [Ne.symm hk, decide_false, ih, hk, if_false]
    · simp only [hak, if_false]
      by_cases hak' : key a = k'
      · have hk : k' ≠ k := fun h => hak (hak'.trans h)
        simp [hak', hk]
      · simp only [hak', decide_false, ih]

theorem find?_erase (t : Table key) (k k' : κ) : (t.erase k).find? k' = if k' = k then none else t.find? k' := by
  refine (find?_filter t _ k').trans ?_
  split_ifs with hk
  · rw [Option.filter_eq_none_iff]
    intro a ha
    simp [find?_key ha, hk]
  · cases hf : t.find? k' with
    | none => rfl
    | some a => simp [Option.filter, find?_key hf, hk]

theorem find?_upsert (t : Table key) (a : α) (k : κ) :
    (t.upsert a).find? k = if key a = k then some a else t.find? k := by
  unfold upsert
  split
  · next t' h => exact find?_insert? h k
  · next h =>
    let f : α → α := fun b => if key b = key a then a else b
    have hkey : ∀ b, key (f b) = key b := by
      intro b
      by_cases hb : key b = key a
      · simp [f, hb]
      · simp [f, hb]
    have hfind : (t.rows.map f).find? (fun b => key b = k) = (t.find? k).map f := by
      rw [List.find?_map]
      refine congrArg (Option.map f) (congrArg (fun p => t.rows.find? p) (funext fun b => ?_))
      exact congrArg (fun k' => decide (k' = k)) (hkey b)
    refine hfind.trans ?_
    split_ifs with hk
    · obtain ⟨b, hb⟩ := insert?_eq_none h
      rw [← hk, hb, Option.map_some]
      simp [f, find?_key hb]
    · cases hb : t.find? k with
      | none => rfl
      | some b =>
        have hne : ¬ k = key a := fun h => hk h.symm
        simp [f, find?_key hb, hne]

theorem map_modify {β : Type} (g : α → β) (t : Table key) (k : κ) (f : α → α) (hf : ∀ a, key (f a) = key a)
    (hg : ∀ a, g (f a) = g a) : (t.modify k f hf).rows.map g = t.rows.map g := by
  simp only [modify, List.map_map]
  refine List.map_congr_left fun a _ => ?_
  simp only [Function.comp]
  split_ifs
  · exact hg a
  · rfl

theorem filter_modify (p : α → Bool) (t : Table key) (k : κ) (f : α → α) (hf : ∀ a, key (f a) = key a)
    (hp : ∀ a, p (f a) = p a) :
    (t.modify k f hf).rows.filter p = (t.rows.filter p).map fun a => if key a = k then f a else a := by
  have hcomp : (p ∘ fun a => if key a = k then f a else a) = p := by
    funext a
    show p (if key a = k then f a else a) = p a
    split_ifs
    · exact hp a
    · rfl
  rw [modify, List.filter_map, hcomp]

/-! ### Tables numbered by an autoincrement column -/

section Auto
variable {num : α → Nat}

/-- One more than the largest number in use. -/
def next (t : Table num) : Nat := (t.rows.map num).foldr max 0 + 1

omit [DecidableEq κ] in
theorem lt_next {t : Table num} {a : α} (h : a ∈ t.rows) : num a < t.next := by
  have hle : ∀ l : List Nat, ∀ n ∈ l, n ≤ l.foldr max 0 := by
    intro l
    induction l with
    | nil => simp
    | cons m l ih =>
      intro n hn
      rcases List.mem_cons.1 hn with rfl | hn
      · exact Nat.le_max_left _ _
      · exact Nat.le_trans (ih n hn) (Nat.le_max_right _ _)
  exact Nat.lt_succ_of_le (hle _ _ (List.mem_map_of_mem h))

/-- The table with the row `mk n` added, for the next free number `n`. -/
def append (t : Table num) (mk : Nat → α) (hmk : ∀ n, num (mk n) = n) : Table num :=
  ⟨t.rows ++ [mk t.next], by
    rw [List.map_append]
    refine t.nodup.append (List.nodup_singleton _) ?_
    simp only [List.map_cons, List.map_nil, List.disjoint_singleton, List.mem_map, hmk, not_exists, not_and]
    intro a ha h
    exact absurd (lt_next ha) (by omega)⟩

theorem find?_append (t : Table num) (mk : Nat → α) (hmk : ∀ n, num (mk n) = n) (n : Nat) :
    (t.append mk hmk).find? n = if n = t.next then some (mk t.next) else t.find? n := by
  have hnew : t.find? t.next = none := by
    refine find?_eq_none.2 fun hmem => ?_
    obtain ⟨a, ha, heq⟩ := List.mem_map.1 hmem
    exact absurd (heq ▸ lt_next ha) (Nat.lt_irrefl _)
  have hfind : (t.append mk hmk).find? n = (t.find? n).or ([mk t.next].find? fun a => num a = n) :=
    List.find?_append
  rw [hfind]
  split_ifs with hn
  · simp [hn, hnew, hmk]
  · simp [hmk, Ne.symm hn]

end Auto

end Table
