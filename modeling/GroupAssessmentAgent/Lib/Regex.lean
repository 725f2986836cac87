import Mathlib.Data.List.Basic
import Mathlib.Data.List.Forall2
import Mathlib.Data.List.TakeWhile

/-!
# Backtracking regular expressions

The part of a backtracking matcher that simple patterns need: character classes, sequence, alternation, greedy,
lazy and bounded repetition of a class, groups, back-references, and the assertions `\b`, `^`, `$`.
`Re.go r c` lists the points where a match of `r` started at `c` can end, in the order in which a backtracking
matcher tries them, so its head is the match such a matcher reports. On top of it stand `matchAt` (anchored),
`search` (leftmost), `findAll` (all matches, left to right, without overlap), `sub` and `split`.

The lemmas compute matches of patterns: `go_group_plus` and `go_group_upto` for a repetition that is stopped by the
character after it, `head?_greedy` for a repetition that may stop anywhere, `head?_seq` for the first way through a
sequence, `go_takes` for the characters that a pattern can take, and `scan_append_sep`: when the pattern has no use for
a separator character, the matches in `xs ++ sep :: ys` are those in `xs` followed by those in `ys`. `findAll_between`
finds a match between two separators, of a pattern that is a fixed number of classes.
-/

namespace Regex

/-- A point of the subject: the character before it, the text after it, and the groups captured so far. -/
structure Pos where
  prev : Option Char
  rest : List Char
  groups : List (Nat × List Char)
  deriving DecidableEq

inductive Re where
  | eps
  | one (p : Char → Bool)
  | seq (a b : Re)
  | alt (a b : Re)
  | star (p : Char → Bool)
  | lazy (p : Char → Bool)
  | upto (n : Nat) (p : Char → Bool)
  | group (n : Nat) (a : Re)
  | backref (n : Nat) (same : Char → Char → Bool)
  | wordB (w : Char → Bool)
  | bos
  | eos

namespace Re

/-- The literal text `s`. -/
def lit : List Char → Re
  | [] => eps
  | c :: s => seq (one (· == c)) (lit s)

def plus (p : Char → Bool) : Re := seq (one p) (star p)

def opt (a : Re) : Re := alt a eps

/-- Exactly `n` characters of the class. -/
def times : Nat → (Char → Bool) → Re
  | 0, _ => eps
  | n + 1, p => seq (one p) (times n p)

end Re

/-- Where `p*` can end, longest first. -/
def greedy (p : Char → Bool) : Option Char → List Char → List (Option Char × List Char)
  | prev, [] => [(prev, [])]
  | prev, x :: xs => if p x then greedy p (some x) xs ++ [(prev, x :: xs)] else [(prev, x :: xs)]

/-- Where `p*?` can end, shortest first. -/
def reluctant (p : Char → Bool) : Option Char → List Char → List (Option Char × List Char)
  | prev, [] => [(prev, [])]
  | prev, x :: xs => (prev, x :: xs) :: if p x then reluctant p (some x) xs else []

/-- Where `p{0,n}` can end, longest first. -/
def bounded (p : Char → Bool) : Nat → Option Char → List Char → List (Option Char × List Char)
  | 0, prev, s => [(prev, s)]
  | _ + 1, prev, [] => [(prev, [])]
  | n + 1, prev, x :: xs => if p x then bounded p n (some x) xs ++ [(prev, x :: xs)] else [(prev, x :: xs)]

/-- What is left of `s` after a prefix that is `t` up to `same`. -/
def dropSame (same : Char → Char → Bool) : Option Char → List Char → List Char → Option (Option Char × List Char)
  | prev, [], s => some (prev, s)
  | _, _ :: _, [] => none
  | _, y :: t, x :: s => if same y x then dropSame same (some x) t s else none

/-- Whether a word starts or ends between two characters. -/
def boundary (w : Char → Bool) (prev next : Option Char) : Bool :=
  prev.any w != next.any w

/-- Where a match from `c` can end, in the order a backtracking matcher tries the ways. -/
def Re.go : Re → Pos → List Pos
  | eps, c => [c]
  | one p, c =>
    match c.rest with
    | x :: xs => if p x then [{ c with prev := some x, rest := xs }] else []
    | [] => []
  | seq a b, c => (a.go c).flatMap b.go
  | alt a b, c => a.go c ++ b.go c
  | star p, c => (greedy p c.prev c.rest).map fun e => { c with prev := e.1, rest := e.2 }
  | lazy p, c => (reluctant p c.prev c.rest).map fun e => { c with prev := e.1, rest := e.2 }
  | upto n p, c => (bounded p n c.prev c.rest).map fun e => { c with prev := e.1, rest := e.2 }
  | group n a, c => (a.go c).map fun d =>
      { d with groups := (n, c.rest.take (c.rest.length - d.rest.length)) :: d.groups }
  | backref n same, c =>
    match c.groups.lookup n with
    | some t => (dropSame same c.prev t c.rest).toList.map fun e => { c with prev := e.1, rest := e.2 }
    | none => []
  | wordB w, c => if boundary w c.prev c.rest.head? then [c] else []
  | bos, c => if c.prev.isNone then [c] else []
  | eos, c => if c.rest = [] ∨ c.rest = ['\n'] then [c] else []

/-- A match: its text and its groups. -/
structure Match where
  text : List Char
  groups : List (Nat × List Char)
  deriving DecidableEq

def Match.group (m : Match) (n : Nat) : Option (List Char) := m.groups.lookup n

/-- The match of `r` at the point between `prev` and `s`. -/
def matchAt (r : Re) (prev : Option Char) (s : List Char) : Option Match :=
  (r.go ⟨prev, s, []⟩).head?.map fun d => ⟨s.take (s.length - d.rest.length), d.groups⟩

/-- Whether all of `s` is a match of `r`. -/
def fullMatch (r : Re) (s : List Char) : Bool := (r.go ⟨none, s, []⟩).any fun d => d.rest.isEmpty

/-- The leftmost match at or after the point between `prev` and `s`. -/
def searchFrom (r : Re) : Option Char → List Char → Option Match
  | prev, [] => matchAt r prev []
  | prev, x :: xs =>
    match matchAt r prev (x :: xs) with
    | some m => some m
    | none => searchFrom r (some x) xs

def search (r : Re) (s : List Char) : Option Match := searchFrom r none s

/-- The matches that start at or after a point, once the next `skip` characters are passed over. -/
def scan (r : Re) : Nat → Option Char → List Char → List Match
  | _, _, [] => []
  | skip + 1, _, x :: xs => scan r skip (some x) xs
  | 0, prev, x :: xs =>
    match matchAt r prev (x :: xs) with
    | some m => m :: scan r (m.text.length - 1) (some x) xs
    | none => scan r 0 (some x) xs

/-- All matches of a pattern that matches no empty text. -/
def findAll (r : Re) (s : List Char) : List Match := scan r 0 none s

/-- The text with every (non-empty) match replaced. -/
def subFrom (r : Re) (new : List Char) : Nat → Option Char → List Char → List Char
  | _, _, [] => []
  | skip + 1, _, x :: xs => subFrom r new skip (some x) xs
  | 0, prev, x :: xs =>
    match matchAt r prev (x :: xs) with
    | some m => new ++ subFrom r new (m.text.length - 1) (some x) xs
    | none => x :: subFrom r new 0 (some x) xs

def sub (r : Re) (new s : List Char) : List Char := subFrom r new 0 none s

/-- The pieces between the (non-empty) matches. -/
def splitFrom (r : Re) : Nat → Option Char → List Char → List Char → List (List Char)
  | _, _, piece, [] => [piece.reverse]
  | skip + 1, _, piece, x :: xs => splitFrom r skip (some x) piece xs
  | 0, prev, piece, x :: xs =>
    match matchAt r prev (x :: xs) with
    | some m => piece.reverse :: splitFrom r (m.text.length - 1) (some x) [] xs
    | none => splitFrom r 0 (some x) (x :: piece) xs

def split (r : Re) (s : List Char) : List (List Char) := splitFrom r 0 none [] s

/-! ### Computing matches -/

@[simp] theorem go_eps (c : Pos) : Re.eps.go c = [c] := rfl

theorem go_seq (a b : Re) (c : Pos) : (Re.seq a b).go c = (a.go c).flatMap b.go := rfl

theorem go_group (n : Nat) (a : Re) (c : Pos) : (Re.group n a).go c = (a.go c).map fun d =>
    { d with groups := (n, c.rest.take (c.rest.length - d.rest.length)) :: d.groups } := rfl

theorem go_wordB {w : Char → Bool} {c : Pos} (h : boundary w c.prev c.rest.head? = true) : (Re.wordB w).go c = [c] :=
  if_pos h

@[simp] theorem go_one_cons (p : Char → Bool) (prev : Option Char) (x : Char) (xs : List Char)
    (g : List (Nat × List Char)) :
    (Re.one p).go ⟨prev, x :: xs, g⟩ = if p x then [⟨some x, xs, g⟩] else [] := rfl

@[simp] theorem go_one_nil (p : Char → Bool) (prev : Option Char) (g : List (Nat × List Char)) :
    (Re.one p).go ⟨prev, [], g⟩ = [] := rfl

theorem seq_one_cons (p : Char → Bool) (b : Re) (prev : Option Char) (x : Char) (xs : List Char)
    (g : List (Nat × List Char)) :
    (Re.seq (.one p) b).go ⟨prev, x :: xs, g⟩ = if p x then b.go ⟨some x, xs, g⟩ else [] := by
  rw [go_seq, go_one_cons]
  split_ifs <;> simp

theorem seq_bos (b : Re) (s : List Char) (g : List (Nat × List Char)) :
    (Re.seq .bos b).go ⟨none, s, g⟩ = b.go ⟨none, s, g⟩ := by
  have hstart : Re.bos.go ⟨none, s, g⟩ = [⟨none, s, g⟩] := if_pos rfl
  rw [go_seq, hstart, List.flatMap_singleton]

/-- The character before the end of `s`, when `prev` stands before it. -/
def lastOf (prev : Option Char) (s : List Char) : Option Char := s.getLast?.or prev

@[simp] theorem lastOf_nil (prev : Option Char) : lastOf prev [] = prev := rfl

@[simp] theorem lastOf_cons (prev : Option Char) (x : Char) (xs : List Char) :
    lastOf prev (x :: xs) = lastOf (some x) xs := by
  cases xs with
  | nil => rfl
  | cons y ys => simp [lastOf, List.getLast?_cons]

theorem take_sub_length (xs ys : List Char) : (xs ++ ys).take ((xs ++ ys).length - ys.length) = xs := by
  simp

theorem takeWhile_word {p : Char → Bool} {word rest : List Char} (hword : ∀ x ∈ word, p x = true)
    (hrest : ∀ x ∈ rest.head?, p x = false) : (word ++ rest).takeWhile p = word := by
  rw [List.takeWhile_append_of_pos hword]
  cases rest with
  | nil => simp
  | cons y ys => simp [hrest y (by simp)]

theorem dropWhile_word {p : Char → Bool} {word rest : List Char} (hword : ∀ x ∈ word, p x = true)
    (hrest : ∀ x ∈ rest.head?, p x = false) : (word ++ rest).dropWhile p = rest := by
  rw [List.dropWhile_append_of_pos hword]
  cases rest with
  | nil => rfl
  | cons y ys => simp [hrest y (by simp)]

theorem go_lit (s : List Char) (prev : Option Char) (t : List Char) (g : List (Nat × List Char)) :
    (Re.lit s).go ⟨prev, s ++ t, g⟩ = [⟨lastOf prev s, t, g⟩] := by
  induction s generalizing prev with
  | nil => rfl
  | cons x s ih => simp [Re.lit, seq_one_cons, ih]

theorem go_times {p : Char → Bool} {word : List Char} {n : Nat} (hn : word.length = n) (hword : ∀ x ∈ word, p x = true)
    (prev : Option Char) (t : List Char) (g : List (Nat × List Char)) :
    (Re.times n p).go ⟨prev, word ++ t, g⟩ = [⟨lastOf prev word, t, g⟩] := by
  subst hn
  induction word generalizing prev with
  | nil => rfl
  | cons x word ih =>
    have hx : p x = true := hword x List.mem_cons_self
    rw [List.cons_append, List.length_cons, Re.times, seq_one_cons, if_pos hx,
      ih (fun y hy => hword y (List.mem_cons_of_mem x hy)), lastOf_cons]

theorem go_star_stop {p : Char → Bool} {x : Char} (hx : p x = false) (prev : Option Char) (xs : List Char)
    (g : List (Nat × List Char)) : (Re.star p).go ⟨prev, x :: xs, g⟩ = [⟨prev, x :: xs, g⟩] := by
  simp [Re.go, greedy, hx]

/-- A repetition followed by what cannot begin with a character of its class: it takes all it can, and backtracking
never helps. -/
theorem greedy_flatMap {α : Type} {p : Char → Bool} {k : Option Char × List Char → List α}
    (hk : ∀ prev x xs, p x = true → k (prev, x :: xs) = []) (prev : Option Char) (s : List Char) :
    (greedy p prev s).flatMap k = k (lastOf prev (s.takeWhile p), s.dropWhile p) := by
  induction s generalizing prev with
  | nil => simp [greedy]
  | cons x xs ih =>
    rw [greedy]
    by_cases hx : p x = true
    · rw [if_pos hx, List.flatMap_append, ih, List.flatMap_singleton, hk prev x xs hx, List.append_nil,
        List.takeWhile_cons_of_pos hx, List.dropWhile_cons_of_pos hx, lastOf_cons]
    · simp [hx]

theorem plus_flatMap {α : Type} {p : Char → Bool} {k : Pos → List α}
    (hk : ∀ prev x xs g, p x = true → k ⟨prev, x :: xs, g⟩ = []) {word : List Char} (hne : word ≠ [])
    (hword : ∀ x ∈ word, p x = true) {rest : List Char} (hrest : ∀ x ∈ rest.head?, p x = false) (prev : Option Char)
    (g : List (Nat × List Char)) :
    ((Re.plus p).go ⟨prev, word ++ rest, g⟩).flatMap k = k ⟨lastOf prev word, rest, g⟩ := by
  obtain ⟨x, xs, rfl⟩ := List.exists_cons_of_ne_nil hne
  have hx : p x = true := hword x List.mem_cons_self
  have hxs : ∀ y ∈ xs, p y = true := fun y hy => hword y (List.mem_cons_of_mem x hy)
  rw [List.cons_append, Re.plus, seq_one_cons, if_pos hx, Re.go, List.flatMap_map,
    greedy_flatMap (fun prev y ys hy => hk prev y ys g hy), takeWhile_word hxs hrest, dropWhile_word hxs hrest,
    lastOf_cons]

theorem go_group_plus {p : Char → Bool} {b : Re} (hb : ∀ prev x xs g, p x = true → b.go ⟨prev, x :: xs, g⟩ = [])
    {n : Nat} {word : List Char} (hne : word ≠ []) (hword : ∀ x ∈ word, p x = true) {rest : List Char}
    (hrest : ∀ x ∈ rest.head?, p x = false) (prev : Option Char) (g : List (Nat × List Char)) :
    (Re.seq (.group n (.plus p)) b).go ⟨prev, word ++ rest, g⟩ = b.go ⟨lastOf prev word, rest, (n, word) :: g⟩ := by
  rw [go_seq, go_group, List.flatMap_map]
  refine (plus_flatMap ?_ hne hword hrest prev g).trans ?_
  · exact fun prev x xs _ hx => hb prev x xs _ hx
  · simp only [take_sub_length]

theorem go_plus {p : Char → Bool} {b : Re} (hb : ∀ prev x xs g, p x = true → b.go ⟨prev, x :: xs, g⟩ = [])
    {word : List Char} (hne : word ≠ []) (hword : ∀ x ∈ word, p x = true) {rest : List Char}
    (hrest : ∀ x ∈ rest.head?, p x = false) (prev : Option Char) (g : List (Nat × List Char)) :
    (Re.seq (.plus p) b).go ⟨prev, word ++ rest, g⟩ = b.go ⟨lastOf prev word, rest, g⟩ := by
  rw [go_seq, plus_flatMap hb hne hword hrest]

theorem bounded_flatMap {α : Type} {p : Char → Bool} {k : Option Char × List Char → List α}
    (hk : ∀ prev x xs, p x = true → k (prev, x :: xs) = []) {word rest : List Char} (hword : ∀ x ∈ word, p x = true)
    (hrest : ∀ x ∈ rest.head?, p x = false) {n : Nat} (hn : word.length ≤ n) (prev : Option Char) :
    (bounded p n prev (word ++ rest)).flatMap k = k (lastOf prev word, rest) := by
  induction word generalizing n prev with
  | nil =>
    have hstop : bounded p n prev rest = [(prev, rest)] := by
      cases n with
      | zero => rfl
      | succ n =>
        cases rest with
        | nil => rfl
        | cons y ys => simp [bounded, hrest y (by simp)]
    rw [List.nil_append, hstop, List.flatMap_singleton, lastOf_nil]
  | cons x word ih =>
    have hx : p x = true := hword x List.mem_cons_self
    obtain ⟨m, rfl⟩ : ∃ m, n = m + 1 := ⟨n - 1, by rw [List.length_cons] at hn; omega⟩
    have hm : word.length ≤ m := by simpa using hn
    rw [List.cons_append, bounded, if_pos hx, List.flatMap_append,
      ih (fun y hy => hword y (List.mem_cons_of_mem x hy)) hm, List.flatMap_singleton, hk prev x _ hx, List.append_nil,
      lastOf_cons]

theorem go_group_upto {p : Char → Bool} {b : Re} (hb : ∀ prev x xs g, p x = true → b.go ⟨prev, x :: xs, g⟩ = [])
    {k n : Nat} {word : List Char} (hne : word ≠ []) (hn : word.length ≤ n + 1) (hword : ∀ x ∈ word, p x = true)
    {rest : List Char} (hrest : ∀ x ∈ rest.head?, p x = false) (prev : Option Char) (g : List (Nat × List Char)) :
    (Re.seq (.group k (.seq (.one p) (.upto n p))) b).go ⟨prev, word ++ rest, g⟩ =
      b.go ⟨lastOf prev word, rest, (k, word) :: g⟩ := by
  obtain ⟨x, xs, rfl⟩ := List.exists_cons_of_ne_nil hne
  have hx : p x = true := hword x List.mem_cons_self
  have hxs : ∀ y ∈ xs, p y = true := fun y hy => hword y (List.mem_cons_of_mem x hy)
  have hlen : xs.length ≤ n := by simpa using hn
  rw [go_seq, go_group, List.flatMap_map, List.cons_append, seq_one_cons, if_pos hx, Re.go, List.flatMap_map,
    bounded_flatMap (fun prev y ys hy => hb prev y ys _ hy) hxs hrest hlen, ← List.cons_append, take_sub_length,
    lastOf_cons]

theorem findAll_front {r : Re} {word rest : List Char} (hne : word ≠ [])
    (h : matchAt r none (word ++ rest) = some ⟨word, []⟩) : ∃ ms, findAll r (word ++ rest) = ⟨word, []⟩ :: ms := by
  obtain ⟨x, xs, rfl⟩ := List.exists_cons_of_ne_nil hne
  refine ⟨scan r ((x :: xs).length - 1) (some x) (xs ++ rest), ?_⟩
  rw [findAll, List.cons_append, scan, ← List.cons_append, h]

theorem head?_greedy (p : Char → Bool) (prev : Option Char) (s : List Char) :
    (greedy p prev s).head? = some (lastOf prev (s.takeWhile p), s.dropWhile p) := by
  induction s generalizing prev with
  | nil => rfl
  | cons x xs ih =>
    rw [greedy]
    by_cases hx : p x = true
    · have hne : greedy p (some x) xs ≠ [] := by
        intro h
        have := ih (some x)
        simp [h] at this
      simp [hx, ih, List.head?_append_of_ne_nil _ hne]
    · simp [hx]

theorem head?_plus {p : Char → Bool} {word rest : List Char} (hne : word ≠ []) (hword : ∀ x ∈ word, p x = true)
    (hrest : ∀ x ∈ rest.head?, p x = false) (prev : Option Char) (g : List (Nat × List Char)) :
    ((Re.plus p).go ⟨prev, word ++ rest, g⟩).head? = some ⟨lastOf prev word, rest, g⟩ := by
  obtain ⟨x, xs, rfl⟩ := List.exists_cons_of_ne_nil hne
  have hx : p x = true := hword x List.mem_cons_self
  have hxs : ∀ y ∈ xs, p y = true := fun y hy => hword y (List.mem_cons_of_mem x hy)
  rw [List.cons_append, Re.plus, seq_one_cons, if_pos hx, Re.go, List.head?_map, head?_greedy,
    takeWhile_word hxs hrest, dropWhile_word hxs hrest]
  simp

/-- The first way through a sequence: the first way through its first part, and from there the first of the second. -/
theorem head?_seq {a b : Re} {c d e : Pos} (hd : (a.go c).head? = some d) (he : (b.go d).head? = some e) :
    ((Re.seq a b).go c).head? = some e := by
  obtain ⟨ds, hds⟩ := List.head?_eq_some_iff.1 hd
  rw [go_seq, hds, List.flatMap_cons, List.head?_append, he, Option.some_or]

theorem head?_star_all {p : Char → Bool} {word : List Char} (hword : ∀ x ∈ word, p x = true) (prev : Option Char)
    (g : List (Nat × List Char)) : ((Re.star p).go ⟨prev, word, g⟩).head? = some ⟨lastOf prev word, [], g⟩ := by
  rw [Re.go, List.head?_map, head?_greedy, List.takeWhile_eq_self_iff.2 hword, List.dropWhile_eq_nil_iff.2 hword,
    Option.map_some]

theorem head?_group {n : Nat} {a : Re} {c d : Pos} (hd : (a.go c).head? = some d) :
    ((Re.group n a).go c).head? =
      some { d with groups := (n, c.rest.take (c.rest.length - d.rest.length)) :: d.groups } := by
  rw [go_group, List.head?_map, hd, Option.map_some]

theorem matchAt_of_head? {r : Re} {prev : Option Char} {s : List Char} {d : Pos}
    (h : (r.go ⟨prev, s, []⟩).head? = some d) :
    matchAt r prev s = some ⟨s.take (s.length - d.rest.length), d.groups⟩ := by
  rw [matchAt, h, Option.map_some]

/-! ### The characters of a match -/

/-- The pattern takes characters of `P` only, and none by a back-reference. -/
def Re.Takes (P : Char → Prop) : Re → Prop
  | eps => True
  | one p => ∀ x, p x = true → P x
  | seq a b => a.Takes P ∧ b.Takes P
  | alt a b => a.Takes P ∧ b.Takes P
  | star p => ∀ x, p x = true → P x
  | lazy p => ∀ x, p x = true → P x
  | upto _ p => ∀ x, p x = true → P x
  | group _ a => a.Takes P
  | backref _ _ => False
  | wordB _ => True
  | bos => True
  | eos => True

section Takes
variable {P : Char → Prop}

/-- From `s` to `t`, characters of `P` only. -/
def Taken (P : Char → Prop) (s t : List Char) : Prop := ∃ w, s = w ++ t ∧ ∀ x ∈ w, P x

theorem Taken.refl (s : List Char) : Taken P s s := ⟨[], rfl, by simp⟩

theorem Taken.trans {s t u : List Char} (h : Taken P s t) (h' : Taken P t u) : Taken P s u := by
  obtain ⟨w, rfl, hw⟩ := h
  obtain ⟨w', rfl, hw'⟩ := h'
  refine ⟨w ++ w', by simp, fun x hx => ?_⟩
  rcases List.mem_append.1 hx with hx | hx
  · exact hw x hx
  · exact hw' x hx

theorem Taken.cons {x : Char} (hx : P x) {s t : List Char} (h : Taken P s t) : Taken P (x :: s) t := by
  obtain ⟨w, rfl, hw⟩ := h
  exact ⟨x :: w, rfl, List.forall_mem_cons.2 ⟨hx, hw⟩⟩

theorem taken_greedy {p : Char → Bool} (hp : ∀ x, p x = true → P x) {prev : Option Char} {s : List Char}
    {e : Option Char × List Char} (he : e ∈ greedy p prev s) : Taken P s e.2 := by
  induction s generalizing prev with
  | nil =>
    obtain rfl : e = (prev, []) := by simpa [greedy] using he
    exact .refl _
  | cons x xs ih =>
    rw [greedy] at he
    split_ifs at he with hx
    · rcases List.mem_append.1 he with he | he
      · exact (ih he).cons (hp x hx)
      · obtain rfl := List.mem_singleton.1 he
        exact .refl _
    · obtain rfl := List.mem_singleton.1 he
      exact .refl _

theorem taken_reluctant {p : Char → Bool} (hp : ∀ x, p x = true → P x) {prev : Option Char} {s : List Char}
    {e : Option Char × List Char} (he : e ∈ reluctant p prev s) : Taken P s e.2 := by
  induction s generalizing prev with
  | nil =>
    obtain rfl : e = (prev, []) := by simpa [reluctant] using he
    exact .refl _
  | cons x xs ih =>
    rw [reluctant, List.mem_cons] at he
    rcases he with rfl | he
    · exact .refl _
    · split_ifs at he with hx
      · exact (ih he).cons (hp x hx)
      · cases he

theorem taken_bounded {p : Char → Bool} (hp : ∀ x, p x = true → P x) {n : Nat} {prev : Option Char} {s : List Char}
    {e : Option Char × List Char} (he : e ∈ bounded p n prev s) : Taken P s e.2 := by
  induction n generalizing prev s with
  | zero =>
    obtain rfl : e = (prev, s) := by simpa [bounded] using he
    exact .refl _
  | succ n ih =>
    cases s with
    | nil =>
      obtain rfl : e = (prev, []) := by simpa [bounded] using he
      exact .refl _
    | cons x xs =>
      rw [bounded] at he
      split_ifs at he with hx
      · rcases List.mem_append.1 he with he | he
        · exact (ih he).cons (hp x hx)
        · obtain rfl := List.mem_singleton.1 he
          exact .refl _
      · obtain rfl := List.mem_singleton.1 he
        exact .refl _

theorem taken_test {q : Prop} [Decidable q] {c d : Pos} (hd : d ∈ if q then [c] else []) : Taken P c.rest d.rest := by
  split_ifs at hd
  · obtain rfl := List.mem_singleton.1 hd
    exact .refl _
  · cases hd

theorem go_takes {r : Re} (hr : r.Takes P) {c d : Pos} (hd : d ∈ r.go c) : Taken P c.rest d.rest := by
  induction r generalizing c d with
  | eps =>
    obtain rfl := List.mem_singleton.1 hd
    exact .refl _
  | one p =>
    obtain ⟨prev, rest, g⟩ := c
    cases rest with
    | nil => cases hd
    | cons x xs =>
      rw [go_one_cons] at hd
      split_ifs at hd with hx
      · obtain rfl := List.mem_singleton.1 hd
        exact (Taken.refl xs).cons (hr x hx)
      · cases hd
  | seq a b iha ihb =>
    obtain ⟨e, he, hd⟩ := List.mem_flatMap.1 hd
    exact (iha hr.1 he).trans (ihb hr.2 hd)
  | alt a b iha ihb =>
    rcases List.mem_append.1 hd with hd | hd
    · exact iha hr.1 hd
    · exact ihb hr.2 hd
  | star p =>
    obtain ⟨e, he, rfl⟩ := List.mem_map.1 hd
    exact taken_greedy hr he
  | lazy p =>
    obtain ⟨e, he, rfl⟩ := List.mem_map.1 hd
    exact taken_reluctant hr he
  | upto n p =>
    obtain ⟨e, he, rfl⟩ := List.mem_map.1 hd
    exact taken_bounded hr he
  | group n a ih =>
    obtain ⟨e, he, rfl⟩ := List.mem_map.1 hd
    show Taken P c.rest e.rest
    exact ih hr he
  | backref n same => exact absurd hr id
  | wordB w => exact taken_test hd
  | bos => exact taken_test hd
  | eos => exact taken_test hd

end Takes

/-- The pattern ends with `$`. -/
def Re.Ends : Re → Prop
  | seq _ b => b.Ends
  | eos => True
  | _ => False

theorem go_ends {r : Re} (hr : r.Ends) {c d : Pos} (hd : d ∈ r.go c) : d.rest = [] ∨ d.rest = ['\n'] := by
  induction r generalizing c with
  | seq a b _ ihb =>
    obtain ⟨e, _, hd⟩ := List.mem_flatMap.1 hd
    exact ihb hr hd
  | eos =>
    rw [Re.go] at hd
    split_ifs at hd with hend
    · obtain rfl := List.mem_singleton.1 hd
      exact hend
    · cases hd
  | _ => exact absurd hr id

/-! ### Separators -/

/-- The pattern never takes the character `sep`, nor looks whether the text ends. -/
def Re.Avoids (sep : Char) : Re → Prop
  | eps => True
  | one p => p sep = false
  | seq a b => a.Avoids sep ∧ b.Avoids sep
  | alt a b => a.Avoids sep ∧ b.Avoids sep
  | star p => p sep = false
  | lazy p => p sep = false
  | upto _ p => p sep = false
  | group _ a => a.Avoids sep
  | backref _ _ => False
  | wordB w => w sep = false
  | bos => True
  | eos => False

theorem avoids_lit {sep : Char} {s : List Char} (h : sep ∉ s) : (Re.lit s).Avoids sep := by
  induction s with
  | nil => trivial
  | cons x s ih =>
    rw [List.mem_cons, not_or] at h
    exact ⟨beq_eq_false_iff_ne.2 h.1, ih h.2⟩

section Sep
variable {sep : Char} {ys : List Char}

/-- The same point, with more text behind. -/
def Pos.extend (c : Pos) (t : List Char) : Pos := { c with rest := c.rest ++ t }

theorem greedy_sep {p : Char → Bool} (hp : p sep = false) (prev : Option Char) (xs : List Char) :
    greedy p prev (xs ++ sep :: ys) = (greedy p prev xs).map fun e => (e.1, e.2 ++ sep :: ys) := by
  induction xs generalizing prev with
  | nil => simp [greedy, hp]
  | cons x xs ih =>
    simp only [List.cons_append, greedy]
    split_ifs <;> simp [ih]

theorem reluctant_sep {p : Char → Bool} (hp : p sep = false) (prev : Option Char) (xs : List Char) :
    reluctant p prev (xs ++ sep :: ys) = (reluctant p prev xs).map fun e => (e.1, e.2 ++ sep :: ys) := by
  induction xs generalizing prev with
  | nil => simp [reluctant, hp]
  | cons x xs ih =>
    simp only [List.cons_append, reluctant]
    split_ifs <;> simp [ih]

theorem bounded_sep {p : Char → Bool} (hp : p sep = false) (n : Nat) (prev : Option Char) (xs : List Char) :
    bounded p n prev (xs ++ sep :: ys) = (bounded p n prev xs).map fun e => (e.1, e.2 ++ sep :: ys) := by
  induction n generalizing prev xs with
  | zero => simp [bounded]
  | succ n ih =>
    cases xs with
    | nil => simp [bounded, hp]
    | cons x xs =>
      simp only [List.cons_append, bounded]
      split_ifs <;> simp [ih]

variable (ys) in
/-- A pattern that avoids the separator matches before it as if the text ended there. -/
theorem go_sep {r : Re} (hr : r.Avoids sep) (c : Pos) :
    r.go (c.extend (sep :: ys)) = (r.go c).map (·.extend (sep :: ys)) := by
  induction r generalizing c with
  | eps => rfl
  | one p =>
    obtain ⟨prev, rest, g⟩ := c
    cases rest with
    | nil =>
      have hp : p sep = false := hr
      simp [Pos.extend, Re.go, hp]
    | cons x xs =>
      simp only [Pos.extend, List.cons_append, Re.go]
      split_ifs <;> rfl
  | seq a b iha ihb =>
    simp only [Re.go, iha hr.1, List.flatMap_map, List.map_flatMap, ihb hr.2]
  | alt a b iha ihb => simp only [Re.go, iha hr.1, ihb hr.2, List.map_append]
  | star p => simp [Re.go, Pos.extend, greedy_sep hr]
  | lazy p => simp [Re.go, Pos.extend, reluctant_sep hr]
  | upto n p => simp [Re.go, Pos.extend, bounded_sep hr]
  | group n a ih =>
    simp only [Re.go, ih hr, List.map_map]
    refine List.map_congr_left fun d _ => ?_
    have hlen : (c.rest ++ sep :: ys).length - (d.rest ++ sep :: ys).length = c.rest.length - d.rest.length := by
      simp only [List.length_append, List.length_cons]
      omega
    simp only [Function.comp, Pos.extend, hlen, List.take_append_of_le_length (Nat.sub_le _ _)]
  | backref n same => exact absurd hr id
  | wordB w =>
    have hw : w sep = false := hr
    obtain ⟨prev, rest, g⟩ := c
    cases rest with
    | nil =>
      by_cases hprev : prev.any w = true <;> simp [Re.go, Pos.extend, boundary, hw, hprev]
    | cons x xs =>
      by_cases hb : boundary w prev (some x) = true <;> simp [Re.go, Pos.extend, hb]
  | bos =>
    by_cases hprev : c.prev.isNone = true <;> simp [Re.go, Pos.extend, hprev]
  | eos => exact absurd hr id

variable (ys) in
theorem matchAt_sep {r : Re} (hr : r.Avoids sep) (prev : Option Char) (xs : List Char) :
    matchAt r prev (xs ++ sep :: ys) = matchAt r prev xs := by
  have hgo := go_sep ys hr ⟨prev, xs, []⟩
  simp only [Pos.extend] at hgo
  rw [matchAt, matchAt, hgo, List.head?_map, Option.map_map]
  congr 1
  funext d
  have hlen : (xs ++ sep :: ys).length - (d.rest ++ sep :: ys).length = xs.length - d.rest.length := by
    simp only [List.length_append, List.length_cons]
    omega
  simp only [Function.comp, hlen, List.take_append_of_le_length (Nat.sub_le _ _)]

theorem matchAt_length_le {r : Re} {prev : Option Char} {s : List Char} {m : Match} (h : matchAt r prev s = some m) :
    m.text.length ≤ s.length := by
  rw [matchAt, Option.map_eq_some_iff] at h
  obtain ⟨d, _, rfl⟩ := h
  simp

/-- **Scanning past a separator.** A pattern that avoids `sep`, and matches nothing at `sep`, finds in
`xs ++ sep :: ys` what it finds in `xs` and then what it finds in `ys`. -/
theorem scan_append_sep {r : Re} (hr : r.Avoids sep) (hempty : ∀ prev, matchAt r prev [] = none)
    (xs : List Char) : ∀ (skip : Nat) (prev : Option Char), skip ≤ xs.length →
      scan r skip prev (xs ++ sep :: ys) = scan r skip prev xs ++ scan r 0 (some sep) ys := by
  induction xs with
  | nil =>
    intro skip prev hskip
    obtain rfl : skip = 0 := by simpa using hskip
    have hsep : matchAt r prev (sep :: ys) = none := by
      simpa [hempty] using matchAt_sep ys hr prev []
    simp [scan, hsep]
  | cons x xs ih =>
    intro skip prev hskip
    cases skip with
    | succ skip =>
      simp only [List.cons_append, scan]
      exact ih skip (some x) (by simpa using hskip)
    | zero =>
      have hm := matchAt_sep ys hr prev (x :: xs)
      rw [List.cons_append] at hm
      simp only [List.cons_append, scan, hm]
      cases hx : matchAt r prev (x :: xs) with
      | none => exact ih 0 (some x) (Nat.zero_le _)
      | some m =>
        have hle := matchAt_length_le hx
        rw [List.length_cons] at hle
        simp only [List.cons_append, List.cons.injEq, true_and]
        exact ih _ (some x) (by omega)

end Sep

theorem scan_skip (r : Re) (xs : List Char) : ∀ (prev : Option Char) (ys : List Char),
    scan r xs.length prev (xs ++ ys) = scan r 0 (lastOf prev xs) ys := by
  induction xs with
  | nil => intro prev ys; rfl
  | cons x xs ih =>
    intro prev ys
    simp only [List.length_cons, List.cons_append, scan, lastOf_cons]
    exact ih (some x) ys

/-! ### Patterns of a fixed width -/

/-- The pattern is `n` classes one after another. -/
inductive Re.Fixed : Re → Nat → Prop
  | eps : Fixed .eps 0
  | one (p : Char → Bool) : Fixed (.one p) 1
  | seq {a b : Re} {m n : Nat} : Fixed a m → Fixed b n → Fixed (.seq a b) (m + n)

theorem fixed_lit (s : List Char) : (Re.lit s).Fixed s.length := by
  induction s with
  | nil => exact .eps
  | cons x s ih =>
    rw [List.length_cons, Nat.add_comm]
    exact .seq (.one _) ih

theorem fixed_times (n : Nat) (p : Char → Bool) : (Re.times n p).Fixed n := by
  induction n with
  | zero => exact .eps
  | succ n ih =>
    have hseq := Re.Fixed.seq (.one p) ih
    rwa [Nat.add_comm] at hseq

theorem go_fixed {r : Re} {n : Nat} (hr : r.Fixed n) {c d : Pos} (hd : d ∈ r.go c) :
    c.rest.length = n + d.rest.length := by
  induction hr generalizing c d with
  | eps =>
    obtain rfl := List.mem_singleton.1 hd
    rw [Nat.zero_add]
  | one p =>
    obtain ⟨prev, rest, g⟩ := c
    cases rest with
    | nil => cases hd
    | cons x xs =>
      rw [go_one_cons] at hd
      split_ifs at hd
      · obtain rfl := List.mem_singleton.1 hd
        exact Nat.add_comm _ _
      · cases hd
  | seq _ _ iha ihb =>
    obtain ⟨e, he, hd⟩ := List.mem_flatMap.1 hd
    rw [iha he, ihb hd, Nat.add_assoc]

/-- The same text is left, with the same groups. -/
def SameRest (c d : Pos) : Prop := c.rest = d.rest ∧ c.groups = d.groups

theorem go_fixed_prev {r : Re} {n : Nat} (hr : r.Fixed n) {c d : Pos} (h : SameRest c d) :
    List.Forall₂ SameRest (r.go c) (r.go d) := by
  induction hr generalizing c d with
  | eps => exact .cons h .nil
  | one p =>
    obtain ⟨prev, rest, g⟩ := c
    obtain ⟨prev', rest', g'⟩ := d
    obtain ⟨rfl, rfl⟩ : rest = rest' ∧ g = g' := h
    cases rest with
    | nil => exact .nil
    | cons x xs =>
      rw [go_one_cons, go_one_cons]
      split_ifs
      · exact .cons ⟨rfl, rfl⟩ .nil
      · exact .nil
  | seq _ _ iha ihb => exact List.rel_flatMap (iha h) fun _ _ h => ihb h

theorem matchAt_fixed {r : Re} {n : Nat} (hr : r.Fixed n) {prev : Option Char} {s : List Char} {m : Match}
    (h : matchAt r prev s = some m) : n ≤ s.length ∧ m.text = s.take n := by
  rw [matchAt, Option.map_eq_some_iff] at h
  obtain ⟨d, hd, rfl⟩ := h
  have hlen : s.length = n + d.rest.length := go_fixed hr (List.mem_of_mem_head? hd)
  exact ⟨by omega, by rw [hlen, Nat.add_sub_cancel]⟩

theorem matchAt_fixed_prev {r : Re} {n : Nat} (hr : r.Fixed n) (prev prev' : Option Char) (s : List Char) :
    matchAt r prev s = matchAt r prev' s := by
  have hsame : List.Forall₂ SameRest (r.go ⟨prev, s, []⟩) (r.go ⟨prev', s, []⟩) := go_fixed_prev hr ⟨rfl, rfl⟩
  unfold matchAt
  generalize r.go ⟨prev, s, []⟩ = cs at hsame
  generalize r.go ⟨prev', s, []⟩ = ds at hsame
  cases hsame with
  | nil => rfl
  | cons hhead _ => simp only [List.head?_cons, Option.map_some, hhead.1, hhead.2]

theorem scan_fixed_prev {r : Re} {n : Nat} (hr : r.Fixed n) (prev prev' : Option Char) (s : List Char) :
    scan r 0 prev s = scan r 0 prev' s := by
  cases s with
  | nil => rfl
  | cons x xs => rw [scan, scan, matchAt_fixed_prev hr prev prev']

theorem scan_fullMatch {r : Re} {n : Nat} (hr : r.Fixed (n + 1)) {s : List Char} (hs : fullMatch r s = true)
    (prev : Option Char) : (scan r 0 prev s).map Match.text = [s] := by
  obtain ⟨d, hd, hrest⟩ := List.any_eq_true.1 hs
  have hlen : s.length = n + 1 + d.rest.length := go_fixed hr hd
  rw [List.isEmpty_iff.1 hrest, List.length_nil, Nat.add_zero] at hlen
  obtain ⟨m, hm⟩ : ∃ m, matchAt r none s = some m := by
    obtain ⟨e, es, he⟩ := List.exists_cons_of_ne_nil (List.ne_nil_of_mem hd)
    exact ⟨_, by rw [matchAt, he]; rfl⟩
  have htext : m.text = s := by rw [(matchAt_fixed hr hm).2, ← hlen, List.take_length]
  rw [scan_fixed_prev hr prev none]
  cases s with
  | nil => cases hlen
  | cons x xs =>
    have hrest := scan_skip r xs (some x) []
    rw [List.append_nil] at hrest
    simp only [scan, hm, List.map_cons, htext, List.length_cons, Nat.add_sub_cancel, hrest, List.map_nil]

/-- **A match between separators.** -/
theorem findAll_between {r : Re} {n : Nat} (hr : r.Fixed (n + 1)) {sep : Char} (hsep : r.Avoids sep) {s : List Char}
    (hs : fullMatch r s = true) {xs ys : List Char} (hxs : findAll r xs = []) (hys : findAll r ys = []) :
    (findAll r (xs ++ sep :: (s ++ sep :: ys))).map Match.text = [s] := by
  have hempty : ∀ prev, matchAt r prev [] = none := by
    intro prev
    rw [Option.eq_none_iff_forall_not_mem]
    intro m hm
    have hle := (matchAt_fixed hr hm).1
    rw [List.length_nil] at hle
    omega
  rw [findAll] at hxs hys ⊢
  rw [scan_append_sep hsep hempty xs 0 none (Nat.zero_le _), scan_append_sep hsep hempty s 0 (some sep) (Nat.zero_le _),
    hxs, scan_fixed_prev hr (some sep) none ys, hys, List.nil_append, List.append_nil]
  exact scan_fullMatch hr hs (some sep)

end Regex
