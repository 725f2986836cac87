import Mathlib.Data.List.DropRight
import GroupAssessmentAgent.Lib.Regex

/-!
# Python text

Text is a list of characters. What the program asks of Python's character tables is the class `PyChars`:
lower-casing and case-folding of a whole text (both depend on context, so they are not maps of characters), and
the classes behind `\d`, `isdigit` and `\w`; its laws are the facts of those tables that the proofs use. White
space is the fixed set of `str.isspace`, which `str.strip`, `str.split` and `\s` share. `asciiChars` is an instance
that agrees with Python on ASCII text.
-/

namespace GroupAssessmentAgent

abbrev Text := List Char

instance : Coe String Text := ⟨String.toList⟩

/-- The code points of `str.isspace`. -/
def spaceCodes : List Nat :=
  [9, 10, 11, 12, 13, 28, 29, 30, 31, 32, 133, 160, 5760, 8192, 8193, 8194, 8195, 8196, 8197, 8198, 8199, 8200,
    8201, 8202, 8232, 8233, 8239, 8287, 12288]

def isSpace (c : Char) : Bool := spaceCodes.contains c.toNat

/-- `str.strip()`. -/
def strip (s : Text) : Text := (s.dropWhile isSpace).rdropWhile isSpace

/-- The line ends of `str.splitlines`, apart from the pair CR LF. -/
def isLineBreak (c : Char) : Bool := [10, 11, 12, 13, 28, 29, 30, 133, 8232, 8233].contains c.toNat

def splitlinesFrom : Text → Text → List Text
  | [], [] => []
  | cur, [] => [cur.reverse]
  | cur, '\r' :: '\n' :: s => cur.reverse :: splitlinesFrom [] s
  | cur, c :: s => if isLineBreak c then cur.reverse :: splitlinesFrom [] s else splitlinesFrom (c :: cur) s

/-- `str.splitlines()`. -/
def splitlines (s : Text) : List Text := splitlinesFrom [] s

def splitWordsFrom : Text → Text → List Text
  | [], [] => []
  | cur, [] => [cur.reverse]
  | [], c :: s => if isSpace c then splitWordsFrom [] s else splitWordsFrom [c] s
  | cur, c :: s => if isSpace c then cur.reverse :: splitWordsFrom [] s else splitWordsFrom (c :: cur) s

/-- `str.split()`. -/
def splitWords (s : Text) : List Text := splitWordsFrom [] s

/-- The texts one after another, as in an f-string. -/
def cat (parts : List Text) : Text := parts.flatten

/-- `sep.join(parts)`. -/
def join (sep : Text) (parts : List Text) : Text := sep.intercalate parts

def startsWith (s pre : Text) : Bool := pre.isPrefixOf s

def endsWith (s suf : Text) : Bool := suf.isSuffixOf s

/-- `pat in s`. -/
def contains (pat : Text) : Text → Bool
  | [] => pat.isEmpty
  | c :: s => pat.isPrefixOf (c :: s) || contains pat s

/-- `s.replace(c, d)` for single characters. -/
def replaceChar (c d : Char) (s : Text) : Text := s.map fun x => if x = c then d else x

/-- `str(n)`. -/
def natText (n : Nat) : Text := Nat.toDigits 10 n

/-- `f"{n:0{width}d}"`. -/
def padded (width n : Nat) : Text :=
  List.replicate (width - (natText n).length) '0' ++ natText n

/-- The nearest integer to `num / den`, the even one of two. -/
def roundHalfEven (num den : Nat) : Nat :=
  let q := num / den
  let r := 2 * (num % den)
  if r < den ∨ (r = den ∧ q % 2 = 0) then q else q + 1

/-- `f"{q:.{digits}f}"`. -/
def fixedText (digits : Nat) (q : Rat) : Text :=
  let scale := Nat.pow 10 digits
  let n := roundHalfEven (q.num.natAbs * scale) q.den
  cat [if q.num < 0 then "-" else "", natText (n / scale),
    if digits = 0 then "" else cat [".", padded digits (n % scale)]]

def titleFrom (letterBefore : Bool) : Text → Text
  | [] => []
  | c :: s => (if letterBefore then c.toLower else c.toUpper) :: titleFrom c.isAlpha s

/-- `str.title()`, of ASCII text. -/
def title (s : Text) : Text := titleFrom false s

/-- `x or y` for texts. -/
def orText (x y : Text) : Text := if x = [] then y else x

/-- `value if value else None`, the reading of an optional text in a condition. -/
def truthy : Option Text → Option Text
  | some [] => none
  | x => x

/-! ### Character tables -/

/-- What the program uses of Python's character tables. -/
class PyChars where
  lower : Text → Text
  casefold : Text → Text
  isDecimal : Char → Bool
  isDigit : Char → Bool
  isAlnum : Char → Bool
  lower_lower : ∀ s, lower (lower s) = lower s
  lower_toLower : ∀ s : Text, lower (s.map Char.toLower) = lower s
  lower_ascii : ∀ s : Text, (∀ c ∈ s, c.toNat < 128) → lower s = s.map Char.toLower
  filter_lower : ∀ s, (lower s).filter isSpace = s.filter isSpace
  strip_lower : ∀ s, strip (lower s) = lower (strip s)
  casefold_ascii : ∀ s : Text, (∀ c ∈ s, c.toNat < 128) → casefold s = s.map Char.toLower
  casefold_visible : ∀ s, (∃ c ∈ s, isSpace c = false) → ∃ c ∈ casefold s, isSpace c = false
  isDecimal_ascii : ∀ c : Char, c.toNat < 128 → isDecimal c = c.isDigit
  isDigit_ascii : ∀ c : Char, c.toNat < 128 → isDigit c = c.isDigit
  isAlnum_ascii : ∀ c : Char, c.toNat < 128 → isAlnum c = c.isAlphanum
  isAlnum_space : ∀ c, isSpace c = true → isAlnum c = false

export PyChars (lower casefold isDecimal isDigit isAlnum)

/-- The class `\w`. -/
def isWord [PyChars] (c : Char) : Bool := isAlnum c || c == '_'

/-- The class `[a-zA-Z]`. -/
def isLetter (c : Char) : Bool := c.isAlpha

/-! ### Letters under `re.IGNORECASE` -/

/-- The simple lower-case mapping, on the letters that meet an ASCII one. -/
def simpleLower (c : Char) : Char := if c = Char.ofNat 304 then 'i' else c.toLower

/-- Whether `x` is matched by the lower-case letter `c`: up to case, with the two further forms of `i` and `s`. -/
def sameLetter (c x : Char) : Bool :=
  simpleLower x = c || (c = 'i' && x = Char.ofNat 305) || (c = 's' && x = Char.ofNat 383)

/-- The literal `s` in lower case, matched up to case. -/
def litIgnoreCase : Text → Regex.Re
  | [] => .eps
  | c :: s => .seq (.one (sameLetter c)) (litIgnoreCase s)

/-! ### Lemmas about white space -/

theorem dropWhile_strip (s : Text) : (strip s).dropWhile isSpace = strip s := by
  rw [List.dropWhile_eq_self_iff]
  intro hpos
  have hne : s.dropWhile isSpace ≠ [] := by
    intro h
    rw [strip, h, List.rdropWhile_nil] at hpos
    exact absurd hpos (Nat.lt_irrefl 0)
  have hpre : strip s <+: s.dropWhile isSpace := List.rdropWhile_prefix isSpace _
  rw [hpre.getElem hpos, ← List.head_eq_getElem hne]
  simpa using List.head_dropWhile_not isSpace hne

theorem strip_strip (s : Text) : strip (strip s) = strip s := by
  conv_lhs => rw [strip, dropWhile_strip]
  exact List.rdropWhile_idempotent isSpace _

theorem strip_isInfix (s : Text) : strip s <:+: s :=
  (List.rdropWhile_prefix isSpace _).isInfix.trans (List.dropWhile_suffix isSpace).isInfix

theorem dropWhile_append_fixed {t : Text} (hne : t ≠ []) (ht : t.dropWhile isSpace = t) (u v : Text) :
    (u ++ (t ++ v)).dropWhile isSpace = u.dropWhile isSpace ++ (t ++ v) := by
  have htv : (t ++ v).dropWhile isSpace = t ++ v := by
    rw [List.dropWhile_append, ht, if_neg (by simpa using hne)]
  rw [List.dropWhile_append]
  split_ifs with hempty
  · rw [htv, List.isEmpty_iff.1 hempty, List.nil_append]
  · rfl

theorem rdropWhile_append_cons (s : Text) {x : Char} (hx : isSpace x = false) (t : Text) :
    (s ++ x :: t).rdropWhile isSpace = s ++ x :: t.rdropWhile isSpace := by
  have hfixed : [x].dropWhile isSpace = [x] := by simp [hx]
  have hrev : (s ++ x :: t).reverse = t.reverse ++ ([x] ++ s.reverse) := by simp
  rw [List.rdropWhile, hrev, dropWhile_append_fixed (by simp) hfixed]
  simp [List.rdropWhile]

theorem strip_rdropWhile (s : Text) : strip (s.rdropWhile isSpace) = strip s := by
  have hsplit := List.takeWhile_append_dropWhile (p := isSpace) (l := s)
  have hspaces : ∀ c ∈ s.takeWhile isSpace, isSpace c = true := fun c hc => List.mem_takeWhile_imp hc
  cases hrest : s.dropWhile isSpace with
  | nil =>
    have hall : ∀ c ∈ s, isSpace c = true := List.dropWhile_eq_nil_iff.1 hrest
    rw [List.rdropWhile_eq_nil_iff.2 hall, strip, strip, hrest, List.dropWhile_nil]
  | cons x t =>
    have hx : isSpace x = false := by
      have hhead := List.head_dropWhile_not isSpace (l := s) (by simp [hrest])
      simpa [hrest] using hhead
    have hdrop : ∀ v : Text, (s.takeWhile isSpace ++ x :: v).dropWhile isSpace = x :: v := by
      intro v
      rw [List.dropWhile_append_of_pos hspaces, List.dropWhile_cons_of_neg (by simp [hx])]
    rw [hrest] at hsplit
    conv_lhs => rw [← hsplit, rdropWhile_append_cons _ hx, strip, hdrop]
    conv_rhs => rw [strip, hrest]
    have honce := rdropWhile_append_cons [] hx
    simp only [List.nil_append] at honce
    rw [honce, honce, List.rdropWhile_idempotent isSpace t]

theorem strip_infix_of {s t : Text} (h : t <:+: s) : strip t <:+: strip s := by
  by_cases hne : strip t = []
  · rw [hne]
    exact List.nil_infix
  obtain ⟨u, v, hs⟩ := (strip_isInfix t).trans h
  have hrev : (strip t).reverse.dropWhile isSpace = (strip t).reverse := by
    have hlast : (strip t).rdropWhile isSpace = strip t := List.rdropWhile_idempotent isSpace _
    conv_rhs => rw [← hlast, List.rdropWhile, List.reverse_reverse]
  have hend : ((u.dropWhile isSpace ++ (strip t ++ v)).rdropWhile isSpace) =
      u.dropWhile isSpace ++ (strip t ++ v.rdropWhile isSpace) := by
    rw [List.rdropWhile, List.reverse_append, List.reverse_append, List.append_assoc,
      dropWhile_append_fixed (by simpa using hne) hrev]
    simp [List.rdropWhile]
  refine ⟨u.dropWhile isSpace, v.rdropWhile isSpace, ?_⟩
  show _ = (s.dropWhile isSpace).rdropWhile isSpace
  rw [← hs, List.append_assoc, List.append_assoc, dropWhile_append_fixed hne (dropWhile_strip t), hend]

theorem dropWhile_append_visible {s : Text} (hs : ∃ x ∈ s, isSpace x = false) (t : Text) :
    (s ++ t).dropWhile isSpace = s.dropWhile isSpace ++ t := by
  obtain ⟨x, hx, hvisible⟩ := hs
  have hne : s.dropWhile isSpace ≠ [] := by
    intro h
    simp [List.dropWhile_eq_nil_iff.1 h x hx] at hvisible
  rw [List.dropWhile_append, if_neg (by simpa using hne)]

theorem rdropWhile_append_visible {t : Text} (ht : ∃ x ∈ t, isSpace x = false) (s : Text) :
    (s ++ t).rdropWhile isSpace = s ++ t.rdropWhile isSpace := by
  have hrev : ∃ x ∈ t.reverse, isSpace x = false := by simpa using ht
  rw [List.rdropWhile, List.reverse_append, dropWhile_append_visible hrev, List.reverse_append, List.reverse_reverse,
    List.rdropWhile]

theorem strip_ne_nil {s : Text} (hs : ∃ x ∈ s, isSpace x = false) : strip s ≠ [] := by
  obtain ⟨x, hx, hvisible⟩ := hs
  obtain ⟨u, v, rfl⟩ := List.append_of_mem hx
  intro hnil
  have hfixed : [x].dropWhile isSpace = [x] := by simp [hvisible]
  have hdrop := dropWhile_append_fixed (by simp) hfixed u v
  have hall := List.rdropWhile_eq_nil_iff.1 hnil
  rw [List.singleton_append] at hdrop
  rw [hdrop] at hall
  simp [hall x (by simp)] at hvisible

theorem strip_of_visible {s : Text} (hs : ∀ c ∈ s, isSpace c = false) : strip s = s := by
  have hdrop : s.dropWhile isSpace = s :=
    List.dropWhile_eq_self_iff.2 fun hpos => by simp [hs _ (List.getElem_mem hpos)]
  rw [strip, hdrop]
  exact List.rdropWhile_eq_self_iff.2 fun hne => by simp [hs _ (List.getLast_mem hne)]

theorem mem_strip {u v : Text} {x y : Char} (c : Char) (hx : x ∈ u) (hxs : isSpace x = false) (hy : y ∈ v)
    (hys : isSpace y = false) : c ∈ strip (u ++ c :: v) := by
  have hv : ∃ z ∈ v, isSpace z = false := ⟨y, hy, hys⟩
  rw [strip, dropWhile_append_visible ⟨x, hx, hxs⟩, ← List.singleton_append, ← List.append_assoc,
    rdropWhile_append_visible hv]
  simp

theorem flatten_splitWordsFrom (cur s : Text) :
    (splitWordsFrom cur s).flatten = cur.reverse ++ s.filter fun c => !isSpace c := by
  fun_induction splitWordsFrom cur s with
  | case1 => rfl
  | case2 cur hne => simp
  | case3 c s hspace ih => simp [ih, hspace]
  | case4 c s hspace ih => simp [ih, hspace]
  | case5 cur c s hne hspace ih => simp [ih, hspace]
  | case6 cur c s hne hspace ih => simp [ih, hspace]

theorem mem_join_of_mem (sep : Text) {parts : List Text} {part : Text} {c : Char} (hpart : part ∈ parts)
    (hc : c ∈ part) : c ∈ join sep parts := by
  induction parts with
  | nil => cases hpart
  | cons p parts ih =>
    cases parts with
    | nil =>
      obtain rfl := List.mem_singleton.1 hpart
      simpa [join] using hc
    | cons p' parts =>
      rw [join, List.intercalate_cons_cons, List.append_assoc]
      rcases List.mem_cons.1 hpart with rfl | hpart
      · exact List.mem_append_left _ hc
      · exact List.mem_append_right _ (List.mem_append_right _ (ih hpart))

theorem truthy_eq_some {v : Option Text} {s : Text} : truthy v = some s ↔ v = some s ∧ s ≠ [] := by
  cases v with
  | none => simp [truthy]
  | some t =>
    cases t with
    | nil =>
      simp only [truthy, Option.some.injEq, false_iff, not_and, not_not, reduceCtorEq]
      exact fun h => h.symm
    | cons c t =>
      simp only [truthy, Option.some.injEq]
      exact ⟨fun h => ⟨h, h ▸ List.cons_ne_nil c t⟩, fun h => h.1⟩

/-! ### Lemmas about lines -/

/-- The text has no line break. -/
def Unbroken (s : Text) : Prop := ∀ c ∈ s, isLineBreak c = false

theorem Unbroken.append {s t : Text} (hs : Unbroken s) (ht : Unbroken t) : Unbroken (s ++ t) := by
  intro c hc
  rcases List.mem_append.1 hc with hc | hc
  · exact hs c hc
  · exact ht c hc

theorem isSpace_of_isLineBreak {c : Char} (h : isLineBreak c = true) : isSpace c = true := by
  have hcodes : [10, 11, 12, 13, 28, 29, 30, 133, 8232, 8233] ⊆ spaceCodes := by decide
  rw [isLineBreak, List.contains_eq_mem, decide_eq_true_eq] at h
  rw [isSpace, List.contains_eq_mem, decide_eq_true_eq]
  exact hcodes h

theorem join_cons (sep line : Text) (lines : List Text) :
    join sep (line :: lines) = line ++ lines.flatMap (sep ++ ·) := by
  induction lines generalizing line with
  | nil => simp [join]
  | cons line' lines ih =>
    have htail := ih line'
    rw [join] at htail
    rw [join, List.intercalate_cons_cons, htail, List.flatMap_cons, List.append_assoc, List.append_assoc]

theorem splitlinesFrom_line {line : Text} (hline : Unbroken line) (cur rest : Text) :
    splitlinesFrom cur (line ++ '\n' :: rest) = (cur.reverse ++ line) :: splitlinesFrom [] rest := by
  induction line generalizing cur with
  | nil =>
    have hbreak : isLineBreak '\n' = true := by decide
    rw [List.nil_append, splitlinesFrom, if_pos hbreak, List.append_nil]
    · rintro _ ⟨⟩
  | cons c line ih =>
    have hc : isLineBreak c = false := hline c List.mem_cons_self
    have hne : c ≠ '\r' := by
      rintro rfl
      exact absurd hc (by decide)
    rw [List.cons_append, splitlinesFrom, if_neg (by simp [hc]), ih fun d hd => hline d (List.mem_cons_of_mem c hd)]
    · simp
    · intro s hs
      exact fun _ => hne hs

theorem splitlinesFrom_last {line : Text} (hline : Unbroken line) {cur : Text} (hne : cur.reverse ++ line ≠ []) :
    splitlinesFrom cur line = [cur.reverse ++ line] := by
  induction line generalizing cur with
  | nil =>
    have hcur : cur ≠ [] := by simpa using hne
    rw [splitlinesFrom, List.append_nil]
    exact hcur
  | cons c line ih =>
    have hc : isLineBreak c = false := hline c List.mem_cons_self
    have hne' : c ≠ '\r' := by
      rintro rfl
      exact absurd hc (by decide)
    rw [splitlinesFrom, if_neg (by simp [hc]), ih (fun d hd => hline d (List.mem_cons_of_mem c hd)) (by simp)]
    · simp
    · exact fun _ h => absurd h hne'

/-- **The lines of a text**, the last of which is not empty, are read back. -/
theorem splitlines_join {lines : List Text} (hlines : ∀ line ∈ lines, Unbroken line)
    (hlast : ∀ line ∈ lines.getLast?, line ≠ []) : splitlines (join "\n" lines) = lines := by
  induction lines with
  | nil => rfl
  | cons line lines ih =>
    have hline : Unbroken line := hlines line List.mem_cons_self
    cases lines with
    | nil =>
      rw [join_cons, List.flatMap_nil, List.append_nil, splitlines, splitlinesFrom_last hline]
      · rfl
      · simpa using hlast line (by simp)
    | cons line' lines =>
      have htail := ih (fun l hl => hlines l (List.mem_cons_of_mem _ hl)) (by simpa using hlast)
      rw [splitlines, join_cons] at htail
      rw [splitlines, join_cons, List.flatMap_cons, List.append_assoc]
      exact (splitlinesFrom_line hline [] _).trans (congrArg (line :: ·) htail)

/-! ### Lemmas about words -/

/-- A word of a text: it is not empty and has no white space. -/
def IsToken (s : Text) : Prop := s ≠ [] ∧ ∀ c ∈ s, isSpace c = false

theorem splitWordsFrom_append {word : Text} (hword : ∀ c ∈ word, isSpace c = false) (cur rest : Text) :
    splitWordsFrom cur (word ++ rest) = splitWordsFrom (word.reverse ++ cur) rest := by
  induction word generalizing cur with
  | nil => rfl
  | cons c word ih =>
    have hc : isSpace c = false := hword c List.mem_cons_self
    have hread : splitWordsFrom cur (c :: (word ++ rest)) = splitWordsFrom (c :: cur) (word ++ rest) := by
      cases cur <;> simp [splitWordsFrom, hc]
    rw [List.cons_append, hread, ih fun d hd => hword d (List.mem_cons_of_mem c hd)]
    simp

theorem splitWordsFrom_last {cur : Text} (hne : cur ≠ []) : splitWordsFrom cur [] = [cur.reverse] := by
  rw [splitWordsFrom]
  exact hne

theorem splitWordsFrom_space {cur : Text} (hne : cur ≠ []) (rest : Text) :
    splitWordsFrom cur (' ' :: rest) = cur.reverse :: splitWordsFrom [] rest := by
  have hspace : isSpace ' ' = true := by decide
  rw [splitWordsFrom, if_pos hspace]
  exact hne

/-- **The words of a text** are read back. -/
theorem splitWords_join {words : List Text} (hwords : ∀ word ∈ words, IsToken word) :
    splitWords (join " " words) = words := by
  induction words with
  | nil => rfl
  | cons word words ih =>
    obtain ⟨hne, hword⟩ := hwords word List.mem_cons_self
    have hcur : word.reverse ++ [] ≠ [] := by simpa using hne
    cases words with
    | nil =>
      have hread := splitWordsFrom_append hword [] []
      rw [join_cons, List.flatMap_nil, splitWords, hread, splitWordsFrom_last hcur]
      simp
    | cons word' words =>
      have htail := ih fun w hw => hwords w (List.mem_cons_of_mem word hw)
      rw [splitWords, join_cons] at htail
      rw [splitWords, join_cons, List.flatMap_cons, List.append_assoc, splitWordsFrom_append hword]
      show splitWordsFrom (word.reverse ++ []) (' ' :: (word' ++ _)) = _
      rw [splitWordsFrom_space hcur, htail]
      simp

/-! ### ASCII tables -/

theorem toLower_cases (c : Char) :
    c.toLower = c ∨ (65 ≤ c.toNat ∧ c.toNat ≤ 90 ∧ c.toLower.toNat = c.toNat + 32) := by
  unfold Char.toLower
  split_ifs with h
  · right
    have hlo : 65 ≤ c.toNat := h.1
    have hhi : c.toNat ≤ 90 := h.2
    refine ⟨hlo, hhi, ?_⟩
    show (c.val + ('a'.val - 'A'.val)).toNat = c.val.toNat + 32
    rw [UInt32.toNat_add]
    have : ('a'.val - 'A'.val).toNat = 32 := rfl
    have hval : c.val.toNat = c.toNat := rfl
    omega
  · exact .inl rfl

theorem isSpace_of_range {c : Char} (h : 33 ≤ c.toNat ∧ c.toNat ≤ 132) : isSpace c = false := by
  rw [isSpace, List.contains_eq_mem, decide_eq_false_iff_not]
  intro hmem
  simp only [spaceCodes, List.mem_cons, List.not_mem_nil, or_false] at hmem
  omega

theorem isSpace_toLower (c : Char) : isSpace c.toLower = isSpace c := by
  rcases toLower_cases c with h | ⟨hlo, hhi, h⟩
  · rw [h]
  · rw [isSpace_of_range (by omega), isSpace_of_range (by omega)]

theorem toLower_toLower (c : Char) : c.toLower.toLower = c.toLower := by
  rcases toLower_cases c with h | ⟨hlo, hhi, h⟩
  · rw [h, h]
  · rcases toLower_cases c.toLower with h' | ⟨hlo', hhi', _⟩
    · exact h'
    · omega

theorem strip_map {f : Char → Char} (hf : ∀ c, isSpace (f c) = isSpace c) (s : Text) :
    strip (s.map f) = (strip s).map f := by
  have hcomp : isSpace ∘ f = isSpace := funext hf
  simp only [strip, List.rdropWhile, List.dropWhile_map, hcomp, ← List.map_reverse]

theorem filter_map_toLower (s : Text) : (s.map Char.toLower).filter isSpace = s.filter isSpace := by
  induction s with
  | nil => rfl
  | cons c s ih =>
    simp only [List.map_cons, List.filter_cons, isSpace_toLower, ih]
    by_cases hc : isSpace c = true
    · have hfix : c.toLower = c := by
        rcases toLower_cases c with h | ⟨hlo, hhi, _⟩
        · exact h
        · simp [isSpace_of_range (c := c) (by omega)] at hc
      simp [hc, hfix]
    · simp [hc]

theorem not_alnum_of_isSpace (c : Char) (h : isSpace c = true) : c.isAlphanum = false := by
  by_contra hne
  have halnum : c.isAlphanum = true := by simpa using hne
  unfold Char.isAlphanum Char.isAlpha Char.isUpper Char.isLower Char.isDigit at halnum
  simp only [Bool.or_eq_true, Bool.and_eq_true, decide_eq_true_eq, ge_iff_le, UInt32.le_iff_toNat_le] at halnum
  have hrange : 33 ≤ c.toNat ∧ c.toNat ≤ 132 := by
    have hval : c.val.toNat = c.toNat := rfl
    have hA : 'A'.val.toNat = 65 := rfl
    have hZ : 'Z'.val.toNat = 90 := rfl
    have ha : 'a'.val.toNat = 97 := rfl
    have hz : 'z'.val.toNat = 122 := rfl
    have h0 : '0'.val.toNat = 48 := rfl
    have h9 : '9'.val.toNat = 57 := rfl
    omega
  simp [isSpace_of_range hrange] at h

/-! ### Lemmas about decimal numbers -/

theorem natText_isDigit {n : Nat} {c : Char} (h : c ∈ natText n) : c.isDigit = true :=
  Nat.isDigit_of_mem_toDigits (by decide) (by decide) h

theorem padded_isDigit {width n : Nat} {c : Char} (h : c ∈ padded width n) : c.isDigit = true := by
  rcases List.mem_append.1 h with h | h
  · rw [List.eq_of_mem_replicate h]
    rfl
  · exact natText_isDigit h

theorem ofDigitChars_padded (width n : Nat) : Nat.ofDigitChars 10 (padded width n) 0 = n := by
  rw [padded, Nat.ofDigitChars_append, Nat.ofDigitChars_replicate_zero, Nat.mul_zero]
  exact Nat.ofDigitChars_ten_toDigits

theorem padded_injective {width m n : Nat} (h : padded width m = padded width n) : m = n := by
  rw [← ofDigitChars_padded width m, h, ofDigitChars_padded]

theorem padded_length_iff {width n : Nat} (hwidth : 0 < width) :
    (padded width n).length = width ↔ n < Nat.pow 10 width := by
  have hfits : (natText n).length ≤ width ↔ n < Nat.pow 10 width := Nat.length_toDigits_le_iff (by decide) hwidth
  rw [padded, List.length_append, List.length_replicate, ← hfits]
  omega

theorem width_le_padded (width n : Nat) : width ≤ (padded width n).length := by
  rw [padded, List.length_append, List.length_replicate]
  omega

theorem isDigit_range {c : Char} (h : c.isDigit = true) : 48 ≤ c.toNat ∧ c.toNat ≤ 57 := by
  unfold Char.isDigit at h
  simp only [Bool.and_eq_true, decide_eq_true_eq, ge_iff_le, UInt32.le_iff_toNat_le] at h
  have hval : c.val.toNat = c.toNat := rfl
  have h0 : '0'.val.toNat = 48 := rfl
  have h9 : '9'.val.toNat = 57 := rfl
  omega

theorem isDigit_lt {c : Char} (h : c.isDigit = true) : c.toNat < 128 := by
  have hrange := isDigit_range h
  omega

theorem isSpace_of_isDigit {c : Char} (h : c.isDigit = true) : isSpace c = false := by
  have hrange := isDigit_range h
  exact isSpace_of_range (by omega)

theorem toLower_of_isDigit {c : Char} (h : c.isDigit = true) : c.toLower = c := by
  rcases toLower_cases c with hsame | ⟨hlo, _, _⟩
  · exact hsame
  · have hrange := isDigit_range h
    omega

theorem toUpper_of_isDigit {c : Char} (h : c.isDigit = true) : c.toUpper = c := by
  have hrange := isDigit_range h
  have hval : c.val.toNat = c.toNat := rfl
  have ha : 'a'.val.toNat = 97 := rfl
  refine dif_neg fun hlower => ?_
  have hle := UInt32.le_iff_toNat_le.1 hlower.1
  omega

theorem isDecimal_of_isDigit [PyChars] {c : Char} (h : c.isDigit = true) : isDecimal c = true := by
  rw [PyChars.isDecimal_ascii c (isDigit_lt h), h]

/-- Tables that agree with Python's on ASCII text. -/
@[reducible] def asciiChars : PyChars where
  lower s := s.map Char.toLower
  casefold s := s.map Char.toLower
  isDecimal := Char.isDigit
  isDigit := Char.isDigit
  isAlnum := Char.isAlphanum
  lower_lower s := by rw [List.map_map, Function.comp_def, funext toLower_toLower]
  lower_toLower s := by rw [List.map_map, Function.comp_def, funext toLower_toLower]
  lower_ascii _ _ := rfl
  filter_lower := filter_map_toLower
  strip_lower := strip_map isSpace_toLower
  casefold_ascii _ _ := rfl
  casefold_visible s := by
    rintro ⟨c, hc, hvisible⟩
    exact ⟨c.toLower, List.mem_map_of_mem hc, by rw [isSpace_toLower, hvisible]⟩
  isDecimal_ascii _ _ := rfl
  isDigit_ascii _ _ := rfl
  isAlnum_ascii _ _ := rfl
  isAlnum_space := not_alnum_of_isSpace

end GroupAssessmentAgent
