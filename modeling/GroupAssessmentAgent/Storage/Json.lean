import GroupAssessmentAgent.Reports.Sources

/-!
# Lists of texts as JSON

Three columns of a job, the attachments of a mail and the options of a question are lists of texts that the database
holds as JSON. `dumpTexts` is `json.dumps` of such a list, and `loadTexts` is `json.loads` of a text, where that is such a
list. A text is read in two passes: `scanUnits` up to the closing quote, one unit for a character or an escape, and
`joinUnits`, which puts the two halves of a surrogate pair together. Half a pair alone is no character, and is not read.
-/

namespace GroupAssessmentAgent

/-- `json.dumps` of a list of texts. -/
def dumpTexts (items : List Text) : Text := cat ["[", join ", " (items.map jsonText), "]"]

/-! ### `json.loads` -/

/-- A character, or a number written as `\uXXXX`. -/
inductive JsonUnit where
  | char (c : Char)
  | code (n : Nat)
  deriving DecidableEq

def hexValue (c : Char) : Option Nat :=
  if c.isDigit then some (c.toNat - 48)
  else if 97 ≤ c.toNat ∧ c.toNat ≤ 102 then some (c.toNat - 87)
  else if 65 ≤ c.toNat ∧ c.toNat ≤ 70 then some (c.toNat - 55)
  else none

/-- The number of four hexadecimal digits. -/
def hexNumber (a b c d : Char) : Option Nat := do
  let a ← hexValue a
  let b ← hexValue b
  let c ← hexValue c
  let d ← hexValue d
  return 4096 * a + 256 * b + 16 * c + d

/-- The character that a backslash and this one stand for. -/
def jsonEscape (c : Char) : Option Char :=
  if c = '"' ∨ c = '\\' ∨ c = '/' then some c
  else if c = 'b' then some (Char.ofNat 8)
  else if c = 'f' then some (Char.ofNat 12)
  else if c = 'n' then some '\n'
  else if c = 'r' then some '\r'
  else if c = 't' then some '\t'
  else none

/-- The units up to the closing quote, and what follows it. -/
def scanUnits : Text → Option (List JsonUnit × Text)
  | '"' :: rest => some ([], rest)
  | '\\' :: 'u' :: a :: b :: c :: d :: rest => do
    let n ← hexNumber a b c d
    let found ← scanUnits rest
    return (.code n :: found.1, found.2)
  | '\\' :: e :: rest => do
    let c ← jsonEscape e
    let found ← scanUnits rest
    return (.char c :: found.1, found.2)
  | c :: rest =>
    if c = '\\' ∨ c.toNat < 32 then none
    else do
      let found ← scanUnits rest
      return (.char c :: found.1, found.2)
  | [] => none

def isHighSurrogate (n : Nat) : Prop := 55296 ≤ n ∧ n ≤ 56319

instance (n : Nat) : Decidable (isHighSurrogate n) := inferInstanceAs (Decidable (_ ∧ _))

def isLowSurrogate (n : Nat) : Prop := 56320 ≤ n ∧ n ≤ 57343

instance (n : Nat) : Decidable (isLowSurrogate n) := inferInstanceAs (Decidable (_ ∧ _))

/-- The character of a code point. -/
def charOf (n : Nat) : Option Char := if n.isValidChar then some (Char.ofNat n) else none

def joinUnits : List JsonUnit → Option Text
  | [] => some []
  | .char c :: units => (joinUnits units).map (c :: ·)
  | .code high :: .code low :: units =>
    if isHighSurrogate high ∧ isLowSurrogate low then
      (joinUnits units).map (Char.ofNat (65536 + 1024 * (high - 55296) + (low - 56320)) :: ·)
    else do
      let c ← charOf high
      (joinUnits (.code low :: units)).map (c :: ·)
  | .code n :: units => do
    let c ← charOf n
    (joinUnits units).map (c :: ·)

/-- A text in quotes, and what follows it. -/
def scanText : Text → Option (Text × Text)
  | '"' :: rest => do
    let found ← scanUnits rest
    let text ← joinUnits found.1
    return (text, found.2)
  | _ => none

def skipSpace (s : Text) : Text := s.dropWhile fun c => c = ' ' ∨ c = '\t' ∨ c = '\n' ∨ c = '\r'

/-- At most so many texts up to the closing bracket, and what follows it. -/
def scanTexts : Nat → Text → Option (List Text × Text)
  | 0, _ => none
  | n + 1, s => do
    let item ← scanText s
    match skipSpace item.2 with
    | ']' :: rest => return ([item.1], rest)
    | ',' :: rest => do
      let items ← scanTexts n (skipSpace rest)
      return (item.1 :: items.1, items.2)
    | _ => none

/-- `json.loads`, where the value is a list of texts. -/
def loadTexts (s : Text) : Option (List Text) :=
  match skipSpace s with
  | '[' :: rest => do
    let items ←
      match skipSpace rest with
      | ']' :: rest => some ([], rest)
      | rest => scanTexts rest.length rest
    if skipSpace items.2 = [] then some items.1 else none
  | _ => none

/-! ### One character -/

theorem hexValue_digitChar : ∀ d < 16, hexValue (Nat.digitChar d) = some d := by decide

theorem hexNumber_digitChars {n : Nat} (h : n < 65536) :
    hexNumber (Nat.digitChar (n / 4096)) (Nat.digitChar (n / 256 % 16)) (Nat.digitChar (n / 16 % 16))
      (Nat.digitChar (n % 16)) = some n := by
  rw [hexNumber, hexValue_digitChar _ (by omega), hexValue_digitChar _ (by omega), hexValue_digitChar _ (by omega),
    hexValue_digitChar _ (by omega)]
  show some (4096 * (n / 4096) + 256 * (n / 256 % 16) + 16 * (n / 16 % 16) + n % 16) = some n
  congr 1
  omega

theorem jsonUnit_eq {n : Nat} (h : n < 65536) :
    jsonUnit n = ['\\', 'u', Nat.digitChar (n / 4096), Nat.digitChar (n / 256 % 16), Nat.digitChar (n / 16 % 16),
      Nat.digitChar (n % 16)] := by
  have hzero : Nat.digitChar 0 = '0' := rfl
  have hsmall : ∀ {m : Nat}, m < 16 → Nat.toDigits 16 m = [Nat.digitChar m] := fun hm => Nat.toDigits_of_lt_base hm
  have hlarge : ∀ {m : Nat}, 16 ≤ m → Nat.toDigits 16 m = Nat.toDigits 16 (m / 16) ++ [Nat.digitChar (m % 16)] :=
    fun hm => Nat.toDigits_of_base_le (by decide) hm
  have htwo : n / 16 / 16 = n / 256 := by rw [Nat.div_div_eq_div_mul]
  have hthree : n / 256 / 16 = n / 4096 := by rw [Nat.div_div_eq_div_mul]
  unfold jsonUnit
  by_cases h₁ : n < 16
  · have ha : n / 4096 = 0 := by omega
    have hb : n / 256 % 16 = 0 := by omega
    have hc : n / 16 % 16 = 0 := by omega
    have hd : n % 16 = n := by omega
    rw [hsmall h₁, ha, hb, hc, hd, hzero]
    rfl
  · by_cases h₂ : n < 256
    · have ha : n / 4096 = 0 := by omega
      have hb : n / 256 % 16 = 0 := by omega
      have hc : n / 16 % 16 = n / 16 := by omega
      rw [hlarge (by omega), hsmall (by omega), ha, hb, hc, hzero]
      rfl
    · by_cases h₃ : n < 4096
      · have ha : n / 4096 = 0 := by omega
        have hb : n / 256 % 16 = n / 256 := by omega
        rw [hlarge (by omega), hlarge (by omega), htwo, hsmall (by omega), ha, hb, hzero]
        rfl
      · rw [hlarge (by omega), hlarge (by omega), htwo, hlarge (by omega), hthree, hsmall (by omega)]
        rfl

/-- The units that a character is written with. -/
def unitsOf (c : Char) : List JsonUnit :=
  if c = '"' ∨ c = '\\' ∨ c = '\n' ∨ c = '\r' ∨ c = '\t' ∨ c.toNat = 8 ∨ c.toNat = 12 ∨ (32 ≤ c.toNat ∧ c.toNat ≤ 126)
  then [.char c]
  else if c.toNat < 65536 then [.code c.toNat]
  else [.code (55296 + (c.toNat - 65536) / 1024), .code (56320 + (c.toNat - 65536) % 1024)]

theorem scanUnits_escape {e c : Char} (he : e ≠ 'u') (h : jsonEscape e = some c) (rest : Text) :
    scanUnits ('\\' :: e :: rest) = (scanUnits rest).map fun found => (.char c :: found.1, found.2) := by
  rw [scanUnits, h]
  · cases scanUnits rest <;> rfl
  · exact fun _ _ _ _ _ hu _ => he hu

theorem scanUnits_plain {c : Char} (hquote : c ≠ '"') (hslash : c ≠ '\\') (hvisible : 32 ≤ c.toNat) (rest : Text) :
    scanUnits (c :: rest) = (scanUnits rest).map fun found => (.char c :: found.1, found.2) := by
  have hfound : ¬ (c = '\\' ∨ c.toNat < 32) := by
    rintro (h | h)
    · exact hslash h
    · omega
  rw [scanUnits, if_neg hfound]
  · cases scanUnits rest <;> rfl
  · exact fun h => hquote h
  · exact fun _ _ _ _ _ h _ => hslash h
  · exact fun _ _ h _ => hslash h

theorem scanUnits_unit {n : Nat} (h : n < 65536) (rest : Text) :
    scanUnits (jsonUnit n ++ rest) = (scanUnits rest).map fun found => (.code n :: found.1, found.2) := by
  rw [jsonUnit_eq h]
  refine (scanUnits.eq_2 _ _ _ _ _).trans ?_
  rw [hexNumber_digitChars h]
  show (scanUnits rest).bind _ = _
  cases scanUnits rest <;> rfl

theorem toNat_lt (c : Char) : c.toNat < 1114112 := by
  rcases c.valid with h | ⟨-, h⟩
  · exact Nat.lt_trans h (by decide)
  · exact h

theorem scanUnits_jsonChar (c : Char) (rest : Text) :
    scanUnits (jsonChar c ++ rest) = (scanUnits rest).map fun found => (unitsOf c ++ found.1, found.2) := by
  have hupper := toNat_lt c
  have hchar : ∀ {n : Nat}, c.toNat = n → c = Char.ofNat n := fun h => by rw [← h, Char.ofNat_toNat]
  by_cases hquote : c = '"'
  · subst hquote
    exact scanUnits_escape (by decide) rfl rest
  by_cases hslash : c = '\\'
  · subst hslash
    exact scanUnits_escape (by decide) rfl rest
  by_cases hline : c = '\n'
  · subst hline
    exact scanUnits_escape (e := 'n') (by decide) rfl rest
  by_cases hreturn : c = '\r'
  · subst hreturn
    exact scanUnits_escape (e := 'r') (by decide) rfl rest
  by_cases htab : c = '\t'
  · subst htab
    exact scanUnits_escape (e := 't') (by decide) rfl rest
  by_cases hback : c.toNat = 8
  · rw [hchar hback]
    exact scanUnits_escape (e := 'b') (by decide) rfl rest
  by_cases hfeed : c.toNat = 12
  · rw [hchar hfeed]
    exact scanUnits_escape (e := 'f') (by decide) rfl rest
  unfold jsonChar unitsOf
  simp only [hquote, hslash, hline, hreturn, htab, hback, hfeed, if_false, false_or]
  by_cases hvisible : 32 ≤ c.toNat ∧ c.toNat ≤ 126
  · rw [if_pos hvisible, if_pos hvisible]
    exact scanUnits_plain hquote hslash hvisible.1 rest
  · rw [if_neg hvisible, if_neg hvisible]
    by_cases hsmall : c.toNat < 65536
    · rw [if_pos hsmall, if_pos hsmall]
      exact scanUnits_unit hsmall rest
    · rw [if_neg hsmall, if_neg hsmall, List.append_assoc, scanUnits_unit (by omega), scanUnits_unit (by omega),
        Option.map_map]
      rfl

theorem scanUnits_jsonChars (x rest : Text) :
    scanUnits (x.flatMap jsonChar ++ '"' :: rest) = some (x.flatMap unitsOf, rest) := by
  induction x with
  | nil => rfl
  | cons c x ih =>
    rw [List.flatMap_cons, List.append_assoc, scanUnits_jsonChar, ih]
    rfl

/-! ### Units are put together -/

theorem joinUnits_code {n : Nat} (h : ¬ isHighSurrogate n) (units : List JsonUnit) :
    joinUnits (.code n :: units) = (charOf n).bind fun c => (joinUnits units).map (c :: ·) := by
  rcases units with _ | ⟨_ | low, units⟩
  · rfl
  · rfl
  · rw [joinUnits, if_neg fun hpair => h hpair.1]
    rfl

theorem joinUnits_unitsOf (c : Char) (units : List JsonUnit) :
    joinUnits (unitsOf c ++ units) = (joinUnits units).map (c :: ·) := by
  have hupper := toNat_lt c
  unfold unitsOf
  split_ifs with hchar hsmall
  · rfl
  · have hvalid : c.toNat.isValidChar := c.valid
    have hcode : charOf c.toNat = some c := by rw [charOf, if_pos hvalid, Char.ofNat_toNat]
    have hhigh : ¬ isHighSurrogate c.toNat := by
      rintro ⟨h₁, h₂⟩
      rcases hvalid with h | h <;> omega
    rw [List.singleton_append, joinUnits_code hhigh, hcode]
    rfl
  · have hhigh : isHighSurrogate (55296 + (c.toNat - 65536) / 1024) := ⟨by omega, by omega⟩
    have hlow : isLowSurrogate (56320 + (c.toNat - 65536) % 1024) := ⟨by omega, by omega⟩
    have hcode : 65536 + 1024 * (55296 + (c.toNat - 65536) / 1024 - 55296) + (56320 + (c.toNat - 65536) % 1024 - 56320)
        = c.toNat := by omega
    rw [List.cons_append, List.singleton_append, joinUnits, if_pos ⟨hhigh, hlow⟩, hcode, Char.ofNat_toNat]

theorem joinUnits_flatMap (x : Text) : joinUnits (x.flatMap unitsOf) = some x := by
  induction x with
  | nil => rfl
  | cons c x ih =>
    rw [List.flatMap_cons, joinUnits_unitsOf, ih]
    rfl

/-! ### A list is read back -/

theorem scanText_jsonText (x rest : Text) : scanText (jsonText x ++ rest) = some (x, rest) := by
  have htext : jsonText x ++ rest = '"' :: (x.flatMap jsonChar ++ '"' :: rest) := by
    rw [jsonText, cat]
    simp
  rw [htext, scanText, scanUnits_jsonChars]
  show (joinUnits (x.flatMap unitsOf)).bind _ = _
  rw [joinUnits_flatMap]
  rfl

/-- The items after the first one, each with the comma before it. -/
def dumpRest (items : List Text) : Text := items.flatMap fun item => ',' :: ' ' :: jsonText item

theorem dumpTexts_cons (x : Text) (xs : List Text) :
    dumpTexts (x :: xs) = '[' :: (jsonText x ++ (dumpRest xs ++ [']'])) := by
  rw [dumpTexts, List.map_cons, join_cons, List.flatMap_map, cat, dumpRest]
  simp

/-- With a text to spare for each item, the items up to the bracket are read. -/
theorem scanTexts_dumpRest (x : Text) (xs : List Text) {n : Nat} (h : xs.length < n) :
    scanTexts n (jsonText x ++ (dumpRest xs ++ [']'])) = some (x :: xs, []) := by
  induction xs generalizing x n with
  | nil =>
    obtain ⟨n, rfl⟩ := Nat.exists_eq_add_of_lt h
    rw [scanTexts, scanText_jsonText]
    rfl
  | cons y ys ih =>
    obtain ⟨n, rfl⟩ : ∃ k, n = k + 1 := ⟨n - 1, (Nat.sub_add_cancel (Nat.lt_of_le_of_lt (Nat.zero_le _) h)).symm⟩
    have hrest : dumpRest (y :: ys) ++ [']'] = ',' :: ' ' :: (jsonText y ++ (dumpRest ys ++ [']'])) := by
      rw [dumpRest, List.flatMap_cons]
      simp [dumpRest]
    rw [hrest, scanTexts, scanText_jsonText]
    show (scanTexts n (jsonText y ++ (dumpRest ys ++ [']']))).bind _ = _
    rw [ih y (Nat.lt_of_succ_lt_succ h)]
    rfl

theorem length_dumpRest (xs : List Text) : xs.length ≤ (dumpRest xs).length := by
  induction xs with
  | nil => exact Nat.le_refl _
  | cons x xs ih =>
    rw [dumpRest, List.flatMap_cons, List.length_append, List.length_cons, List.length_cons, List.length_cons]
    change xs.length ≤ (xs.flatMap _).length at ih
    omega

/-- What `json.dumps` writes for a list of texts, `json.loads` reads back. -/
theorem loadTexts_dumpTexts (items : List Text) : loadTexts (dumpTexts items) = some items := by
  rcases items with _ | ⟨x, xs⟩
  · rfl
  · have hfuel : xs.length < (jsonText x ++ (dumpRest xs ++ [']'])).length := by
      have hrest := length_dumpRest xs
      rw [List.length_append, List.length_append, List.length_singleton]
      omega
    have hitems : scanTexts (jsonText x ++ (dumpRest xs ++ [']'])).length (jsonText x ++ (dumpRest xs ++ [']'])) =
        some (x :: xs, []) := scanTexts_dumpRest x xs hfuel
    rw [dumpTexts_cons]
    show (scanTexts (jsonText x ++ (dumpRest xs ++ [']'])).length (jsonText x ++ (dumpRest xs ++ [']']))).bind _ = _
    rw [hitems]
    rfl

end GroupAssessmentAgent
