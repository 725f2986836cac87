import GroupAssessmentAgent.Vtt.Parser

/-!
# Which blocks of a transcript leave a trace

A block that is handled as a cue is counted, or leaves a warning (`handleCueBlock_traced`). A block that is taken for a
note leaves a warning only where it gives a date that is refused, and every block whose first line begins with `NOTE` is
taken for a note: `Notes 2` is no name for a cue.
-/

namespace GroupAssessmentAgent
open Regex Prog

/-- The blocks after the header. -/
def vttBlocks (text : Text) : List Text := (split blockSplitRe (strip (universalNewlines text))).drop 1

def nonBlankLines (block : Text) : List Text := (splitlines block).filter fun line => strip line ≠ []

/-- One of the first two lines has an arrow. -/
def HasArrow (block : Text) : Prop := ∃ line ∈ (nonBlankLines block).take 2, contains "-->" line = true

/-- The block is handled as a note. -/
def takenForNote (block : Text) : Bool :=
  startsWith ((strip ((nonBlankLines block).headD [])).map Char.toUpper) "NOTE"

/-- The value of the date in a note. -/
def dateValue (block : Text) : Option Text :=
  ((matchAt noteDateRe none (noteBody (nonBlankLines block))).bind (·.group 1)).map strip

/-- A note whose date is accepted. -/
def Dates (out : Outside) (block : Text) : Prop :=
  takenForNote block = true ∧ ∃ v d, dateValue block = some v ∧ out.parseDate v = .ok d

/-- A note whose date is refused. -/
def Misdates (out : Outside) (block : Text) : Prop := ∃ v e, dateValue block = some v ∧ out.parseDate v = .error e

/-- A step counts a cue, or leaves a warning of its own. -/
def Traced (r r' : ParsedVtt) : Prop :=
  r'.cueCount = r.cueCount + 1 ∨ ∃ warning, r'.warnings = r.warnings ++ [warning]

/-- Nothing that has been counted or reported is lost. -/
structure Grows (r r' : ParsedVtt) : Prop where
  cueCount : r.cueCount ≤ r'.cueCount
  warnings : r.warnings <+: r'.warnings

theorem Grows.refl (r : ParsedVtt) : Grows r r := ⟨Nat.le_refl _, List.prefix_refl _⟩

theorem Grows.trans {r₁ r₂ r₃ : ParsedVtt} (h₁ : Grows r₁ r₂) (h₂ : Grows r₂ r₃) : Grows r₁ r₃ :=
  ⟨h₁.cueCount.trans h₂.cueCount, h₁.warnings.trans h₂.warnings⟩

theorem grows_warn (r : ParsedVtt) (w : VttWarning) : Grows r (r.warn w) := ⟨Nat.le_refl _, List.prefix_append _ _⟩

theorem addSpeaker_cueCount (r : ParsedVtt) (speaker : Text) : (r.addSpeaker speaker).cueCount = r.cueCount := by
  unfold ParsedVtt.addSpeaker
  split_ifs <;> rfl

theorem addSpeaker_warnings (r : ParsedVtt) (speaker : Text) : (r.addSpeaker speaker).warnings = r.warnings := by
  unfold ParsedVtt.addSpeaker
  split_ifs <;> rfl

theorem addSpeaker_meetingDate (r : ParsedVtt) (speaker : Text) :
    (r.addSpeaker speaker).meetingDate = r.meetingDate := by
  unfold ParsedVtt.addSpeaker
  split_ifs <;> rfl

/-! ### One block -/

section
variable {out : Outside} {r r' : ParsedVtt} {block : Text}

/-- What becomes of a block that is handled as a cue. -/
inductive CueEnds (r : ParsedVtt) : ParsedVtt → Prop
  | warned (w : VttWarning) : CueEnds r (r.warn w)
  | unlabelled (w : VttWarning) : CueEnds r ({ r with cueCount := r.cueCount + 1 }.warn w)
  | counted (speaker : Text) : CueEnds r ({ r with cueCount := r.cueCount + 1 }.addSpeaker speaker)

theorem handleCueBlock_ends [PyChars] (lines : List Text) (block : Text) (r : ParsedVtt) :
    CueEnds r (handleCueBlock lines block r) := by
  unfold handleCueBlock
  split
  · exact .warned _
  · split_ifs
    · exact .warned _
    · exact .warned _
    · dsimp only
      split
      · exact .unlabelled _
      · exact .counted _

/-- **A cue leaves a trace.** -/
theorem CueEnds.traced (h : CueEnds r r') : Traced r r' := by
  cases h with
  | warned w => exact .inr ⟨w, rfl⟩
  | unlabelled w => exact .inl rfl
  | counted speaker => exact .inl (addSpeaker_cueCount _ _)

theorem CueEnds.grows (h : CueEnds r r') : Grows r r' := by
  cases h with
  | warned w => exact grows_warn r w
  | unlabelled w => exact ⟨Nat.le_succ _, List.prefix_append _ _⟩
  | counted speaker =>
    constructor
    · rw [addSpeaker_cueCount]
      exact Nat.le_succ _
    · exact ⟨[], by rw [addSpeaker_warnings, List.append_nil]⟩

theorem CueEnds.meetingDate (h : CueEnds r r') : r'.meetingDate = r.meetingDate := by
  cases h with
  | warned w => rfl
  | unlabelled w => rfl
  | counted speaker => exact addSpeaker_meetingDate _ _

/-- What becomes of a block that is handled as a note. -/
inductive NoteEnds (out : Outside) (block : Text) (r : ParsedVtt) : ParsedVtt → Prop
  | passed : r.meetingDate ≠ none ∨ dateValue block = none → NoteEnds out block r r
  | dated {v : Text} {d : Datetime} : r.meetingDate = none → dateValue block = some v → out.parseDate v = .ok d →
      NoteEnds out block r { r with meetingDate := some d }
  | misdated {v : Text} {e : Exc} : r.meetingDate = none → dateValue block = some v → out.parseDate v = .error e →
      NoteEnds out block r (r.warn (.badDate v))

theorem handleNoteBlock_ends (h : handleNoteBlock out (nonBlankLines block) r = .ok r') : NoteEnds out block r r' := by
  unfold handleNoteBlock at h
  split_ifs at h with hdate
  · obtain rfl := Except.ok.inj h
    exact .passed (.inl hdate)
  · replace hdate : r.meetingDate = none := by simpa using hdate
    cases hgroup : (matchAt noteDateRe none (noteBody (nonBlankLines block))).bind (·.group 1) with
    | none =>
      simp only [hgroup] at h
      obtain rfl := Except.ok.inj h
      exact .passed (.inr (by rw [dateValue, hgroup, Option.map_none]))
    | some value =>
      have hvalue : dateValue block = some (strip value) := by rw [dateValue, hgroup, Option.map_some]
      simp only [hgroup] at h
      cases hparse : out.parseDate (strip value) with
      | ok d =>
        simp only [hparse] at h
        obtain rfl := Except.ok.inj h
        exact .dated hdate hvalue hparse
      | error e =>
        simp only [hparse] at h
        split_ifs at h
        obtain rfl := Except.ok.inj h
        exact .misdated hdate hvalue hparse

theorem NoteEnds.grows (h : NoteEnds out block r r') : Grows r r' := by
  cases h with
  | passed _ => exact .refl r
  | dated _ _ _ => exact ⟨Nat.le_refl _, List.prefix_refl _⟩
  | misdated _ _ _ => exact grows_warn r _

/-- A note leaves a trace only where its date is refused, and none has been accepted before. -/
theorem NoteEnds.traced_iff (h : NoteEnds out block r r') :
    Traced r r' ↔ r.meetingDate = none ∧ Misdates out block := by
  have hunchanged : ∀ {r' : ParsedVtt}, r'.cueCount = r.cueCount → r'.warnings = r.warnings → ¬ Traced r r' := by
    rintro r' hcount hwarnings (hcue | ⟨w, hw⟩)
    · omega
    · have hlength := congrArg List.length (hwarnings.symm.trans hw)
      simp at hlength
  cases h with
  | passed hnone =>
    refine iff_of_false (hunchanged rfl rfl) ?_
    rintro ⟨hmeeting, v, e, hvalue, -⟩
    rcases hnone with hdate | hdate
    · exact hdate hmeeting
    · rw [hdate] at hvalue
      cases hvalue
  | dated _ hvalue hparse =>
    refine iff_of_false (hunchanged rfl rfl) ?_
    rintro ⟨-, v, e, hvalue', herror⟩
    rw [hvalue, Option.some.injEq] at hvalue'
    rw [← hvalue', hparse] at herror
    cases herror
  | misdated hmeeting hvalue hparse => exact iff_of_true (.inr ⟨_, rfl⟩) ⟨hmeeting, _, _, hvalue, hparse⟩

variable [PyChars]

theorem handleBlock_eq (out : Outside) (r : ParsedVtt) (block : Text) :
    handleBlock out r block =
      if nonBlankLines block = [] then .ok r
      else if takenForNote block then handleNoteBlock out (nonBlankLines block) r
      else .ok (handleCueBlock (nonBlankLines block) block r) := by
  have hlines : ((splitlines block).filter fun line => strip line ≠ []) = nonBlankLines block := rfl
  unfold handleBlock takenForNote
  rw [hlines]
  cases nonBlankLines block <;> rfl

/-- What becomes of a block. -/
inductive BlockEnds (out : Outside) (block : Text) (r : ParsedVtt) : ParsedVtt → Prop
  | blank : nonBlankLines block = [] → BlockEnds out block r r
  | note {r' : ParsedVtt} : takenForNote block = true → NoteEnds out block r r' → BlockEnds out block r r'
  | cue {r' : ParsedVtt} : takenForNote block = false → CueEnds r r' → BlockEnds out block r r'

theorem handleBlock_ends (h : handleBlock out r block = .ok r') : BlockEnds out block r r' := by
  rw [handleBlock_eq] at h
  split_ifs at h with hblank hnote
  · obtain rfl := Except.ok.inj h
    exact .blank hblank
  · exact .note hnote (handleNoteBlock_ends h)
  · obtain rfl := Except.ok.inj h
    exact .cue (by simpa using hnote) (handleCueBlock_ends _ _ _)

theorem handleBlock_grows (h : handleBlock out r block = .ok r') : Grows r r' := by
  cases handleBlock_ends h with
  | blank _ => exact .refl r
  | note _ hends => exact hends.grows
  | cue _ hends => exact hends.grows

theorem handleBlock_meetingDate (h : handleBlock out r block = .ok r') :
    r'.meetingDate = none ↔ r.meetingDate = none ∧ ¬ Dates out block := by
  cases handleBlock_ends h with
  | blank hblank =>
    have hnot : takenForNote block = false := by
      rw [takenForNote, hblank]
      rfl
    simp [Dates, hnot]
  | cue hnot hends => simp [Dates, hnot, hends.meetingDate]
  | note hnote hends =>
    cases hends with
    | passed hnone =>
      refine ⟨fun hmeeting => ⟨hmeeting, ?_⟩, And.left⟩
      rintro ⟨-, v, d, hvalue, -⟩
      rcases hnone with hdate | hdate
      · exact hdate hmeeting
      · rw [hdate] at hvalue
        cases hvalue
    | dated _ hvalue hparse =>
      refine iff_of_false (by simp) ?_
      rintro ⟨-, hnot⟩
      exact hnot ⟨hnote, _, _, hvalue, hparse⟩
    | misdated hmeeting hvalue hparse =>
      refine iff_of_true hmeeting ⟨hmeeting, ?_⟩
      rintro ⟨-, v, d, hvalue', hok⟩
      rw [hvalue, Option.some.injEq] at hvalue'
      rw [← hvalue', hparse] at hok
      cases hok

/-- **One block** leaves a trace, unless it is taken for a note. -/
theorem handleBlock_traced_iff (h : handleBlock out r block = .ok r') (hlines : nonBlankLines block ≠ []) :
    Traced r r' ↔ (takenForNote block = true → r.meetingDate = none ∧ Misdates out block) := by
  cases handleBlock_ends h with
  | blank hblank => exact absurd hblank hlines
  | note hnote hends => rw [hends.traced_iff, imp_iff_right hnote]
  | cue hnot hends => exact iff_of_true hends.traced fun hnote => by simp [hnot] at hnote

/-! ### All the blocks -/

theorem handleBlocks_grows {blocks : List Text} (h : blocks.foldlM (handleBlock out) r = .ok r') : Grows r r' := by
  induction blocks generalizing r with
  | nil =>
    obtain rfl := Except.ok.inj h
    exact .refl r
  | cons block blocks ih =>
    rw [List.foldlM_cons] at h
    cases hstep : handleBlock out r block with
    | error e =>
      rw [hstep] at h
      cases h
    | ok r₁ =>
      rw [hstep] at h
      exact (handleBlock_grows hstep).trans (ih h)

theorem handleBlocks_meetingDate {blocks : List Text} (h : blocks.foldlM (handleBlock out) r = .ok r') :
    r'.meetingDate = none ↔ r.meetingDate = none ∧ ∀ block ∈ blocks, ¬ Dates out block := by
  induction blocks generalizing r with
  | nil =>
    obtain rfl := Except.ok.inj h
    simp
  | cons block blocks ih =>
    rw [List.foldlM_cons] at h
    cases hstep : handleBlock out r block with
    | error e =>
      rw [hstep] at h
      cases h
    | ok r₁ =>
      rw [hstep] at h
      rw [ih h, handleBlock_meetingDate hstep, List.forall_mem_cons, and_assoc]

/-- The block after `before` is counted in the result, or reported by a warning of its own. -/
def Accounted (out : Outside) (before : List Text) (block : Text) (result : ParsedVtt) : Prop :=
  ∃ r r', before.foldlM (handleBlock out) {} = .ok r ∧ handleBlock out r block = .ok r' ∧ Traced r r' ∧ Grows r' result

/-- No block with an arrow disappears. -/
def AllAccounted (out : Outside) (text : Text) (result : ParsedVtt) : Prop :=
  ∀ before block after, vttBlocks text = before ++ block :: after → HasArrow block → Accounted out before block result

theorem parseVttText_blocks {text : Text} {result : ParsedVtt}
    (h : parseVttText out (universalNewlines text) = .ok result) :
    (vttBlocks text).foldlM (handleBlock out) {} = .ok result := by
  simp only [parseVttText] at h
  split_ifs at h
  cases hblocks : (vttBlocks text).foldlM (handleBlock out) {} with
  | error e =>
    rw [vttBlocks] at hblocks
    rw [hblocks] at h
    cases h
  | ok r =>
    rw [vttBlocks] at hblocks
    rw [hblocks] at h
    simp only [Bind.bind, Except.bind] at h
    split_ifs at h
    obtain rfl := Except.ok.inj h
    rfl

theorem handleBlocks_split {before after : List Text} {result : ParsedVtt}
    (h : (before ++ block :: after).foldlM (handleBlock out) r = .ok result) :
    ∃ r₁ r₂, before.foldlM (handleBlock out) r = .ok r₁ ∧ handleBlock out r₁ block = .ok r₂ ∧
      after.foldlM (handleBlock out) r₂ = .ok result := by
  rw [List.foldlM_append] at h
  cases hbefore : before.foldlM (handleBlock out) r with
  | error e =>
    rw [hbefore] at h
    cases h
  | ok r₁ =>
    rw [hbefore] at h
    simp only [Bind.bind, Except.bind, List.foldlM_cons] at h
    cases hstep : handleBlock out r₁ block with
    | error e =>
      simp only [hstep] at h
      cases h
    | ok r₂ =>
      simp only [hstep] at h
      exact ⟨r₁, r₂, rfl, hstep, h⟩

/-- **No cue disappears from a file that is accepted**, exactly if every block with an arrow that is taken for a note is
one whose date is refused, with no accepted date before it. -/
theorem accounted_iff {text : Text} {result : ParsedVtt}
    (haccepted : parseVttText out (universalNewlines text) = .ok result) :
    AllAccounted out text result ↔
      ∀ before block after, vttBlocks text = before ++ block :: after → HasArrow block → takenForNote block = true →
        Misdates out block ∧ ∀ b ∈ before, ¬ Dates out b := by
  have hall := parseVttText_blocks haccepted
  refine forall_congr' fun before => forall_congr' fun block => forall_congr' fun after => ?_
  refine imp_congr_right fun hblocks => imp_congr_right fun harrow => ?_
  rw [hblocks] at hall
  obtain ⟨r, r', hbefore, hstep, hafter⟩ := handleBlocks_split hall
  have hlines : nonBlankLines block ≠ [] := by
    obtain ⟨line, hline, -⟩ := harrow
    exact List.ne_nil_of_mem (List.mem_of_mem_take hline)
  have haccounted : Accounted out before block result ↔ Traced r r' := by
    constructor
    · rintro ⟨r₁, r₂, hr₁, hr₂, htraced, -⟩
      obtain rfl : r = r₁ := Except.ok.inj (hbefore.symm.trans hr₁)
      obtain rfl : r' = r₂ := Except.ok.inj (hstep.symm.trans hr₂)
      exact htraced
    · exact fun htraced => ⟨r, r', hbefore, hstep, htraced, handleBlocks_grows hafter⟩
  rw [haccounted, handleBlock_traced_iff hstep hlines, handleBlocks_meetingDate hbefore]
  exact imp_congr_right fun _ => ⟨fun ⟨⟨_, hnone⟩, hmisdates⟩ => ⟨hmisdates, hnone⟩,
    fun ⟨hmisdates, hnone⟩ => ⟨⟨rfl, hnone⟩, hmisdates⟩⟩

end

section
attribute [local instance] asciiChars

def aliceBlock : Text := "1\n00:01 --> 00:02\nAlice: hello"

/-- A cue with a name. -/
def bobBlock : Text := "Notes 2\n00:02 --> 00:03\nBob: goodbye"

def namedCue : Text := join "\n\n" ["WEBVTT", aliceBlock, bobBlock]

/-- Only Alice has been heard. -/
def aliceHeard : ParsedVtt := { speakers := ["Alice"], cueCount := 1 }

/-- Bob's words are neither counted nor reported. -/
theorem cue_hidden : ¬ ∀ (out : Outside) (text : Text) (result : ParsedVtt),
    parseVttText out (universalNewlines text) = .ok result → AllAccounted out text result := by
  intro h
  have hparse : parseVttText Outside.plain (universalNewlines namedCue) = .ok aliceHeard := by rfl
  have hblocks : vttBlocks namedCue = [aliceBlock] ++ bobBlock :: [] := by decide +kernel
  have harrow : HasArrow bobBlock := ⟨"00:02 --> 00:03", by decide +kernel, by decide +kernel⟩
  obtain ⟨r, r', hr, hr', htraced, -⟩ := h _ _ _ hparse _ _ _ hblocks harrow
  have hfirst : [aliceBlock].foldlM (handleBlock Outside.plain) {} = .ok aliceHeard := by rfl
  obtain rfl := Except.ok.inj (hfirst.symm.trans hr)
  have hsecond : handleBlock Outside.plain aliceHeard bobBlock = .ok aliceHeard := by rfl
  obtain rfl := Except.ok.inj (hsecond.symm.trans hr')
  rcases htraced with hcount | ⟨w, hw⟩
  · cases hcount
  · cases hw

def numberedCue : Text := join "\n\n" ["WEBVTT", aliceBlock]

theorem accounted_numberedCue : AllAccounted Outside.plain numberedCue aliceHeard := by
  have hparse : parseVttText Outside.plain (universalNewlines numberedCue) = .ok aliceHeard := by rfl
  have hcues : (vttBlocks numberedCue).all (!takenForNote ·) = true := by decide +kernel
  refine (accounted_iff hparse).2 fun before block after hblocks _ hnote => ?_
  have hcue := List.all_eq_true.1 hcues block (by simp [hblocks])
  simp [hnote] at hcue

end

end GroupAssessmentAgent
