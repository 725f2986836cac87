import GroupAssessmentAgent.Vtt.Parser

/-!
# Reading a transcript back

A transcript is a header, cues and notes. `writeVtt` writes it with either line end, and `vtt_read_back` reads it with
`parse_vtt`: the speakers, the number of cues and the date of the meeting are those of the transcript.

The text of a file is cut into the texts of its blocks (`splitFrom_blocks`), of which only the last may have lost the
white space at its end. `WrittenAs` is what is known of the text of a block, and `Reads` what the parser knows after some
blocks.
-/

namespace GroupAssessmentAgent
open Regex Prog

/-! ### The format -/

/-- A cue: an index, a time span, and what somebody says. -/
structure Cue where
  index : Text
  start : Text
  stop : Text
  speaker : Text
  text : Text
  index_ne : index ≠ []
  index_digits : ∀ c ∈ index, c.isDigit = true
  start_line : Unbroken start
  stop_line : Unbroken stop
  speaker_ne : speaker ≠ []
  speaker_short : speaker.length ≤ 100
  speaker_colon : ':' ∉ speaker
  speaker_line : Unbroken speaker
  speaker_stripped : strip speaker = speaker
  text_line : Unbroken text

structure Note where
  text : Text
  text_line : Unbroken text

inductive VttBlock where
  | cue (c : Cue)
  | note (n : Note)

def Cue.arrowLine (c : Cue) : Text := cat [c.start, " --> ", c.stop]

namespace VttBlock

def lines : VttBlock → List Text
  | cue c => [c.index, c.arrowLine, cat [c.speaker, ": ", c.text]]
  | note n => [cat ["NOTE ", n.text]]

def speaker? : VttBlock → Option Text
  | cue c => some c.speaker
  | note _ => none

def isCue : VttBlock → Bool
  | cue _ => true
  | note _ => false

end VttBlock

/-- `pre` begins the text, up to case. -/
def startsWithIgnoreCase : Text → Text → Bool
  | [], _ => true
  | _ :: _, [] => false
  | c :: pre, x :: s => sameLetter c x && startsWithIgnoreCase pre s

/-- The value of a note of the form `meeting-date: v`. -/
def meetingDateValue (text : Text) : Option Text :=
  if startsWithIgnoreCase "meeting-date:" (strip text) then truthy (some (strip ((strip text).drop 13))) else none

/-- The date of a note of that form, if its value is accepted. -/
def VttBlock.date? (out : Outside) : VttBlock → Option Datetime
  | cue _ => none
  | note n => (meetingDateValue n.text).bind fun v => (out.parseDate v).toOption

/-- `WEBVTT`, and what follows it on its line. -/
structure HeaderLine [PyChars] where
  rest : Text
  rest_line : Unbroken rest
  ends_word : ∀ c ∈ rest.head?, isWord c = false

def HeaderLine.text [PyChars] (h : HeaderLine) : Text := cat ["WEBVTT", h.rest]

inductive LineEnd where
  | lf
  | crlf

def LineEnd.text : LineEnd → Text
  | lf => "\n"
  | crlf => "\r\n"

/-- The header and the blocks, each with a blank line before it. -/
def vttLines [PyChars] (header : HeaderLine) (blocks : List VttBlock) : List Text :=
  header.text :: blocks.flatMap fun b => [] :: b.lines

/-- The text of a transcript; its last line may be ended, too. -/
def writeVtt [PyChars] (eol : LineEnd) (final : Bool) (header : HeaderLine) (blocks : List VttBlock) : Text :=
  join eol.text (vttLines header blocks) ++ if final then eol.text else []

/-! ### Line ends -/

theorem universalNewlines_line {line : Text} (hline : Unbroken line) (s : Text) :
    universalNewlines (line ++ s) = line ++ universalNewlines s := by
  induction line with
  | nil => rfl
  | cons c line ih =>
    have hc : c ≠ '\r' := by
      rintro rfl
      exact absurd (hline '\r' List.mem_cons_self) (by decide)
    rw [List.cons_append, universalNewlines, if_neg hc, ih fun d hd => hline d (List.mem_cons_of_mem c hd)]
    · rfl
    · exact fun _ h => absurd h hc

theorem universalNewlines_eol (eol : LineEnd) (s : Text) :
    universalNewlines (eol.text ++ s) = '\n' :: universalNewlines s := by
  cases eol <;> rfl

theorem universalNewlines_lines (eol : LineEnd) {lines : List Text} (hlines : ∀ line ∈ lines, Unbroken line)
    (s : Text) :
    universalNewlines (lines.flatMap (eol.text ++ ·) ++ s) =
      lines.flatMap (("\n" : Text) ++ ·) ++ universalNewlines s := by
  induction lines with
  | nil => rfl
  | cons line lines ih =>
    rw [List.flatMap_cons, List.append_assoc, List.append_assoc, universalNewlines_eol,
      universalNewlines_line (hlines line List.mem_cons_self), ih fun l hl => hlines l (List.mem_cons_of_mem _ hl)]
    simp

/-! ### Texts without line breaks -/

theorem unbroken_of_all {s : Text} (hs : s.all (!isLineBreak ·) = true) : Unbroken s := by
  intro c hc
  simpa using List.all_eq_true.1 hs c hc

theorem Cue.index_line (c : Cue) : Unbroken c.index := by
  intro d hd
  by_contra hbreak
  have hspace := isSpace_of_isLineBreak (by simpa using hbreak)
  rw [isSpace_of_isDigit (c.index_digits d hd)] at hspace
  cases hspace

theorem Cue.arrowLine_line (c : Cue) : Unbroken c.arrowLine := by
  have harrow : Unbroken " --> " := unbroken_of_all (by decide)
  have hline := c.start_line.append (harrow.append c.stop_line)
  simpa [Cue.arrowLine, cat] using hline

theorem VttBlock.lines_unbroken (b : VttBlock) : ∀ line ∈ b.lines, Unbroken line := by
  cases b with
  | cue c =>
    have hcolon : Unbroken ": " := unbroken_of_all (by decide)
    have hspeech := c.speaker_line.append (hcolon.append c.text_line)
    intro line hline
    simp only [VttBlock.lines, List.mem_cons, List.not_mem_nil, or_false] at hline
    obtain rfl | rfl | rfl := hline
    · exact c.index_line
    · exact c.arrowLine_line
    · simpa [cat] using hspeech
  | note n =>
    have hnote : Unbroken "NOTE " := unbroken_of_all (by decide)
    intro line hline
    obtain rfl := List.mem_singleton.1 hline
    simpa [cat] using hnote.append n.text_line

section
variable [PyChars]

theorem HeaderLine.text_line (h : HeaderLine) : Unbroken h.text := by
  have hword : Unbroken "WEBVTT" := unbroken_of_all (by decide)
  simpa [HeaderLine.text, cat] using hword.append h.rest_line

end

/-- The lines of a block, one after another. -/
def VttBlock.text (b : VttBlock) : Text := join "\n" b.lines

theorem universalNewlines_writeVtt [PyChars] (eol : LineEnd) (final : Bool) (header : HeaderLine)
    (blocks : List VttBlock) :
    universalNewlines (writeVtt eol final header blocks) =
      header.text ++ (blocks.flatMap fun b => ("\n\n" : Text) ++ b.text) ++ if final then ("\n" : Text) else [] := by
  have hlines : ∀ line ∈ blocks.flatMap fun b => [] :: b.lines, Unbroken line := by
    intro line hline
    obtain ⟨b, -, hline⟩ := List.mem_flatMap.1 hline
    rcases List.mem_cons.1 hline with rfl | hline
    · rintro _ ⟨⟩
    · exact b.lines_unbroken line hline
  have hend : universalNewlines (if final then eol.text else []) = if final then ("\n" : Text) else [] := by
    cases final <;> cases eol <;> rfl
  have hblock : ∀ b : VttBlock, ([] :: b.lines).flatMap (("\n" : Text) ++ ·) = ("\n\n" : Text) ++ b.text := by
    intro b
    cases b <;> simp [VttBlock.text, VttBlock.lines, join_cons]
  rw [writeVtt, vttLines, join_cons, List.append_assoc, universalNewlines_line header.text_line,
    universalNewlines_lines eol hlines, hend, List.flatMap_assoc, ← List.append_assoc]
  simp only [hblock]

/-! ### Cutting the text into blocks -/

/-- A text that stands between blank lines: lines, none of them empty. -/
def Solid (t : Text) : Prop :=
  ∃ line lines, t = join "\n" (line :: lines) ∧ ∀ l ∈ line :: lines, l ≠ [] ∧ Unbroken l

theorem Unbroken.plain {s : Text} (hs : Unbroken s) {c : Char} (hc : c ∈ s) : c ≠ '\r' ∧ c ≠ '\n' := by
  constructor <;> rintro rfl
  · exact absurd (hs '\r' hc) (by decide)
  · exact absurd (hs '\n' hc) (by decide)

section
variable {c : Char} (hc : c ≠ '\r' ∧ c ≠ '\n') (prev : Option Char) (piece rest : Text)
include hc

theorem splitFrom_char : splitFrom blockSplitRe 0 prev piece (c :: rest) =
    splitFrom blockSplitRe 0 (some c) (c :: piece) rest := by
  have hnone : matchAt blockSplitRe prev (c :: rest) = none := by
    simp [matchAt, blockSplitRe, Re.go, Re.opt, Re.lit, hc.1, hc.2]
  rw [splitFrom, hnone]

theorem splitFrom_newline : splitFrom blockSplitRe 0 prev piece ('\n' :: c :: rest) =
    splitFrom blockSplitRe 0 (some '\n') ('\n' :: piece) (c :: rest) := by
  have hnone : matchAt blockSplitRe prev ('\n' :: c :: rest) = none := by
    simp [matchAt, blockSplitRe, Re.go, Re.opt, Re.lit, Re.plus, hc.1, hc.2]
  rw [splitFrom, hnone]

theorem splitFrom_blank : splitFrom blockSplitRe 0 prev piece ('\n' :: '\n' :: c :: rest) =
    piece.reverse :: splitFrom blockSplitRe 0 (some '\n') [] (c :: rest) := by
  have hmatch : matchAt blockSplitRe prev ('\n' :: '\n' :: c :: rest) = some ⟨"\n\n", []⟩ := by
    simp [matchAt, blockSplitRe, Re.go, Re.opt, Re.lit, Re.plus, greedy, hc.2]
  rw [splitFrom, hmatch]
  rfl

end

theorem splitFrom_line {line : Text} (hline : Unbroken line) (prev : Option Char) (piece rest : Text) :
    splitFrom blockSplitRe 0 prev piece (line ++ rest) =
      splitFrom blockSplitRe 0 (lastOf prev line) (line.reverse ++ piece) rest := by
  induction line generalizing prev piece with
  | nil => rfl
  | cons c line ih =>
    rw [List.cons_append, splitFrom_char (hline.plain List.mem_cons_self),
      ih fun d hd => hline d (List.mem_cons_of_mem c hd)]
    simp

theorem splitFrom_lines {lines : List Text} (hlines : ∀ l ∈ lines, l ≠ [] ∧ Unbroken l) (prev : Option Char)
    (piece rest : Text) :
    ∃ prev', splitFrom blockSplitRe 0 prev piece (lines.flatMap (("\n" : Text) ++ ·) ++ rest) =
      splitFrom blockSplitRe 0 prev' ((lines.flatMap (("\n" : Text) ++ ·)).reverse ++ piece) rest := by
  induction lines generalizing prev piece with
  | nil => exact ⟨prev, rfl⟩
  | cons line lines ih =>
    obtain ⟨hne, hline⟩ := hlines line List.mem_cons_self
    obtain ⟨c, cs, rfl⟩ := List.exists_cons_of_ne_nil hne
    obtain ⟨prev', htail⟩ := ih (fun l hl => hlines l (List.mem_cons_of_mem _ hl)) (lastOf (some '\n') (c :: cs))
      ((c :: cs).reverse ++ '\n' :: piece)
    refine ⟨prev', ?_⟩
    have hstart := splitFrom_newline (hline.plain List.mem_cons_self) prev piece
      (cs ++ (lines.flatMap (("\n" : Text) ++ ·) ++ rest))
    have hline' := splitFrom_line hline (some '\n') ('\n' :: piece) (lines.flatMap (("\n" : Text) ++ ·) ++ rest)
    rw [List.cons_append] at hline'
    have hall := hstart.trans (hline'.trans htail)
    simpa using hall

theorem splitFrom_solid {t : Text} (ht : Solid t) (prev : Option Char) (piece rest : Text) :
    ∃ prev', splitFrom blockSplitRe 0 prev piece (t ++ rest) =
      splitFrom blockSplitRe 0 prev' (t.reverse ++ piece) rest := by
  obtain ⟨line, lines, rfl, hlines⟩ := ht
  obtain ⟨prev', hrest⟩ := splitFrom_lines (fun l hl => hlines l (List.mem_cons_of_mem _ hl)) (lastOf prev line)
    (line.reverse ++ piece) rest
  refine ⟨prev', ?_⟩
  rw [join_cons, List.append_assoc, splitFrom_line (hlines line List.mem_cons_self).2, hrest, List.reverse_append,
    List.append_assoc]

/-- **The blocks of a text** are what stands between its blank lines. -/
theorem splitFrom_blocks {t : Text} (ht : Solid t) {texts : List Text} (htexts : ∀ u ∈ texts, Solid u)
    (prev : Option Char) :
    splitFrom blockSplitRe 0 prev [] (t ++ texts.flatMap (("\n\n" : Text) ++ ·)) = t :: texts := by
  induction texts generalizing t prev with
  | nil =>
    obtain ⟨prev', h⟩ := splitFrom_solid ht prev [] []
    rw [List.flatMap_nil, h]
    simp [splitFrom]
  | cons u texts ih =>
    have hu : Solid u := htexts u List.mem_cons_self
    obtain ⟨prev', h⟩ := splitFrom_solid ht prev [] ((u :: texts).flatMap (("\n\n" : Text) ++ ·))
    obtain ⟨c, cs, hcs, hc⟩ : ∃ c cs, u = c :: cs ∧ c ≠ '\r' ∧ c ≠ '\n' := by
      obtain ⟨line, lines, rfl, hlines⟩ := hu
      obtain ⟨hne, hline⟩ := hlines line List.mem_cons_self
      obtain ⟨c, cs, rfl⟩ := List.exists_cons_of_ne_nil hne
      exact ⟨c, _, join_cons _ _ _, hline.plain List.mem_cons_self⟩
    have hblank := splitFrom_blank hc prev' (t.reverse ++ []) (cs ++ texts.flatMap (("\n\n" : Text) ++ ·))
    have htail := ih hu (fun v hv => htexts v (List.mem_cons_of_mem u hv)) (some '\n')
    rw [hcs, List.cons_append] at htail
    rw [htail] at hblank
    rw [h, List.flatMap_cons, hcs]
    simpa using hblank

/-- What is known of the text of a block: white space at its end may be lost. -/
inductive WrittenAs : VttBlock → Text → Prop
  | cue {c : Cue} {tail : Text} : Unbroken tail →
      WrittenAs (.cue c) (join "\n" [c.index, c.arrowLine, c.speaker ++ ':' :: tail])
  | note {n : Note} {tail : Text} : Unbroken tail → strip tail = strip n.text →
      WrittenAs (.note n) (("NOTE" : Text) ++ tail)

theorem Unbroken.cons_space {s : Text} (hs : Unbroken s) : Unbroken (' ' :: s) := by
  intro c hc
  rcases List.mem_cons.1 hc with rfl | hc
  · decide
  · exact hs c hc

theorem Unbroken.rdropWhile {s : Text} (hs : Unbroken s) : Unbroken (s.rdropWhile isSpace) :=
  fun c hc => hs c ((List.rdropWhile_prefix isSpace s).subset hc)

theorem strip_cons_space (s : Text) : strip (' ' :: s) = strip s := by
  have hspace : isSpace ' ' = true := by decide
  rw [strip, List.dropWhile_cons_of_pos hspace, strip]

theorem written_text (b : VttBlock) : WrittenAs b b.text := by
  cases b with
  | cue c =>
    have htext : (VttBlock.cue c).text = join "\n" [c.index, c.arrowLine, c.speaker ++ ':' :: (' ' :: c.text)] := by
      simp [VttBlock.text, VttBlock.lines, cat]
    rw [htext]
    exact .cue c.text_line.cons_space
  | note n =>
    have htext : (VttBlock.note n).text = ("NOTE" : Text) ++ ' ' :: n.text := by
      simp [VttBlock.text, VttBlock.lines, join_cons, cat]
    rw [htext]
    exact .note n.text_line.cons_space (strip_cons_space n.text)

theorem WrittenAs.rdropWhile {b : VttBlock} {t : Text} (h : WrittenAs b t) : WrittenAs b (t.rdropWhile isSpace) := by
  cases h with
  | @cue c tail htail =>
    have hcolon : isSpace ':' = false := by decide
    have htext : ∀ tail : Text, join "\n" [c.index, c.arrowLine, c.speaker ++ ':' :: tail] =
        (c.index ++ '\n' :: (c.arrowLine ++ '\n' :: c.speaker)) ++ ':' :: tail := by
      intro tail
      simp [join_cons]
    rw [htext, rdropWhile_append_cons _ hcolon, ← htext]
    exact .cue htail.rdropWhile
  | @note n tail htail hsame =>
    have hletter : isSpace 'E' = false := by decide
    have htext : ∀ tail : Text, ("NOTE" : Text) ++ tail = ("NOT" : Text) ++ 'E' :: tail := fun _ => rfl
    rw [htext, rdropWhile_append_cons _ hletter, ← htext]
    exact .note htail.rdropWhile ((strip_rdropWhile tail).trans hsame)

theorem WrittenAs.solid {b : VttBlock} {t : Text} (h : WrittenAs b t) : Solid t := by
  cases h with
  | @cue c tail htail =>
    have hcolon : Unbroken ":" := unbroken_of_all (by decide)
    refine ⟨_, _, rfl, fun l hl => ?_⟩
    simp only [List.mem_cons, List.not_mem_nil, or_false] at hl
    obtain rfl | rfl | rfl := hl
    · exact ⟨c.index_ne, c.index_line⟩
    · exact ⟨by simp [Cue.arrowLine, cat], c.arrowLine_line⟩
    · exact ⟨by simp, c.speaker_line.append (hcolon.append htail)⟩
  | @note n tail htail _ =>
    have hkeyword : Unbroken "NOTE" := unbroken_of_all (by decide)
    refine ⟨("NOTE" : Text) ++ tail, [], by simp [join_cons], fun l hl => ?_⟩
    obtain rfl := List.mem_singleton.1 hl
    exact ⟨by simp, hkeyword.append htail⟩

theorem solid_of_written {blocks : List VttBlock} {texts : List Text} (h : List.Forall₂ WrittenAs blocks texts) :
    ∀ t ∈ texts, Solid t := by
  induction h with
  | nil => rintro _ ⟨⟩
  | cons hb _ ih => exact List.forall_mem_cons.2 ⟨hb.solid, ih⟩

theorem WrittenAs.visible {b : VttBlock} {t : Text} (h : WrittenAs b t) : ∃ x ∈ t, isSpace x = false := by
  cases h with
  | @cue c tail _ => exact ⟨':', by simp [join_cons], by decide⟩
  | @note n tail _ _ => exact ⟨'N', by simp, by decide⟩

section
variable [PyChars]

theorem HeaderLine.solid (h : HeaderLine) : Solid h.text := by
  refine ⟨h.text, [], by simp [join_cons], fun l hl => ?_⟩
  obtain rfl := List.mem_singleton.1 hl
  exact ⟨by simp [HeaderLine.text, cat], h.text_line⟩

/-- **The text that is cut** is the header and the blocks, as they were written. -/
theorem strip_writeVtt (eol : LineEnd) (final : Bool) (header : HeaderLine) {blocks : List VttBlock}
    (hne : blocks ≠ []) :
    ∃ texts, strip (universalNewlines (writeVtt eol final header blocks)) =
        header.text ++ texts.flatMap (("\n\n" : Text) ++ ·) ∧ List.Forall₂ WrittenAs blocks texts := by
  obtain ⟨before, last, rfl⟩ : ∃ before last, blocks = before ++ [last] :=
    ⟨_, _, (List.dropLast_append_getLast hne).symm⟩
  refine ⟨before.map VttBlock.text ++ [last.text.rdropWhile isSpace], ?_, ?_⟩
  · have hfront : ∀ s : Text, (header.text ++ s).dropWhile isSpace = header.text ++ s := by
      intro s
      have hletter : ¬ isSpace 'W' = true := by decide
      have htext : header.text ++ s = 'W' :: (("EBVTT" : Text) ++ (header.rest ++ s)) := by
        simp [HeaderLine.text, cat]
      rw [htext, List.dropWhile_cons_of_neg hletter]
    have hend : (last.text ++ if final then ("\n" : Text) else []).rdropWhile isSpace =
        last.text.rdropWhile isSpace := by
      cases final with
      | false => simp
      | true =>
        have hbreak : isSpace '\n' = true := by decide
        exact List.rdropWhile_concat_pos isSpace last.text '\n' hbreak
    have hvisible : ∃ x ∈ last.text ++ if final then ("\n" : Text) else [], isSpace x = false := by
      obtain ⟨x, hx, hvisible⟩ := (written_text last).visible
      exact ⟨x, List.mem_append_left _ hx, hvisible⟩
    have hdoc : universalNewlines (writeVtt eol final header (before ++ [last])) =
        (header.text ++ (before.flatMap fun b => ("\n\n" : Text) ++ b.text) ++ "\n\n") ++
          (last.text ++ if final then ("\n" : Text) else []) := by
      rw [universalNewlines_writeVtt]
      simp
    rw [strip, hdoc, List.append_assoc, List.append_assoc, hfront, ← List.append_assoc, ← List.append_assoc,
      rdropWhile_append_visible hvisible, hend]
    simp [List.flatMap_map]
  · refine List.rel_append ?_ (.cons (written_text last).rdropWhile .nil)
    exact List.forall₂_map_right_iff.2 (List.forall₂_same.2 fun b _ => written_text b)

/-- `\b` holds after the keyword. -/
theorem header_matches (header : HeaderLine) {s : Text} (hs : s = [] ∨ s.head? = some '\n') :
    (matchAt webvttHeaderRe none (header.text ++ s)).isSome = true := by
  have hkeyword : isWord 'T' = true := by
    have hascii : isAlnum 'T' = Char.isAlphanum 'T' := PyChars.isAlnum_ascii 'T' (by decide)
    rw [isWord, hascii]
    rfl
  have hnext : ∀ c ∈ (header.rest ++ s).head?, isWord c = false := by
    intro c hc
    cases hrest : header.rest with
    | cons d rest =>
      rw [hrest] at hc
      exact header.ends_word c (by rw [hrest]; exact hc)
    | nil =>
      rw [hrest, List.nil_append] at hc
      rcases hs with rfl | hs
      · cases hc
      · obtain rfl : c = '\n' := by simpa [hs, eq_comm] using hc
        have hspace : isAlnum '\n' = false := PyChars.isAlnum_space '\n' (by decide)
        rw [isWord, hspace]
        rfl
  have hboundary : boundary isWord (some 'T') (header.rest ++ s).head? = true := by
    cases hhead : (header.rest ++ s).head? with
    | none => simp [boundary, hkeyword]
    | some c => simp [boundary, hkeyword, hnext c hhead]
  have hgo : webvttHeaderRe.go ⟨none, header.text ++ s, []⟩ = [⟨some 'T', header.rest ++ s, []⟩] := by
    have htext : header.text ++ s = ("WEBVTT" : Text) ++ (header.rest ++ s) := by simp [HeaderLine.text, cat]
    rw [webvttHeaderRe, seq_bos, go_seq, htext, go_lit, List.flatMap_singleton]
    exact go_wordB hboundary
  rw [matchAt, hgo]
  rfl

end

/-! ### The two patterns -/

theorem Unbroken.notNewline {s : Text} (hs : Unbroken s) : ∀ c ∈ s, notNewline c = true := by
  intro c hc
  simpa [GroupAssessmentAgent.notNewline] using (hs.plain hc).2

theorem afterSpeaker_head {tail : Text} (htail : Unbroken tail) (prev : Option Char) (g : List (Nat × Text)) :
    ∃ d, ((Re.seq (.opt (.one isSpace)) (.seq (.group 2 (.star notNewline)) .eos)).go ⟨prev, tail, g⟩).head? = some d ∧
      d.groups.lookup 1 = g.lookup 1 := by
  obtain ⟨prev', rest, hopt, hrest⟩ : ∃ prev' rest, ((Re.opt (.one isSpace)).go ⟨prev, tail, g⟩).head? =
      some ⟨prev', rest, g⟩ ∧ Unbroken rest := by
    cases tail with
    | nil => exact ⟨prev, [], rfl, htail⟩
    | cons c tail =>
      by_cases hc : isSpace c = true
      · exact ⟨some c, tail, by simp [Re.opt, Re.go, hc], fun d hd => htail d (List.mem_cons_of_mem c hd)⟩
      · exact ⟨prev, c :: tail, by simp [Re.opt, Re.go, hc], htail⟩
  have hgroup := head?_group (n := 2) (head?_star_all hrest.notNewline prev' g)
  have hend := head?_seq (b := .eos) hgroup rfl
  exact ⟨_, head?_seq hopt hend, rfl⟩

theorem cueSpeaker_group {speaker tail : Text} (hne : speaker ≠ []) (hshort : speaker.length ≤ 100)
    (hcolon : ':' ∉ speaker) (hline : Unbroken speaker) (htail : Unbroken tail) :
    (matchAt cueSpeakerRe none (speaker ++ ':' :: tail)).bind (·.group 1) = some speaker := by
  have hword : ∀ c ∈ speaker, notSpeakerEnd c = true := by
    intro c hc
    have hnot : c ≠ ':' := fun h => hcolon (h ▸ hc)
    simp [notSpeakerEnd, hnot, (hline.plain hc).2]
  have hstop : ∀ prev x xs g, notSpeakerEnd x = true → (Re.seq (.lit ":") (.seq (.opt (.one isSpace))
      (.seq (.group 2 (.star notNewline)) .eos))).go ⟨prev, x :: xs, g⟩ = [] := by
    intro prev x xs g hx
    have hnot : x ≠ ':' := by
      rintro rfl
      exact absurd hx (by decide)
    rw [go_seq]
    simp [Re.lit, Re.go, hnot]
  obtain ⟨d, hd, hgroup⟩ := afterSpeaker_head htail (some ':') [(1, speaker)]
  have hgo : cueSpeakerRe.go ⟨none, speaker ++ ':' :: tail, []⟩ = (Re.seq (.opt (.one isSpace))
      (.seq (.group 2 (.star notNewline)) .eos)).go ⟨some ':', tail, [(1, speaker)]⟩ := by
    have hlit := go_lit ":" (lastOf none speaker) tail [(1, speaker)]
    rw [cueSpeakerRe, seq_bos, go_group_upto hstop hne hshort hword (by simp [notSpeakerEnd]), go_seq]
    exact (congrArg _ hlit).trans (List.flatMap_singleton ..)
  rw [← hgo] at hd
  rw [matchAt_of_head? hd, Option.bind_some, Match.group, hgroup]
  rfl

theorem go_litIgnoreCase (s : Text) (prev : Option Char) (t : Text) (g : List (Nat × Text)) :
    (litIgnoreCase s).go ⟨prev, t, g⟩ =
      if startsWithIgnoreCase s t then [⟨lastOf prev (t.take s.length), t.drop s.length, g⟩] else [] := by
  induction s generalizing prev t with
  | nil => rfl
  | cons c s ih =>
    cases t with
    | nil => rfl
    | cons x t =>
      rw [litIgnoreCase, seq_one_cons, startsWithIgnoreCase]
      by_cases hx : sameLetter c x = true <;> simp [hx, ih]

theorem noteDate_group {body : Text} (hline : Unbroken body) (hend : body.rdropWhile isSpace = body) :
    ((matchAt noteDateRe none body).bind (·.group 1)).map strip =
      if startsWithIgnoreCase "meeting-date:" body then truthy (some (strip (body.drop 13))) else none := by
  let afterKeyword : Re := .seq (.star isSpace) (.seq (.group 1 (.plus notNewline)) .eos)
  have hgo : noteDateRe.go ⟨none, body, []⟩ = if startsWithIgnoreCase "meeting-date:" body then
      afterKeyword.go ⟨lastOf none (body.take 13), body.drop 13, []⟩ else [] := by
    rw [noteDateRe, seq_bos, go_seq, go_litIgnoreCase]
    split_ifs
    · exact List.flatMap_singleton ..
    · rfl
  split_ifs at hgo ⊢ with hkey
  · generalize lastOf none (body.take 13) = prev at hgo
    cases hrest : (body.drop 13).dropWhile isSpace with
    | nil =>
      -- white space alone does not stand at the end of a stripped text
      have hnil : body.drop 13 = [] := by
        by_contra hne
        have hlast := List.rdropWhile_eq_self_iff.1 hend (fun h => hne (by simp [h]))
        have hspace := List.dropWhile_eq_nil_iff.1 hrest _ (List.getLast_mem hne)
        rw [List.getLast_drop] at hspace
        exact hlast hspace
      rw [hnil] at hgo
      rw [hnil, matchAt, hgo]
      rfl
    | cons x t =>
      have hx : isSpace x = false := by
        have hhead := List.head_dropWhile_not isSpace (l := body.drop 13) (by simp [hrest])
        simpa [hrest] using hhead
      have hvalue : Unbroken (x :: t) := fun c hc =>
        hline c (List.mem_of_mem_drop ((List.dropWhile_suffix isSpace).subset (hrest ▸ hc)))
      have hstar : ((Re.star isSpace).go ⟨prev, body.drop 13, []⟩).head? =
          some ⟨lastOf prev ((body.drop 13).takeWhile isSpace), x :: t, []⟩ := by
        rw [Re.go, List.head?_map, head?_greedy, hrest, Option.map_some]
      let prev' := lastOf prev ((body.drop 13).takeWhile isSpace)
      have hplus : ((Re.plus notNewline).go ⟨prev', (x :: t) ++ [], []⟩).head? = some ⟨_, [], []⟩ :=
        head?_plus (List.cons_ne_nil x t) hvalue.notNewline (by simp) prev' []
      rw [List.append_nil] at hplus
      have hend := head?_seq (b := .eos) (head?_group (n := 1) hplus) rfl
      have hfirst := matchAt_of_head? ((congrArg List.head? hgo).trans (head?_seq hstar hend))
      have hstrip : strip (body.drop 13) = strip (x :: t) := by
        rw [← hrest, strip, strip, List.dropWhile_idempotent]
      have hne : strip (x :: t) ≠ [] := strip_ne_nil ⟨x, List.mem_cons_self, hx⟩
      have hgroup : [(1, (x :: t).take ((x :: t).length - 0))].lookup 1 = some (x :: t) := by simp
      rw [hfirst, hstrip]
      exact (congrArg (Option.map strip) hgroup).trans (truthy_eq_some.2 ⟨rfl, hne⟩).symm
  · rw [matchAt, hgo]
    rfl

/-! ### Reading the blocks -/

/-- What is known after some blocks. -/
structure Reads (out : Outside) (blocks : List VttBlock) (r : ParsedVtt) : Prop where
  speakers : r.speakers = (blocks.filterMap VttBlock.speaker?).eraseDups
  cueCount : r.cueCount = blocks.countP VttBlock.isCue
  meetingDate : r.meetingDate = blocks.findSome? (VttBlock.date? out)

theorem strip_note (tail : Text) : strip (("NOTE" : Text) ++ tail) = ("NOTE" : Text) ++ tail.rdropWhile isSpace := by
  have hletter : isSpace 'E' = false := by decide
  exact rdropWhile_append_cons "NOT" hletter tail

theorem noteBody_note (tail : Text) : noteBody [("NOTE" : Text) ++ tail] = strip tail := by
  have hfirst : strip ((strip (("NOTE" : Text) ++ tail)).drop 4) = strip tail := by
    rw [strip_note]
    exact strip_rdropWhile tail
  simp only [noteBody, List.headD_cons, hfirst, List.tail_cons, List.map_nil]
  by_cases hne : strip tail = []
  · simp [hne, join]
  · simp [hne, join]

theorem nonBlank_lines {lines : List Text} (hlines : ∀ l ∈ lines, Unbroken l ∧ ∃ x ∈ l, isSpace x = false) :
    ((splitlines (join "\n" lines)).filter fun line => strip line ≠ []) = lines := by
  have hvisible : ∀ l ∈ lines, strip l ≠ [] := fun l hl => strip_ne_nil (hlines l hl).2
  rw [splitlines_join (fun l hl => (hlines l hl).1) ?_]
  · exact List.filter_eq_self.2 fun l hl => by simpa using hvisible l hl
  · rintro l hl rfl
    exact hvisible [] (List.mem_of_getLast? hl) rfl

theorem Cue.index_visible (c : Cue) : ∃ x ∈ c.index, isSpace x = false := by
  obtain ⟨d, ds, hindex⟩ := List.exists_cons_of_ne_nil c.index_ne
  have hd : d ∈ c.index := by simp [hindex]
  exact ⟨d, hd, isSpace_of_isDigit (c.index_digits d hd)⟩

section
variable [PyChars] {out : Outside} {r : ParsedVtt}

theorem cueLinesOf_cue (c : Cue) (lines : List Text) :
    startsWith ((strip c.index).map Char.toUpper) "NOTE" = false ∧ cueLinesOf (c.index :: lines) = lines := by
  have hstrip : strip c.index = c.index :=
    strip_of_visible fun d hd => isSpace_of_isDigit (c.index_digits d hd)
  have hdigits : c.index.all isDigit = true := List.all_eq_true.2 fun d hd => by
    rw [PyChars.isDigit_ascii d (isDigit_lt (c.index_digits d hd)), c.index_digits d hd]
  constructor
  · obtain ⟨d, ds, hindex⟩ := List.exists_cons_of_ne_nil c.index_ne
    have hd : d.isDigit = true := c.index_digits d (by simp [hindex])
    have hne : ('N' == d) = false := beq_eq_false_iff_ne.2 fun h => by
      rw [← h] at hd
      cases hd
    rw [hstrip, hindex, List.map_cons, toUpper_of_isDigit hd, startsWith]
    simp [List.isPrefixOf, hne]
  · simp only [cueLinesOf, hstrip, hdigits, and_true]
    exact if_pos c.index_ne

theorem handleBlock_cue (c : Cue) {tail : Text} (htail : Unbroken tail) :
    handleBlock out r (join "\n" [c.index, c.arrowLine, c.speaker ++ ':' :: tail]) =
      .ok ({ r with cueCount := r.cueCount + 1 }.addSpeaker c.speaker) := by
  have hcolon : Unbroken ":" := unbroken_of_all (by decide)
  have hline : ∀ l ∈ [c.index, c.arrowLine, c.speaker ++ ':' :: tail], Unbroken l ∧ ∃ x ∈ l, isSpace x = false := by
    intro l hl
    simp only [List.mem_cons, List.not_mem_nil, or_false] at hl
    obtain rfl | rfl | rfl := hl
    · exact ⟨c.index_line, c.index_visible⟩
    · exact ⟨c.arrowLine_line, '>', by simp [Cue.arrowLine, cat], by decide⟩
    · exact ⟨c.speaker_line.append (hcolon.append htail), ':', by simp, by decide⟩
  have hlines := nonBlank_lines hline
  obtain ⟨hnote, hcue⟩ := cueLinesOf_cue c [c.arrowLine, c.speaker ++ ':' :: tail]
  have harrow : contains "-->" c.arrowLine = true :=
    (contains_iff_isInfix _ _).2 ⟨c.start ++ [' '], ' ' :: c.stop, by simp [Cue.arrowLine, cat]⟩
  have hcueText : strip (join " " [c.speaker ++ ':' :: tail]) = c.speaker ++ ':' :: tail.rdropWhile isSpace := by
    have hfront : c.speaker.dropWhile isSpace = c.speaker := by
      rw [← c.speaker_stripped]
      exact dropWhile_strip c.speaker
    have hdrop := dropWhile_append_fixed c.speaker_ne hfront [] (':' :: tail)
    rw [List.dropWhile_nil, List.nil_append] at hdrop
    rw [join_cons, List.flatMap_nil, List.append_nil, strip, hdrop, rdropWhile_append_cons c.speaker (by decide)]
  have hspeaker := cueSpeaker_group c.speaker_ne c.speaker_short c.speaker_colon c.speaker_line htail.rdropWhile
  simp only [handleBlock, hlines, hnote, handleCueBlock, hcue, harrow, hcueText, hspeaker, c.speaker_stripped]
  simp

theorem handleBlock_note {tail : Text} (htail : Unbroken tail) :
    handleBlock out r (("NOTE" : Text) ++ tail) = handleNoteBlock out [("NOTE" : Text) ++ tail] r := by
  have hkeyword : Unbroken "NOTE" := unbroken_of_all (by decide)
  have hline : ∀ l ∈ [("NOTE" : Text) ++ tail], Unbroken l ∧ ∃ x ∈ l, isSpace x = false := by
    intro l hl
    obtain rfl := List.mem_singleton.1 hl
    exact ⟨hkeyword.append htail, 'N', by simp, by decide⟩
  have hlines := nonBlank_lines hline
  rw [join_cons, List.flatMap_nil, List.append_nil] at hlines
  have hnote : startsWith ((strip (("NOTE" : Text) ++ tail)).map Char.toUpper) "NOTE" = true := by
    rw [strip_note, List.map_append]
    exact List.isPrefixOf_iff_prefix.2 (List.prefix_append _ _)
  simp only [handleBlock, hlines, hnote, if_true]

theorem handleBlock_note_ends {tail : Text} (htail : Unbroken tail)
    (hdate : ∀ v e, out.parseDate v = .error e → e.kind = .valueError ∨ e.kind = .overflowError) :
    ∃ r', handleBlock out r (("NOTE" : Text) ++ tail) = .ok r' ∧ r'.speakers = r.speakers ∧ r'.cueCount = r.cueCount ∧
      r'.meetingDate = r.meetingDate.or ((meetingDateValue tail).bind fun v => (out.parseDate v).toOption) := by
  rw [handleBlock_note htail, handleNoteBlock, noteBody_note]
  cases hmeeting : r.meetingDate with
  | some date => exact ⟨r, if_pos (by simp), rfl, rfl, hmeeting⟩
  | none =>
    rw [if_neg (by simp)]
    have hline : Unbroken (strip tail) := fun c hc => htail c ((strip_isInfix tail).subset hc)
    have hvalue : _ = meetingDateValue tail := noteDate_group hline (List.rdropWhile_idempotent isSpace _)
    cases hgroup : (matchAt noteDateRe none (strip tail)).bind (·.group 1) with
    | none =>
      rw [hgroup] at hvalue
      exact ⟨r, rfl, rfl, rfl, by rw [hmeeting, ← hvalue]; rfl⟩
    | some value =>
      rw [hgroup] at hvalue
      simp only [← hvalue, Option.map_some, Option.bind_some, Option.none_or]
      cases hparse : out.parseDate (strip value) with
      | ok date => exact ⟨_, rfl, rfl, rfl, rfl⟩
      | error e => exact ⟨_, if_pos (hdate _ e hparse), rfl, rfl, hmeeting⟩

omit [PyChars] in
theorem eraseDups_concat (speakers : List Text) (speaker : Text) :
    (speakers ++ [speaker]).eraseDups =
      if speaker ∈ speakers then speakers.eraseDups else speakers.eraseDups ++ [speaker] := by
  rw [List.eraseDups_append]
  by_cases hmem : speaker ∈ speakers
  · simp [List.removeAll, hmem]
  · simp [List.removeAll, hmem, List.eraseDups_cons]

theorem Reads.step {b : VttBlock} {t : Text} {blocks : List VttBlock}
    (hdate : ∀ v e, out.parseDate v = .error e → e.kind = .valueError ∨ e.kind = .overflowError)
    (ht : WrittenAs b t) (h : Reads out blocks r) :
    ∃ r', handleBlock out r t = .ok r' ∧ Reads out (blocks ++ [b]) r' := by
  cases ht with
  | @cue c tail htail =>
    refine ⟨_, handleBlock_cue c htail, ?_, ?_, ?_⟩
    · have hnew : ({ r with cueCount := r.cueCount + 1 }.addSpeaker c.speaker).speakers =
          if c.speaker ∈ r.speakers then r.speakers else r.speakers ++ [c.speaker] := by
        simp only [ParsedVtt.addSpeaker, c.speaker_ne, false_or]
        split_ifs <;> rfl
      have hone : [VttBlock.cue c].filterMap VttBlock.speaker? = [c.speaker] := rfl
      rw [hnew, h.speakers, List.filterMap_append, hone, eraseDups_concat]
      simp only [List.mem_eraseDups]
    · rw [List.countP_append, ← h.cueCount]
      simp only [ParsedVtt.addSpeaker]
      split_ifs <;> rfl
    · have hnone : [VttBlock.cue c].findSome? (VttBlock.date? out) = none := rfl
      rw [List.findSome?_append, hnone, Option.or_none, ← h.meetingDate]
      simp only [ParsedVtt.addSpeaker]
      split_ifs <;> rfl
  | @note n tail htail hsame =>
    obtain ⟨r', hr', hspeakers, hcount, hmeeting⟩ := handleBlock_note_ends (r := r) htail hdate
    refine ⟨r', hr', ?_, ?_, ?_⟩
    · rw [hspeakers, h.speakers, List.filterMap_append]
      exact congrArg List.eraseDups (List.append_nil _).symm
    · rw [hcount, h.cueCount, List.countP_append]
      rfl
    · have hvalue : meetingDateValue tail = meetingDateValue n.text := by
        rw [meetingDateValue, hsame, meetingDateValue]
      have hone : [VttBlock.note n].findSome? (VttBlock.date? out) = (VttBlock.note n).date? out := by simp
      rw [hmeeting, h.meetingDate, List.findSome?_append, hvalue, hone, VttBlock.date?]

/-- **All the blocks**, one after another. -/
theorem Reads.run {blocks : List VttBlock} {texts : List Text}
    (hdate : ∀ v e, out.parseDate v = .error e → e.kind = .valueError ∨ e.kind = .overflowError)
    (ht : List.Forall₂ WrittenAs blocks texts) {before : List VttBlock} (h : Reads out before r) :
    ∃ r', texts.foldlM (handleBlock out) r = .ok r' ∧ Reads out (before ++ blocks) r' := by
  induction ht generalizing before r with
  | nil => exact ⟨r, rfl, by rwa [List.append_nil]⟩
  | @cons b t blocks texts hb _ ih =>
    obtain ⟨r₁, hr₁, h₁⟩ := h.step hdate hb
    obtain ⟨r₂, hr₂, h₂⟩ := ih h₁
    refine ⟨r₂, ?_, by simpa using h₂⟩
    rw [List.foldlM_cons, hr₁]
    exact hr₂

theorem parseVttText_written (eol : LineEnd) (final : Bool) (header : HeaderLine) {blocks : List VttBlock}
    (hcue : ∃ b ∈ blocks, b.isCue = true)
    (hdate : ∀ v e, out.parseDate v = .error e → e.kind = .valueError ∨ e.kind = .overflowError) :
    ∃ r, parseVttText out (universalNewlines (writeVtt eol final header blocks)) = .ok r ∧ Reads out blocks r := by
  obtain ⟨b, hb, hisCue⟩ := hcue
  obtain ⟨texts, hstrip, htexts⟩ := strip_writeVtt eol final header (List.ne_nil_of_mem hb)
  have hnext : texts.flatMap (("\n\n" : Text) ++ ·) = [] ∨
      (texts.flatMap (("\n\n" : Text) ++ ·)).head? = some '\n' := by
    cases texts with
    | nil => exact .inl rfl
    | cons t texts => exact .inr rfl
  have hheader : (matchAt webvttHeaderRe none (header.text ++ texts.flatMap (("\n\n" : Text) ++ ·))).isNone =
      false := by
    rw [← Option.not_isSome, header_matches header hnext]
    rfl
  have hsplit : split blockSplitRe (header.text ++ texts.flatMap (("\n\n" : Text) ++ ·)) = header.text :: texts :=
    splitFrom_blocks header.solid (solid_of_written htexts) none
  have hstart : Reads out [] {} := ⟨rfl, rfl, rfl⟩
  obtain ⟨r, hr, hreads⟩ := hstart.run hdate htexts
  have hcount : r.cueCount ≠ 0 := by
    rw [hreads.cueCount, Nat.ne_zero_iff_zero_lt, List.countP_pos_iff]
    exact ⟨b, hb, hisCue⟩
  refine ⟨r, ?_, hreads⟩
  simp only [parseVttText, hstrip, hheader, hsplit, List.drop_one, List.tail_cons, hr]
  exact if_neg hcount

/-- **A transcript is read back**: the speakers in the order of their first words, the number of cues, and the date that
the first note with a date gives. -/
theorem vtt_read_back (eol : LineEnd) (final : Bool) (header : HeaderLine) {blocks : List VttBlock}
    (hcue : ∃ b ∈ blocks, b.isCue = true)
    (hdate : ∀ v e, out.parseDate v = .error e → e.kind = .valueError ∨ e.kind = .overflowError)
    {w : World} {path : Text} {f : StoredFile} (hfile : w.files.find? path = some f)
    (htext : out.decode "utf-8-sig" f.content = .ok (writeVtt eol final header blocks)) :
    ∃ r, (parseVtt out path).run w = (.ok r, w) ∧ r.speakers = (blocks.filterMap VttBlock.speaker?).eraseDups ∧
      r.cueCount = blocks.countP VttBlock.isCue ∧ r.meetingDate = blocks.findSome? (VttBlock.date? out) := by
  obtain ⟨r, hparse, hreads⟩ := parseVttText_written eol final header hcue hdate
  have hread : (readBytes path).run w = (.ok f.content, w) := by
    rw [readBytes, run_observeE, hfile]
  refine ⟨r, ?_, hreads.speakers, hreads.cueCount, hreads.meetingDate⟩
  have hdecode : (Prog.ofExcept (out.decode "utf-8-sig" f.content) : M Text).run w =
      (.ok (writeVtt eol final header blocks), w) := by
    rw [htext]
    rfl
  rw [parseVtt, bind_eq, run_bind_ok hread, bind_eq, run_bind_ok hdecode, hparse]
  rfl

end

section
attribute [local instance] asciiChars

/-- The parser of dates knows one date. -/
def oneDate : Outside :=
  { Outside.plain with
    parseDate := fun v => if v = "2026-08-11" then .ok v else .error ⟨.valueError, "Unknown string format"⟩ }

def aliceHello : Cue where
  index := "1"
  start := "00:00:01.000"
  stop := "00:00:02.000"
  speaker := "Alice"
  text := "NOTE: 1 --> 2"
  index_ne := by decide
  index_digits := List.all_eq_true.1 (by decide)
  start_line := unbroken_of_all (by decide)
  stop_line := unbroken_of_all (by decide)
  speaker_ne := by decide
  speaker_short := by decide
  speaker_colon := by decide
  speaker_line := unbroken_of_all (by decide)
  speaker_stripped := by decide
  text_line := unbroken_of_all (by decide)

/-- A date that cannot be read, a cue, a date, and the cue again. -/
def twoDates : List VttBlock :=
  [.note ⟨"meeting-date: tomorrow", unbroken_of_all (by decide)⟩, .cue aliceHello,
    .note ⟨"Meeting-Date: 2026-08-11", unbroken_of_all (by decide)⟩, .cue aliceHello]

def plainHeader : HeaderLine := ⟨[], by rintro _ ⟨⟩, by rintro _ ⟨⟩⟩

def twoDatesFile : StoredFile :=
  ⟨"retro.vtt", (writeVtt .crlf true plainHeader twoDates).map fun c => c.toNat.toUInt8⟩

def twoDatesWorld : World := { files := ⟨[twoDatesFile], List.nodup_singleton _⟩ }

theorem vtt_read_back_twoDates :
    ∃ r, (parseVtt oneDate "retro.vtt").run twoDatesWorld = (.ok r, twoDatesWorld) ∧
      r.speakers = [("Alice" : Text)] ∧ r.cueCount = 2 ∧ r.meetingDate = some "2026-08-11" := by
  have hcue : ∃ b ∈ twoDates, b.isCue = true := ⟨.cue aliceHello, by simp [twoDates], rfl⟩
  have hdate : ∀ v e, oneDate.parseDate v = .error e → e.kind = .valueError ∨ e.kind = .overflowError := by
    intro v e he
    simp only [oneDate] at he
    split_ifs at he
    exact .inl (Except.error.inj he ▸ rfl)
  have hbytes : asciiText twoDatesFile.content = writeVtt .crlf true plainHeader twoDates := by decide +kernel
  have htext : oneDate.decode "utf-8-sig" twoDatesFile.content = .ok (writeVtt .crlf true plainHeader twoDates) :=
    congrArg Except.ok hbytes
  have hfile : twoDatesWorld.files.find? "retro.vtt" = some twoDatesFile := rfl
  obtain ⟨r, hr, hspeakers, hcount, hmeeting⟩ := vtt_read_back .crlf true plainHeader hcue hdate hfile htext
  exact ⟨r, hr, hspeakers.trans (by decide), hcount.trans (by decide), hmeeting.trans (by decide)⟩

end

end GroupAssessmentAgent
