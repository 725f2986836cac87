import GroupAssessmentAgent.World

/-!
# WEBVTT transcripts

`parseVtt` reads the blocks of a transcript one after another. A cue that cannot be read and a date that cannot be
parsed leave a warning; a text without the header or without any cue is an error.
-/

namespace GroupAssessmentAgent
open Regex Prog

inductive VttWarning where
  | noTimestampLine (block : Text)
  | noText
  | noSpeaker (cueText : Text)
  | badDate (value : Text)
  deriving DecidableEq

structure ParsedVtt where
  speakers : List Text := []
  meetingDate : Option Datetime := none
  cueCount : Nat := 0
  warnings : List VttWarning := []
  deriving DecidableEq

/-- The line ends that a text file is read with. -/
def universalNewlines : Text → Text
  | [] => []
  | '\r' :: '\n' :: s => '\n' :: universalNewlines s
  | c :: s => (if c = '\r' then '\n' else c) :: universalNewlines s

def notNewline (c : Char) : Bool := c != '\n'

def notSpeakerEnd (c : Char) : Bool := c != ':' && c != '\n'

/-- `^WEBVTT\b`. -/
def webvttHeaderRe [PyChars] : Re := .seq .bos (.seq (.lit "WEBVTT") (.wordB isWord))

/-- `^meeting-date:\s*(?P<value>.+)$`, in any case. -/
def noteDateRe : Re :=
  .seq .bos (.seq (litIgnoreCase "meeting-date:") (.seq (.star isSpace)
    (.seq (.group 1 (.plus notNewline)) .eos)))

/-- `^(?P<speaker>[^:\n]{1,100}):\s?(?P<text>.*)$`. -/
def cueSpeakerRe : Re :=
  .seq .bos (.seq (.group 1 (.seq (.one notSpeakerEnd) (.upto 99 notSpeakerEnd))) (.seq (.lit ":")
    (.seq (.opt (.one isSpace)) (.seq (.group 2 (.star notNewline)) .eos))))

/-- `\r?\n\r?\n+`. -/
def blockSplitRe : Re :=
  .seq (.opt (.lit "\r")) (.seq (.lit "\n") (.seq (.opt (.lit "\r")) (.plus (· == '\n'))))

namespace ParsedVtt

def warn (r : ParsedVtt) (w : VttWarning) : ParsedVtt := { r with warnings := r.warnings ++ [w] }

def addSpeaker (r : ParsedVtt) (speaker : Text) : ParsedVtt :=
  if speaker = [] ∨ speaker ∈ r.speakers then r else { r with speakers := r.speakers ++ [speaker] }

end ParsedVtt

/-- The lines of a cue after its optional number. -/
def cueLinesOf [PyChars] : List Text → List Text
  | line :: lines => if strip line ≠ [] ∧ (strip line).all isDigit then lines else line :: lines
  | [] => []

/-- `_handle_cue_block`. -/
def handleCueBlock [PyChars] (lines : List Text) (block : Text) (r : ParsedVtt) : ParsedVtt :=
  match cueLinesOf lines with
  | [] => r.warn (.noTimestampLine (block.take 80))
  | timestamps :: textLines =>
    if !contains "-->" timestamps then r.warn (.noTimestampLine (block.take 80))
    else if textLines = [] then r.warn .noText
    else
      let counted := { r with cueCount := r.cueCount + 1 }
      let cueText := strip (join " " textLines)
      match (matchAt cueSpeakerRe none cueText).bind (·.group 1) with
      | none => counted.warn (.noSpeaker (cueText.take 80))
      | some speaker => counted.addSpeaker (strip speaker)

/-- The text of a note, without its keyword. -/
def noteBody (lines : List Text) : Text :=
  let first := (strip (lines.headD [])).drop 4
  join " " ((strip first :: lines.tail.map strip).filter (· ≠ []))

/-- `_handle_note_block`. -/
def handleNoteBlock (out : Outside) (lines : List Text) (r : ParsedVtt) : Except Exc ParsedVtt :=
  if r.meetingDate ≠ none then .ok r
  else
    match (matchAt noteDateRe none (noteBody lines)).bind (·.group 1) with
    | none => .ok r
    | some value =>
      match out.parseDate (strip value) with
      | .ok date => .ok { r with meetingDate := some date }
      | .error e =>
        if e.kind = .valueError ∨ e.kind = .overflowError then .ok (r.warn (.badDate (strip value)))
        else .error e

/-- One round of the loop over the blocks. -/
def handleBlock [PyChars] (out : Outside) (r : ParsedVtt) (block : Text) : Except Exc ParsedVtt :=
  match (splitlines block).filter fun line => strip line ≠ [] with
  | [] => .ok r
  | first :: rest =>
    if startsWith ((strip first).map Char.toUpper) "NOTE" then handleNoteBlock out (first :: rest) r
    else .ok (handleCueBlock (first :: rest) block r)

/-- `parse_vtt`, on the text of the file. -/
def parseVttText [PyChars] (out : Outside) (text : Text) : Except Exc ParsedVtt :=
  let stripped := strip text
  if (matchAt webvttHeaderRe none stripped).isNone then
    .error ⟨.vttParseError, "File does not start with a WEBVTT header"⟩
  else do
    let result ← ((split blockSplitRe stripped).drop 1).foldlM (handleBlock out) {}
    if result.cueCount = 0 then throw ⟨.vttParseError, "No cues found in VTT file"⟩
    else return result

/-- `Path(path).read_bytes()`. -/
def readBytes (path : Text) : M Bytes :=
  observeE .readFile fun w =>
    match w.files.find? path with
    | some f => .ok f.content
    | none => .error ⟨.osError, cat ["[Errno 2] No such file or directory: '", path, "'"]⟩

/-- `parse_vtt`. -/
def parseVtt [PyChars] (out : Outside) (path : Text) : M ParsedVtt := do
  let content ← readBytes path
  let text ← Prog.ofExcept (out.decode "utf-8-sig" content)
  Prog.ofExcept (parseVttText out (universalNewlines text))

end GroupAssessmentAgent
