import GroupAssessmentAgent.Python.Text

/-!
# The command schema

What the model's JSON has to satisfy before anything looks at it. `RawCommand` holds the values that the JSON
decoder found for the declared fields, with their declared types; `modelValidate` makes a `ParsedCommand` of it or
lists the fields that fail. A `ParsedCommand` carries what the checks established.
-/

namespace GroupAssessmentAgent
open Regex

inductive Operation where
  | submitTranscript | status | results | cancel | assessQuery | help
  deriving DecidableEq, Repr

namespace Operation

def value : Operation → Text
  | submitTranscript => "submit_transcript"
  | status => "status"
  | results => "results"
  | cancel => "cancel"
  | assessQuery => "assess_query"
  | help => "help"

def all : List Operation := [submitTranscript, status, results, cancel, assessQuery, help]

def ofValue (v : Text) : Option Operation := all.find? fun op => op.value = v

end Operation

/-- The values of the declared fields. -/
structure RawCommand where
  operation : Text
  attachment : Option Text := none
  groupHint : Option Text := none
  jobId : Option Text := none
  mentionedDate : Option Text := none
  returnStatistics : Bool := false
  transcriptFocus : Option Text := none
  githubFocus : Option Text := none
  trelloFocus : Option Text := none
  requiresClarification : Bool := false
  clarificationQuestion : Option Text := none
  deriving DecidableEq

/-- A failed check: the field it is about, and the message. -/
structure FieldError where
  loc : Text
  message : Text
  deriving DecidableEq

section
variable [PyChars]

/-- `DIAR-\d{4}-\d{4}-\d{4}`. -/
def jobIdRe : Re :=
  .seq (.lit "DIAR-") (.seq (.times 4 isDecimal) (.seq (.lit "-") (.seq (.times 4 isDecimal)
    (.seq (.lit "-") (.times 4 isDecimal)))))

/-- `JOB_ID_PATTERN`, whose `$` is the end of the text in the schema's regex engine. -/
def isJobId (s : Text) : Bool := fullMatch jobIdRe s

def jobIdPattern : Text := "^DIAR-\\d{4}-\\d{4}-\\d{4}$"

end

/-- `_PATH_TRAVERSAL_CHARS`. -/
def pathTraversalChars : List Char := ['/', '\\', Char.ofNat 0]

/-- The text names a file, not a path. -/
def BareFilename (v : Text) : Prop := (∀ c ∈ pathTraversalChars, c ∉ v) ∧ contains ".." v = false

instance (v : Text) : Decidable (BareFilename v) := inferInstanceAs (Decidable (_ ∧ _))

/-- `_strip_and_reject_blank`. -/
def stripAndRejectBlank (v : Option Text) : Option Text := truthy (v.map strip)

/-- `Field(max_length=n)`. -/
def checkMaxLength (loc : Text) (n : Nat) (v : Option Text) : List FieldError :=
  if v.any fun s => s.length > n then [⟨loc, cat ["String should have at most ", natText n, " characters"]⟩] else []

/-- The checks of `attachment`, in their order: the length first, then `_attachment_no_path_chars`. -/
def checkAttachment (v : Option Text) : List FieldError :=
  match checkMaxLength "attachment" 255 v with
  | [] => if ∀ s ∈ v, BareFilename s then []
    else [⟨"attachment", "Value error, attachment must be a bare filename, not a path"⟩]
  | errors => errors

def checkJobId [PyChars] (v : Option Text) : List FieldError :=
  if ∀ s ∈ v, isJobId s then []
  else [⟨"job_id", cat ["String should match pattern '", jobIdPattern, "'"]⟩]

/-- The failed checks of the fields other than `operation`, in the order of their declaration. -/
def fieldErrors [PyChars] (raw : RawCommand) : List FieldError :=
  checkAttachment raw.attachment ++ checkMaxLength "group_hint" 200 raw.groupHint ++ checkJobId raw.jobId ++
    checkMaxLength "mentioned_date" 64 raw.mentionedDate ++
    checkMaxLength "transcript_focus" 300 raw.transcriptFocus ++
    checkMaxLength "github_focus" 300 raw.githubFocus ++ checkMaxLength "trello_focus" 300 raw.trelloFocus ++
    checkMaxLength "clarification_question" 500 raw.clarificationQuestion

def operationError : FieldError :=
  ⟨"operation", "Input should be 'submit_transcript', 'status', 'results', 'cancel', 'assess_query' or 'help'"⟩

def questionError : FieldError :=
  ⟨"", "Value error, clarification_question is required when requires_clarification is true"⟩

/-- A command that passed the schema. -/
structure ParsedCommand [PyChars] where
  operation : Operation
  attachment : Option Text
  groupHint : Option Text
  jobId : Option Text
  mentionedDate : Option Text
  returnStatistics : Bool
  transcriptFocus : Option Text
  githubFocus : Option Text
  trelloFocus : Option Text
  requiresClarification : Bool
  clarificationQuestion : Option Text
  bare : ∀ s ∈ attachment, BareFilename s
  wellNumbered : ∀ s ∈ jobId, isJobId s
  asksSomething : requiresClarification = true → ∃ q, clarificationQuestion = some q ∧ q ≠ []

/-! ### What the checks establish -/

theorem contains_iff_isInfix (pat s : Text) : contains pat s = true ↔ pat <:+: s := by
  induction s with
  | nil => simp [contains]
  | cons c s ih => rw [contains, Bool.or_eq_true, ih, List.isPrefixOf_iff_prefix, List.infix_cons_iff]

theorem BareFilename.of_isInfix {s t : Text} (h : BareFilename t) (hst : s <:+: t) : BareFilename s := by
  refine ⟨fun c hc hmem => h.1 c hc (hst.subset hmem), ?_⟩
  by_contra hne
  have hdots : (".." : Text) <:+: s := (contains_iff_isInfix _ _).1 (by simpa using hne)
  have hcontains : contains ".." t = true := (contains_iff_isInfix _ _).2 (hdots.trans hst)
  rw [h.2] at hcontains
  cases hcontains

theorem mem_stripAndRejectBlank {v : Option Text} {s : Text} (h : s ∈ stripAndRejectBlank v) :
    s ≠ [] ∧ ∃ t ∈ v, s = strip t := by
  obtain ⟨hmap, hne⟩ := truthy_eq_some.1 h
  obtain ⟨t, ht, hs⟩ := Option.map_eq_some_iff.1 hmap
  exact ⟨hne, t, ht, hs.symm⟩

theorem bare_of_checkAttachment {v : Option Text} (h : checkAttachment v = []) : ∀ s ∈ v, BareFilename s := by
  unfold checkAttachment at h
  split at h
  · split_ifs at h with hbare
    exact hbare
  · next hne => exact absurd h hne

variable [PyChars]

theorem wellNumbered_of_checkJobId {v : Option Text} (h : checkJobId v = []) : ∀ s ∈ v, isJobId s := by
  unfold checkJobId at h
  split_ifs at h with hid
  exact hid

theorem fieldErrors_eq_nil {raw : RawCommand} (h : fieldErrors raw = []) :
    checkAttachment raw.attachment = [] ∧ checkJobId raw.jobId = [] := by
  simp only [fieldErrors, List.append_eq_nil_iff] at h
  tauto

/-- `ParsedCommand.model_validate`. -/
def modelValidate (raw : RawCommand) : Except (List FieldError) ParsedCommand :=
  match Operation.ofValue raw.operation with
  | none => .error (operationError :: fieldErrors raw)
  | some op =>
    if h : fieldErrors raw = [] then
      let question := stripAndRejectBlank raw.clarificationQuestion
      if hq : raw.requiresClarification = true ∧ question = none then .error [questionError]
      else .ok {
        operation := op
        attachment := stripAndRejectBlank raw.attachment
        groupHint := stripAndRejectBlank raw.groupHint
        jobId := raw.jobId
        mentionedDate := stripAndRejectBlank raw.mentionedDate
        returnStatistics := raw.returnStatistics
        transcriptFocus := stripAndRejectBlank raw.transcriptFocus
        githubFocus := stripAndRejectBlank raw.githubFocus
        trelloFocus := stripAndRejectBlank raw.trelloFocus
        requiresClarification := raw.requiresClarification
        clarificationQuestion := question
        bare := by
          intro s hs
          obtain ⟨_, t, ht, rfl⟩ := mem_stripAndRejectBlank hs
          exact (bare_of_checkAttachment (fieldErrors_eq_nil h).1 t ht).of_isInfix (strip_isInfix t)
        wellNumbered := wellNumbered_of_checkJobId (fieldErrors_eq_nil h).2
        asksSomething := by
          intro hreq
          cases hsome : question with
          | none => exact absurd ⟨hreq, hsome⟩ hq
          | some q => exact ⟨q, rfl, (mem_stripAndRejectBlank hsome).1⟩ }
    else .error (fieldErrors raw)

end GroupAssessmentAgent
