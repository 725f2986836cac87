import GroupAssessmentAgent.Commands.Validator
import GroupAssessmentAgent.Mail.ThreadMatcher

/-!
# Which job a command names

STATUS, RESULTS and CANCEL act on one job. The email points to a job by its headers or its text (`findThread` is what
`ThreadMatcher.match` makes of them), and the model may name one as well. `namesPointed_iff`: the job of an accepted
command is one that the email points to, except where the model names a job of the sender that the email says nothing
of (`ModelChooses`). There the validator takes the model's word, since it looks at the model's id first and asks only
whose job it is.
-/

namespace GroupAssessmentAgent
open Prog

/-- The operations on one job. -/
def Operation.NamesJob (op : Operation) : Prop := op = .status ∨ op = .results ∨ op = .cancel

instance (op : Operation) : Decidable op.NamesJob := inferInstanceAs (Decidable (_ ∨ _ ∨ _))

namespace ThreadMatcher
variable [PyChars]

/-- The job that one reference leads to, on the rows of the tables. -/
def findReference (w : World) (senderEmail ref : Text) : Option Job :=
  (JobStore.findByResponse w ref senderEmail).or (JobStore.findByLastResponse w ref senderEmail)

/-- `ThreadMatcher.match`, on the rows of the tables. -/
def findThread (w : World) (msg : EmailMessage) (senderEmail : Text) : Option Text :=
  (((referencedMessageIds msg.inReplyTo msg.references).findSome? (findReference w senderEmail)).map Job.jobId).or
    (match foundJobIds msg with
    | [jobId] => (JobStore.findOwned w jobId senderEmail).map Job.jobId
    | _ => none)

omit [PyChars] in
theorem matchReference_run (senderEmail ref : Text) (w : World) :
    (matchReference senderEmail ref).run w = (.ok (findReference w senderEmail ref), w) := by
  unfold matchReference findReference
  rw [bind_eq, run_bind_ok (run_observe _ _ w)]
  cases JobStore.findByResponse w ref senderEmail with
  | some job => rfl
  | none => rfl

omit [PyChars] in
theorem matchReferences_run (senderEmail : Text) (refs : List Text) (w : World) :
    (matchReferences senderEmail refs).run w =
      (.ok ((refs.findSome? (findReference w senderEmail)).map Job.jobId), w) := by
  induction refs with
  | nil => rfl
  | cons ref refs ih =>
    rw [matchReferences, bind_eq, run_bind_ok (matchReference_run senderEmail ref w), List.findSome?_cons]
    cases findReference w senderEmail ref with
    | some job => rfl
    | none => exact ih

theorem matchJob_run (msg : EmailMessage) (senderEmail : Text) (w : World) :
    (matchJob msg senderEmail).run w = (.ok (findThread w msg senderEmail), w) := by
  unfold matchJob findThread
  rw [bind_eq, run_bind_ok (matchReferences_run senderEmail _ w)]
  cases (referencedMessageIds msg.inReplyTo msg.references).findSome? (findReference w senderEmail) with
  | some job => rfl
  | none =>
    simp only [Option.map_none, Option.none_or]
    generalize foundJobIds msg = ids
    obtain _ | ⟨jobId, _ | ⟨_, _⟩⟩ := ids <;> rfl

end ThreadMatcher

section
variable [PyChars] (limits : LimitsSettings) (cmd : ParsedCommand) (msg : EmailMessage) (senderEmail : Text) (w : World)

/-- The validation of a command for an email: `validate_command` gets what `ThreadMatcher` finds. -/
def validateFor : M (Option Text × ValidatedCommand) := do
  let threadJobId ← ThreadMatcher.matchJob msg senderEmail
  let validated ← validateCommand cmd
    { attachments := msg.attachments.map Attachment.meta, threadJobId, senderEmail, limits }
  return (threadJobId, validated)

/-- The id stands in the subject or the body. -/
def Mentions (msg : EmailMessage) (jobId : Text) : Prop :=
  contains jobId msg.subject = true ∨ contains jobId msg.bodyText = true

/-- The email points to the job: by its thread, or because the id stands in it. -/
def PointsTo (threadJobId : Option Text) (msg : EmailMessage) (jobId : Text) : Prop :=
  threadJobId = some jobId ∨ Mentions msg jobId

instance (msg : EmailMessage) (jobId : Text) : Decidable (Mentions msg jobId) := inferInstanceAs (Decidable (_ ∨ _))

instance (threadJobId : Option Text) (msg : EmailMessage) (jobId : Text) : Decidable (PointsTo threadJobId msg jobId) :=
  inferInstanceAs (Decidable (_ ∨ _))

/-- An accepted command names a job, one that the email points to. -/
def NamesPointed : Prop :=
  ∀ threadJobId validated, ((validateFor limits cmd msg senderEmail).run w).1 = .ok (threadJobId, validated) →
    ∃ jobId, validated.jobId = some jobId ∧ PointsTo threadJobId msg jobId

/-- The model names a job of the sender that the email does not point to. -/
def ModelChooses : Prop :=
  cmd.requiresClarification = false ∧ ∃ jobId, cmd.jobId = some jobId ∧
    (JobStore.findOwned w jobId senderEmail).isSome ∧
      ¬ PointsTo (ThreadMatcher.findThread w msg senderEmail) msg jobId

/-- No job id is empty, so the model's id counts wherever there is one. -/
theorem truthy_jobId : truthy cmd.jobId = cmd.jobId := by
  cases h : cmd.jobId with
  | none => rfl
  | some jobId =>
    apply truthy_eq_some.2
    refine ⟨rfl, ?_⟩
    rintro rfl
    have hid : isJobId [] = true := cmd.wellNumbered [] h
    simp [isJobId, Regex.fullMatch, jobIdRe, Regex.Re.lit, Regex.Re.go] at hid

variable {cmd} in
theorem validateCommand_namesJob (hop : cmd.operation.NamesJob)
    (hclear : cmd.requiresClarification = false) (ctx : ValidationContext) :
    validateCommand cmd ctx = validateJobReferenceOperation cmd ctx := by
  unfold validateCommand
  rw [hclear]
  rcases hop with hop | hop | hop <;> rw [hop] <;> rfl

/-- What an accepted command on one job names: the model's id before that of the thread, and a job of the sender. -/
theorem validateFor_ok (hop : cmd.operation.NamesJob) (threadJobId : Option Text) (validated : ValidatedCommand) :
    ((validateFor limits cmd msg senderEmail).run w).1 = .ok (threadJobId, validated) ↔
      threadJobId = ThreadMatcher.findThread w msg senderEmail ∧ cmd.requiresClarification = false ∧
        ∃ jobId, cmd.jobId.or (truthy threadJobId) = some jobId ∧ (JobStore.findOwned w jobId senderEmail).isSome ∧
          validated =
            { operation := cmd.operation, jobId := some jobId, returnStatistics := cmd.returnStatistics } := by
  rw [validateFor, bind_eq, run_bind_ok (ThreadMatcher.matchJob_run msg senderEmail w)]
  generalize ThreadMatcher.findThread w msg senderEmail = thread
  cases hclear : cmd.requiresClarification with
  | true => simp [validateCommand, hclear]
  | false =>
    rw [validateCommand_namesJob hop hclear, validateJobReferenceOperation, truthy_jobId cmd]
    cases hid : cmd.jobId.or (truthy thread) with
    | none =>
      simp only [bind_eq, throw_eq, raise_bind, run_raise, reduceCtorEq, false_iff]
      rintro ⟨rfl, _, jobId, hjob, _⟩
      cases hid.symm.trans hjob
    | some jobId =>
      simp only [JobStore.getOwned, bind_eq]
      rw [run_bind, run_bind, run_observe]
      cases howned : JobStore.findOwned w jobId senderEmail with
      | none =>
        simp only [throw_eq, run_raise, reduceCtorEq, false_iff]
        rintro ⟨rfl, _, jobId', hjob, hsome, _⟩
        rw [hid] at hjob
        cases hjob
        simp [howned] at hsome
      | some job =>
        simp only [pure_eq, run_ret, Except.ok.injEq, Prod.mk.injEq, true_and]
        constructor
        · rintro ⟨rfl, rfl⟩
          exact ⟨rfl, jobId, hid, by simp [howned], rfl⟩
        · rintro ⟨rfl, jobId', hjob, _, rfl⟩
          rw [hid] at hjob
          cases hjob
          exact ⟨rfl, rfl⟩

/-- **The model chooses a job only where it names one that the email does not point to.** -/
theorem namesPointed_iff (hop : cmd.operation.NamesJob) :
    NamesPointed limits cmd msg senderEmail w ↔ ¬ ModelChooses cmd msg senderEmail w := by
  constructor
  · rintro h ⟨hclear, jobId, hid, howned, hnot⟩
    have hrun := (validateFor_ok limits cmd msg senderEmail w hop _ _).2
      ⟨rfl, hclear, jobId, by rw [hid]; rfl, howned, rfl⟩
    obtain ⟨jobId', hjob, hpoints⟩ := h _ _ hrun
    cases hjob
    exact hnot hpoints
  · intro h threadJobId validated hrun
    obtain ⟨rfl, hclear, jobId, hid, howned, rfl⟩ := (validateFor_ok limits cmd msg senderEmail w hop _ _).1 hrun
    refine ⟨jobId, rfl, ?_⟩
    cases hmodel : cmd.jobId with
    | none =>
      rw [hmodel, Option.none_or] at hid
      exact .inl (truthy_eq_some.1 hid).1
    | some jobId' =>
      rw [hmodel, Option.some_or] at hid
      cases hid
      by_contra hnot
      exact h ⟨hclear, jobId, hmodel, howned, hnot⟩

end

section
attribute [local instance] asciiChars

/-- One job of alice's. -/
def aliceJobs : World :=
  { jobs := ⟨[{ jobId := "DIAR-2026-0811-0001", senderEmail := "alice@uni.ac.uk", backendUserId := 12,
                sourceMessageId := "<1@uni>", operation := "submit_transcript", status := .queued, createdAt := 0 }],
      List.nodup_singleton _⟩ }

/-- The model's answer to a message that names no job. -/
def cancelCommand (jobId : Option Text) (h : ∀ s ∈ jobId, isJobId s) : ParsedCommand :=
  { operation := .cancel, attachment := none, groupHint := none, jobId, mentionedDate := none,
    returnStatistics := false, transcriptFocus := none, githubFocus := none, trelloFocus := none,
    requiresClarification := false, clarificationQuestion := none, bare := by simp, wellNumbered := h,
    asksSomething := by simp }

theorem firstJob_wellNumbered : ∀ s ∈ (some "DIAR-2026-0811-0001".toList : Option Text), isJobId s := by
  rintro _ ⟨⟩
  decide +kernel

/-- The model names alice's job. -/
def cancelFirst : ParsedCommand := cancelCommand _ firstJob_wellNumbered

/-- The model names none. -/
def cancelUnnamed : ParsedCommand := cancelCommand none (by simp)

def cancelMessage : EmailMessage :=
  { messageId := "<2@uni.ac.uk>", providerRef := "2", fromAddress := "alice@uni.ac.uk", subject := "Question",
    bodyText := "Could you cancel my request?", receivedAt := "2026-08-11T00:00:00+00:00",
    authSignals := { dmarc := some "pass" } }

/-- The same with the id in the subject, which `ThreadMatcher` finds. -/
def cancelByHand : EmailMessage := { cancelMessage with subject := "Re: DIAR-2026-0811-0001" }

/-- The command is accepted for the job of the thread. -/
theorem namesPointed_noId :
    ((validateFor {} cancelUnnamed cancelByHand "alice@uni.ac.uk").run aliceJobs).1 =
        .ok (some "DIAR-2026-0811-0001", { operation := .cancel, jobId := some "DIAR-2026-0811-0001" }) ∧
      NamesPointed {} cancelUnnamed cancelByHand "alice@uni.ac.uk" aliceJobs := by
  have hop : cancelUnnamed.operation.NamesJob := .inr (.inr rfl)
  refine ⟨?_, (namesPointed_iff {} cancelUnnamed cancelByHand "alice@uni.ac.uk" aliceJobs hop).2 ?_⟩
  · have hthread : ThreadMatcher.findThread aliceJobs cancelByHand "alice@uni.ac.uk" = some "DIAR-2026-0811-0001" := by
      decide +kernel
    exact (validateFor_ok {} _ cancelByHand "alice@uni.ac.uk" aliceJobs hop _ _).2
      ⟨hthread.symm, rfl, _, rfl, by decide +kernel, rfl⟩
  · rintro ⟨-, jobId, hid, -⟩
    cases hid

/-- The model picks a job that the message says nothing of. -/
theorem model_chooses : ¬ ∀ (limits : LimitsSettings) (cmd : ParsedCommand) (msg : EmailMessage) (senderEmail : Text)
    (w : World), cmd.operation.NamesJob → NamesPointed limits cmd msg senderEmail w := by
  intro h
  have hop : cancelFirst.operation.NamesJob := .inr (.inr rfl)
  have hrun := (validateFor_ok {} cancelFirst cancelMessage "alice@uni.ac.uk" aliceJobs hop _ _).2
    ⟨rfl, rfl, _, rfl, by decide +kernel, rfl⟩
  obtain ⟨jobId, hjob, hpoints⟩ := h {} cancelFirst cancelMessage "alice@uni.ac.uk" aliceJobs hop _ _ hrun
  cases hjob
  exact absurd hpoints (by decide +kernel)

end

end GroupAssessmentAgent
