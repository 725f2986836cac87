import GroupAssessmentAgent.Pipeline.Conclusions

/-!
# Jobs of one message

An attempt at a message adds at most one job with its Message-ID, in `create_job`, and nothing but an attempt adds one
(`processMessage_adds`). The ledger does not know of the job before `finalize`: an attempt that stops between the two
is tried again, and the next one adds another job (`two_jobs`). `atMostOneJob_cleanStarts`: there is at most one job
in all runs in which no attempt is begun that would be admitted although an earlier one has left a job.
-/

namespace GroupAssessmentAgent
open Prog

/-- The number of jobs that came from a Message-ID. -/
def jobsFrom (messageId : Text) (w : World) : Nat := (w.jobs.rows.map Job.sourceMessageId).count messageId

theorem overlooks_jobsFrom (messageId : Text) : Overlooks (jobsFrom messageId) where
  tick _ := rfl
  job w jobId fields := by
    rw [jobsFrom, World.writeJob, World.modifyJob, Table.map_modify Job.sourceMessageId _ _ _ _ (by simp)]
    rfl
  status w jobId status fields := by
    rw [jobsFrom, World.writeStatus, World.modifyJob, Table.map_modify Job.sourceMessageId _ _ _ _ (by simp)]
    rfl
  outbox _ _ := rfl
  clarifications _ _ := rfl
  alerts _ _ := rfl
  files _ _ _ := rfl
  generations _ _ := rfl

theorem overlooksLedger_jobsFrom (messageId : Text) : OverlooksLedger (jobsFrom messageId) :=
  ⟨fun _ _ => rfl, fun _ _ => rfl⟩

section
variable (messageId : Text)

/-- What happens besides the attempts at the message: the worker, other messages, the weekly command. -/
def SameJobsFrom (w w' : World) : Prop :=
  jobsFrom messageId w' = jobsFrom messageId w ∧ entryOf w' messageId = entryOf w messageId

/-- The guarantee of an attempt. -/
def KeepsOneJob (w w' : World) : Prop := jobsFrom messageId w ≤ 1 → jobsFrom messageId w' ≤ 1

/-- The judgement of a program that may add a job, where there is none. -/
def Adds {α : Type} (p : M α) : Prop :=
  ∀ w, jobsFrom messageId w = 0 → Inside Failing (SameJobsFrom messageId) (KeepsOneJob messageId) p w

variable {messageId} {α β : Type}

theorem SameJobsFrom.refl (w : World) : SameJobsFrom messageId w w := ⟨rfl, rfl⟩

theorem SameJobsFrom.trans {a b c : World} (h : SameJobsFrom messageId a b) (h' : SameJobsFrom messageId b c) :
    SameJobsFrom messageId a c :=
  ⟨h'.1.trans h.1, h'.2.trans h.2⟩

theorem keepsOneJob_of_eq {w w' : World} (h : jobsFrom messageId w' = jobsFrom messageId w) :
    KeepsOneJob messageId w w' := by
  rw [KeepsOneJob, h]
  exact id

theorem keeps_rg {p : M α} (hp : Keeps (jobsFrom messageId) p) (w : World) :
    RG Failing (SameJobsFrom messageId) (KeepsOneJob messageId)
      (fun _ w' => jobsFrom messageId w' = jobsFrom messageId w) p w :=
  hp.rg (fun _ _ h => h.1) (fun _ _ h => keepsOneJob_of_eq h) w

theorem Adds.of_keeps {p : M α} (hp : Keeps (jobsFrom messageId) p) : Adds messageId p :=
  fun w _ => (keeps_rg hp w).inside

theorem Adds.after {p : M α} {g : α → M β} (hp : Keeps (jobsFrom messageId) p) (hg : ∀ a, Adds messageId (g a)) :
    Adds messageId (p.bind g) :=
  fun w hw => RG.bind SameJobsFrom.refl (keeps_rg hp w) (fun a s hs => hg a s (hs.trans hw)) fun _ _ _ => trivial

theorem Adds.bind {p : M α} {g : α → M β} (hp : Adds messageId p) (hg : ∀ a, Keeps (jobsFrom messageId) (g a)) :
    Adds messageId (p.bind g) :=
  fun w hw => Inside.bind SameJobsFrom.refl (hp w hw) fun a s => (keeps_rg (hg a) s).inside

theorem Adds.tryCatch {p : M α} {h : Exc → M α} (hp : Adds messageId p)
    (hh : ∀ e, Keeps (jobsFrom messageId) (h e)) : Adds messageId (p.tryCatch h) :=
  fun w hw => Inside.tryCatch SameJobsFrom.refl (hp w hw) fun e s => (keeps_rg (hh e) s).inside

theorem Adds.catching {p : M α} (hp : Adds messageId p) (kinds : List ExcKind) : Adds messageId (catching kinds p) := by
  refine Adds.tryCatch (hp.bind fun _ => trivial) fun e => ?_
  split_ifs <;> trivial

end

/-! ### `create_job` -/

section
variable {messageId : Text} (out : Outside)

/-- An `IntegrityError` leaves no job. -/
def NoneIfRefused (messageId : Text) {α : Type} (x : Except Exc α) (w : World) : Prop :=
  ∀ e, x = .error e → e.kind = .integrityError → jobsFrom messageId w = 0

theorem stable_noneIfRefused {α : Type} (x : Except Exc α) :
    Stable (SameJobsFrom messageId) (NoneIfRefused messageId x) :=
  fun _ _ h hs e he hkind => h.1.trans (hs e he hkind)

theorem insertJob_rg (pre : Text) (attempt : Nat) (row : Text → Job) (source : Text) {w : World}
    (hw : jobsFrom messageId w = 0) :
    RG Failing (SameJobsFrom messageId) (KeepsOneJob messageId) (NoneIfRefused messageId)
      (JobStore.insertJob pre attempt row source) w := by
  have hstable : Stable (SameJobsFrom messageId) fun w => jobsFrom messageId w = 0 := fun _ _ h hw => h.1.trans hw
  refine rg_atomic hstable stable_noneIfRefused (fun s hs _ => ?_) (fun s e hs _ _ _ _ => hs) hw
  simp only
  split
  · next t ht =>
    refine ⟨fun _ => ?_, fun e he => by cases he⟩
    simp only [jobsFrom, Table.insert?_rows ht, List.map_append, List.map_cons, List.map_nil, List.count_append]
    have hzero : (s.jobs.rows.map Job.sourceMessageId).count messageId = 0 := hs
    have hone := List.count_le_length (a := messageId)
      (l := [(row (JobStore.jobIdOf pre ((s.jobs.rows.filter fun j => likePrefix pre j.jobId).length + 1 +
        attempt))).sourceMessageId])
    rw [List.length_singleton] at hone
    omega
  · exact ⟨fun h => h, fun _ _ _ => hs⟩

theorem createJob_adds (senderEmail : Text) (userId : Nat) (source operation : Text) (fields : List JobField) :
    Adds messageId (JobStore.createJob out senderEmail userId source operation fields) := by
  have hφ := overlooks_jobsFrom messageId
  refine Adds.after (utcnow_always hφ.covers out) fun now => ?_
  suffices hrounds : ∀ rounds attempt, Adds messageId (JobStore.createJobFrom out senderEmail userId source operation
      fields (JobStore.jobIdPrefix now.date) rounds attempt) from hrounds 10 0
  intro rounds
  induction rounds with
  | zero => exact fun _ => .of_keeps trivial
  | succ rounds ih =>
    intro attempt
    refine Adds.after (utcnow_always hφ.covers out) fun createdAt w hw => ?_
    have hcreate : RG Failing (SameJobsFrom messageId) (KeepsOneJob messageId) (NoneIfRefused messageId)
        ((JobStore.insertJob (JobStore.jobIdPrefix now.date) attempt
          (JobStore.received senderEmail userId source operation fields createdAt) source).bind JobStore.get) w := by
      refine RG.bind SameJobsFrom.refl (insertJob_rg _ _ _ _ hw) (fun jobId s _ => ?_) fun e s hs e' he' => ?_
      · -- a SELECT raises no `IntegrityError`, so the loop never repeats an INSERT that has taken effect
        exact rg_observe (P := fun _ => True) (fun _ _ _ _ => trivial) stable_noneIfRefused
          (fun s _ => ⟨fun h => h, fun e he => by cases he⟩)
          (fun s e _ hfault e' he' hkind => by cases he'; exact absurd hkind hfault) trivial
      · cases he'
        exact hs e rfl
    refine RG.tryCatch SameJobsFrom.refl hcreate (fun _ _ _ => trivial) fun e s hs => ?_
    split_ifs with hkind
    · exact ih _ s (hs e rfl hkind)
    · exact fun _ _ => trivial

end

/-! ### An attempt -/

section
variable [PyChars] {messageId : Text} (out : Outside) (p : EmailProcessingPipeline)

theorem dispatch_adds (cmd : ValidatedCommand) (msg : EmailMessage) (senderEmail : Text) (userId : Nat) :
    Adds messageId (p.dispatch out cmd msg senderEmail userId) := by
  have hφ := overlooks_jobsFrom messageId
  refine Adds.bind ?_ fun _ => trivial
  unfold EmailProcessingPipeline.callHandler
  cases cmd.operation with
  | submitTranscript =>
    simp only [SubmitTranscript.accept]
    split
    · exact .of_keeps trivial
    · split
      · exact .of_keeps trivial
      · refine (createJob_adds out _ _ _ _ _).bind fun job => (createdJobId_always job).bind fun jobId => ?_
        exact acceptCreated_always hφ.covers out cmd _ (fun _ _ _ => trivial) trivial _ _ _ _
  | status => exact .of_keeps (status_always hφ.covers out cmd _ fun _ _ _ => trivial)
  | results => exact .of_keeps (results_always hφ.covers out cmd _ fun _ _ => trivial)
  | cancel => exact .of_keeps (cancel_always hφ.covers out cmd _ (fun _ _ _ => trivial) fun _ => trivial)
  | assessQuery =>
    refine (createJob_adds out _ _ _ _ _).bind fun job => (createdJobId_always job).bind fun jobId => ?_
    refine (setStatus_always hφ.covers out trivial _ _).bind fun _ => ?_
    refine (setStatus_always hφ.covers out trivial _ _).bind fun _ => ?_
    exact (request_always hφ.covers out _ _ _ _ fun _ _ _ => trivial).bind fun _ => trivial
  | help => exact .of_keeps (help_always hφ.covers out _ fun _ _ _ => trivial)

theorem runCommand_adds (msg : EmailMessage) (senderEmail : Text) (userId : Nat) (threadJobId : Option Text)
    (cmd : ParsedCommand) : Adds messageId (p.runCommand out msg senderEmail userId threadJobId cmd) := by
  have hφ := overlooks_jobsFrom messageId
  have hledger := overlooksLedger_jobsFrom messageId
  refine Adds.after (catching_always _ (validateCommand_always hφ.covers cmd _)) fun validated => ?_
  cases validated with
  | error e =>
    exact .of_keeps (replyToRefusal_always hφ.covers out hledger.covers msg trivial (fun _ _ _ => trivial) e _ _)
  | ok validated =>
    refine ((dispatch_adds out p validated msg senderEmail userId).catching _).bind fun jobId => ?_
    cases jobId with
    | error e => exact replyToRefusal_always hφ.covers out hledger.covers msg trivial (fun _ _ _ => trivial) e _ _
    | ok jobId => exact conclude_always hφ.covers out hledger.covers msg trivial _ _ _

theorem handleOwner_adds (msg : EmailMessage) (senderEmail : Text) (userId : Nat) :
    Adds messageId (p.handleOwner out EmailProcessingPipeline.noReport msg senderEmail userId) := by
  have hφ := overlooks_jobsFrom messageId
  have hledger := overlooksLedger_jobsFrom messageId
  show Adds messageId (p.handleRequest out msg senderEmail userId)
  refine Adds.after (matchJob_always hφ.covers msg senderEmail) fun threadJobId => ?_
  refine Adds.after (continueThread_always hφ.covers out hledger.covers msg trivial (fun _ => trivial) senderEmail
    threadJobId fun _ _ _ => trivial) fun continued => ?_
  split_ifs
  · exact .of_keeps trivial
  · refine Adds.after (keeps_observe _ _ _) fun available => ?_
    split_ifs
    · refine Adds.after (catching_always _ (parseEmail_always out hφ.coversModel p.parser _ _ _)) fun parsed => ?_
      cases parsed with
      | error e =>
        have hreply := replyAndFinalize_always hφ.covers out hledger.covers msg trivial (fun _ _ _ => trivial)
        refine .of_keeps ((hreply _ _ _).bind fun _ => ?_)
        exact (alert_always hφ.covers out p.admin _ _ _ fun _ _ _ _ => trivial).bind fun _ => trivial
      | ok cmd => exact runCommand_adds out p msg senderEmail userId threadJobId cmd
    · exact .of_keeps ((alert_always hφ.covers out p.admin _ _ _ fun _ _ _ _ => trivial).bind fun _ => trivial)

/-- No attempt is admitted for a message that has left a job. -/
def CleanStart (messageId : Text) (w : World) : Prop := jobsFrom messageId w = 0 ∨ ¬ Admitted w messageId

theorem processMessage_adds (msg : EmailMessage) {w : World} (hw : CleanStart msg.messageId w) :
    Inside Failing (SameJobsFrom msg.messageId) (KeepsOneJob msg.messageId)
      (p.processMessageWith out EmailProcessingPipeline.noReport msg) w := by
  have hφ := overlooks_jobsFrom msg.messageId
  have hledger := overlooksLedger_jobsFrom msg.messageId
  have hmarked : ∀ s, Inside Failing (SameJobsFrom msg.messageId) (KeepsOneJob msg.messageId)
      (markProcessed msg.providerRef) s := fun s => (keeps_rg (markProcessed_always hledger.covers _) s).inside
  have hbegin : Keeps (jobsFrom msg.messageId) (ProcessedMessageStore.begin out msg.messageId
      (orText (p.authOf msg).senderEmail msg.fromAddress) (p.authOf msg).reason.value) :=
    begin_always hφ.covers out hledger.covers.toCoversLedger trivial _ _
  rcases hw with hnone | hspent
  · refine RG.bind SameJobsFrom.refl (keeps_rg hbegin w) (fun fresh s hs => ?_) fun _ _ _ => trivial
    have hs : jobsFrom msg.messageId s = 0 := hs.trans hnone
    cases fresh with
    | false => exact hmarked s
    | true =>
      simp only [Bool.not_true, Bool.false_eq_true, if_false]
      split_ifs
      · exact handleOwner_adds out p msg _ _ s hs
      · exact (keeps_rg (handleStranger_always hφ.covers out hledger.covers msg trivial p _ (fun _ _ _ => trivial)
          fun _ _ _ => trivial) s).inside
  · have hR := fun w w' (h : SameJobsFrom msg.messageId w w') => h.2
    have hrefused : RG Failing (SameJobsFrom msg.messageId) (KeepsOneJob msg.messageId)
        (fun x s => Begun Failing (entryOf w msg.messageId) x (entryOf s msg.messageId))
        (ProcessedMessageStore.begin out msg.messageId (orText (p.authOf msg).senderEmail msg.fromAddress)
          (p.authOf msg).reason.value) w := by
      refine (begin_rg SameJobsFrom.refl hR (fun _ _ _ h => h) out _ _ rfl).mono (fun s s' h => ?_) fun _ _ h => h
      obtain ⟨⟨t, n, rfl⟩, _⟩ := h
      exact keepsOneJob_of_eq rfl
    refine RG.bind SameJobsFrom.refl hrefused (fun fresh s hs => ?_) fun _ _ _ => trivial
    cases fresh with
    | false => exact hmarked s
    | true => exact absurd hs.1 hspent

end

/-! ### Runs -/

section
variable [PyChars] (out : Outside) (p : EmailProcessingPipeline) (messageId : Text)

/-- An attempt at a message with this id, begun where `Start` holds. -/
def Attempt (Start : World → Prop) (_ : Unit) (q : M Unit) (w : World) : Prop :=
  Start w ∧ ∃ msg : EmailMessage, msg.messageId = messageId ∧
    q = p.processMessageWith out EmailProcessingPipeline.noReport msg

/-- A run of attempts at the message, in which every step may raise and every attempt may be cut short. -/
def AttemptRun (Start : World → Prop) (w : World) (c : (Unit → M Unit) × World) : Prop :=
  PoolSteps Failing (SameJobsFrom messageId) (Attempt out p messageId Start) (fun _ => ret (), w) c

/-- In every state of every run there is at most one job that came from the message. -/
def AtMostOneJob (Start : World → Prop) : Prop :=
  ∀ w c, jobsFrom messageId w = 0 → AttemptRun out p messageId Start w c → jobsFrom messageId c.2 ≤ 1

theorem processMessage_spec : PoolSpec Failing (SameJobsFrom messageId) (Attempt out p messageId (CleanStart messageId))
    (fun _ => SameJobsFrom messageId) (fun _ => KeepsOneJob messageId) (fun _ _ => True) where
  refl _ := SameJobsFrom.refl
  trans _ _ _ _ := SameJobsFrom.trans
  others t u h := absurd (Subsingleton.elim t u) h
  around _ _ _ h := h
  called := by
    rintro t q w ⟨hclean, msg, rfl, rfl⟩
    exact processMessage_adds out p msg hclean

/-- **At most one job**, where no attempt is admitted after one that has left a job. -/
theorem atMostOneJob_cleanStarts : AtMostOneJob out p messageId (CleanStart messageId) := by
  intro w c hstart hrun
  have hstarted : jobsFrom messageId w ≤ 1 := by simp [hstart]
  exact (processMessage_spec out p messageId).inv (I := fun w => jobsFrom messageId w ≤ 1) (fun _ _ _ h => h)
    (fun _ _ h => keepsOneJob_of_eq h.1) hrun (fun _ _ _ => trivial) hstarted

end

/-- A model that takes every message for a question about the project. -/
def askingModel : Outside :=
  { Outside.plain with decodeCommand := fun _ => .ok { operation := "assess_query", githubFocus := some "commits" } }

section
attribute [local instance] asciiChars

/-- An attempt at the owner's message. -/
def aliceAttempt : M Unit :=
  smallPipeline.processMessageWith askingModel EmailProcessingPipeline.noReport aliceMessage

/-- The process dies after the first attempt has inserted its job, and the second attempt inserts another one. -/
theorem two_jobs : ¬ AtMostOneJob askingModel smallPipeline aliceMessage.messageId fun _ => True := by
  intro h
  have hsteps : ∀ n (c : M Unit × World), Steps Failing c (follow (List.replicate n none) c) :=
    steps_follow_none fun _ _ => trivial
  have hattempt : ∀ w, Attempt askingModel smallPipeline aliceMessage.messageId (fun _ => True) ()
      aliceAttempt w := fun _ => ⟨trivial, aliceMessage, rfl, rfl⟩
  have hrun : AttemptRun askingModel smallPipeline aliceMessage.messageId (fun _ => True) {} _ :=
    .call (.call .refl (hattempt {}) (hsteps 7 _)) (hattempt _) (hsteps 9 _)
  exact absurd (h {} _ rfl hrun) (by decide +kernel)

end

end GroupAssessmentAgent
