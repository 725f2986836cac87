import GroupAssessmentAgent.Admin.Notifier

/-!
# What the statements of the stores do

A property `A` of labelled steps *covers* the statements of the stores, the clock and the files (`Covers A J T`) when
it holds of all of them whose job id is in `J` and whose mail is in `T`; alerts are asked for only where `T` has mails
without a job. `CoversNewJobs` is the same for the rows that `create_job` inserts, `CoversLedger` for the ledger,
`CoversMarks` for the marks as well, and `CoversModel` for the language model. Each operation has one lemma: all its
steps are in `A`, whatever the ones before it saw.

What an operation leaves alone is a case of this. `Overlooks φ`: the value `φ` of the world does not depend on the
columns of existing jobs, the outbox, the pending clarifications, the alerts, the files and the counters. Then `φ`
covers every statement on them (`Overlooks.covers`), so the operations keep it.
-/

namespace GroupAssessmentAgent
open Prog

structure Covers (A : Stmt → (World → World) → Prop) (J : Text → Prop) (T : OutboxMessage → Prop) : Prop where
  look : ∀ l, l.looks = true → A l id
  ask : (∃ m, T m ∧ m.jobId = none) → A .selectAlerts id
  tick : A .clock World.tick
  job : ∀ jobId fields, J jobId → A (.updateJob jobId) fun w => w.writeJob jobId fields
  status : ∀ jobId current new fields, J jobId → (new = current ∨ new ∈ current.allowedTransitions) →
    A (.updateStatus jobId current new) fun w => w.writeStatus jobId new fields
  outbox : ∀ row hrow, (∀ n, T (row n)) → A .insertOutbox fun w => { w with outbox := w.outbox.append row hrow }
  put : ∀ row, J row.jobId → A .putClarification fun w =>
    { w with pendingClarifications := w.pendingClarifications.upsert row }
  delete : ∀ jobId, J jobId → A .deleteClarification fun w =>
    { w with pendingClarifications := w.pendingClarifications.erase jobId }
  alert : ∀ row, A .putAlert fun w => { w with adminAlerts := w.adminAlerts.upsert row }
  files : ∀ l f, l = .writeFile ∨ l = .moveFile → (∀ w, ∃ t n, f w = { w with files := t, uuids := n }) → A l f

/-- From `w` to `w'` only mails in `T` are new in the outbox. -/
def NewMails (T : OutboxMessage → Prop) (w w' : World) : Prop :=
  ∃ new, w'.outbox.rows = w.outbox.rows ++ new ∧ ∀ m ∈ new, T m

/-- The INSERT of a job is covered, for the rows in `U`. -/
def CoversNewJobs (A : Stmt → (World → World) → Prop) (U : Job → Prop) : Prop :=
  ∀ (source : Text) (row : Text → Job) (f : World → World), (∀ jobId, U (row jobId)) →
    (∀ w, f w = w ∨ ∃ jobId t, w.jobs.insert? (row jobId) = some t ∧ f w = { w with jobs := t }) →
      A (.insertJob source) f

/-- The effect is one on the ledger, on the row of the message. -/
def WritesProcessed (messageId : Text) (f : World → World) : Prop :=
  ∀ w, ∃ t, f w = { w with processedMessages := t } ∧
    ∀ messageId', messageId' ≠ messageId → t.find? messageId' = w.processedMessages.find? messageId'

/-- The statements on the ledger are covered, for the messages in `K`. -/
structure CoversLedger (A : Stmt → (World → World) → Prop) (K : Text → Prop) : Prop where
  insert : ∀ messageId f, K messageId → WritesProcessed messageId f → A (.insertProcessed messageId) f
  update : ∀ messageId f, K messageId → WritesProcessed messageId f → A (.updateProcessed messageId) f

/-- The marks at the provider are covered as well. -/
structure CoversMarks (A : Stmt → (World → World) → Prop) (K : Text → Prop) : Prop extends CoversLedger A K where
  mark : ∀ ref, A (.markProcessed ref) fun w => { w with seen := ref :: w.seen }

structure CoversModel (A : Stmt → (World → World) → Prop) : Prop where
  available : A .ollama id
  generate : A .generate fun w => { w with generations := w.generations + 1 }

/-! ### The stores -/

section
variable {A : Stmt → (World → World) → Prop} {J : Text → Prop} {T : OutboxMessage → Prop} (hA : Covers A J T)
  (out : Outside)
include hA

theorem utcnow_always : Always A (utcnow out) := always_atomic hA.tick

theorem update_always {jobId : Text} (hjob : J jobId) (fields : List JobField) :
    Always A (JobStore.update jobId fields) := by
  unfold JobStore.update
  split_ifs
  · trivial
  · exact always_change (hA.job jobId fields hjob)

theorem stamp_always (wanted : Prop) [Decidable wanted] (column : Option Instant → JobField) :
    Always A (JobStore.stamp out wanted column) := by
  unfold JobStore.stamp
  split_ifs
  · exact (utcnow_always hA out).bind fun _ => trivial
  · trivial

theorem setStatus_always {jobId : Text} (hjob : J jobId) (new : JobState) (extra : List JobField) :
    Always A (JobStore.setStatus out jobId new extra) := by
  refine Always.bind (always_observe (hA.look _ rfl) _) fun row => ?_
  cases row with
  | none => trivial
  | some current =>
    simp only
    split_ifs with hguard
    · trivial
    · have hnew : new = current ∨ new ∈ current.allowedTransitions := by tauto
      refine (stamp_always hA out _ _).bind fun started => (stamp_always hA out _ _).bind fun completed => ?_
      exact always_change (hA.status jobId current new _ hjob hnew)

theorem enqueue_always (toEmail subject bodyText : Text) (jobId : Option Text) (attachments : List Text)
    (inReplyTo references : Option Text)
    (hmail : ∀ id createdAt, T { id, jobId, toEmail, subject, bodyText, attachments, inReplyToMessageId := inReplyTo,
                                 referencesHeader := references, createdAt }) :
    Always A (Outbox.enqueue out toEmail subject bodyText jobId attachments inReplyTo references) :=
  (utcnow_always hA out).bind fun createdAt => always_atomic (hA.outbox _ _ fun n => hmail n createdAt)

theorem alert_always (n : AdminNotifier) (category : AdminCategory) (summary : Text) (detail : List (Text × Text))
    (hmail : ∀ m : OutboxMessage, some m.toEmail = truthy n.adminEmail → m.attachments = [] → m.jobId = none → T m) :
    Always A (n.alert out category summary detail) := by
  unfold AdminNotifier.alert
  cases hadmin : truthy n.adminEmail with
  | none => trivial
  | some adminEmail =>
    have hdue : Always A (n.shouldSend out category) := by
      have hmails : ∃ m, T m ∧ m.jobId = none :=
        ⟨{ id := 0, jobId := none, toEmail := adminEmail, subject := "", bodyText := "", attachments := [],
           inReplyToMessageId := none, referencesHeader := none, createdAt := 0 }, hmail _ hadmin.symm rfl rfl, rfl⟩
      refine Always.bind (always_observe (hA.ask hmails) _) fun row => ?_
      cases row with
      | none => trivial
      | some row => exact (utcnow_always hA out).bind fun _ => trivial
    have hrecord : Always A (AdminNotifier.recordSent out category) :=
      (utcnow_always hA out).bind fun _ => always_change (hA.alert _)
    refine hdue.bind fun due => ?_
    split_ifs
    · refine Always.bind (enqueue_always hA out _ _ _ _ _ _ _ fun _ _ => ?_) fun _ => hrecord.bind fun _ => trivial
      exact hmail _ hadmin.symm rfl rfl
    · trivial

theorem put_always {jobId : Text} (hjob : J jobId) (question expectedField : Text) (options : List Text) :
    Always A (PendingClarificationStore.put out jobId question expectedField options) :=
  (utcnow_always hA out).bind fun _ => always_change (hA.put _ hjob)

theorem delete_always {jobId : Text} (hjob : J jobId) : Always A (PendingClarificationStore.delete jobId) :=
  always_change (hA.delete jobId hjob)

omit hA in
theorem catching_always {α : Type} (kinds : List ExcKind) {p : M α} (hp : Always A p) :
    Always A (catching kinds p) := by
  refine Always.tryCatch (hp.bind fun _ => trivial) fun e => ?_
  split_ifs <;> trivial

omit hA in
theorem onIntegrityError_always {α : Type} {p h : M α} (hp : Always A p) (hh : Always A h) :
    Always A (onIntegrityError p h) := by
  refine Always.tryCatch hp fun e => ?_
  split_ifs
  · exact hh
  · trivial

theorem createJob_always {U : Job → Prop} (hnew : CoversNewJobs A U) (senderEmail : Text) (userId : Nat)
    (sourceMessageId operation : Text) (fields : List JobField)
    (hrow : ∀ createdAt jobId,
      U (JobStore.received senderEmail userId sourceMessageId operation fields createdAt jobId)) :
    Always A (JobStore.createJob out senderEmail userId sourceMessageId operation fields) := by
  refine (utcnow_always hA out).bind fun now => ?_
  suffices hrounds : ∀ rounds attempt, Always A (JobStore.createJobFrom out senderEmail userId sourceMessageId operation
      fields (JobStore.jobIdPrefix now.date) rounds attempt) from hrounds 10 0
  intro rounds
  induction rounds with
  | zero => exact fun _ => trivial
  | succ rounds ih =>
    intro attempt
    refine (utcnow_always hA out).bind fun createdAt => onIntegrityError_always (Always.bind ?_ fun _ => ?_) (ih _)
    · refine always_atomic (hnew _ _ _ (hrow createdAt) fun w => ?_)
      simp only
      split
      · next t ht => exact .inr ⟨_, t, ht, rfl⟩
      · exact .inl rfl
    · exact always_observe (hA.look _ rfl) _

/-! ### The ledger -/

omit hA in
theorem writesProcessed_modify (messageId : Text) (f : ProcessedMessage → ProcessedMessage)
    (hf : ∀ r, (f r).messageId = r.messageId) :
    WritesProcessed messageId fun w => w.modifyProcessed messageId f hf := by
  refine fun w => ⟨_, rfl, fun messageId' hne => ?_⟩
  rw [Table.find?_modify, if_neg hne]

section
variable {K : Text → Prop} (hledger : CoversLedger A K) {messageId : Text} (hid : K messageId)
include hledger hid

theorem begin_always (senderEmail authResult : Text) :
    Always A (ProcessedMessageStore.begin out messageId senderEmail authResult) := by
  refine (utcnow_always hA out).bind fun receivedAt => Always.bind ?_ fun inserted => ?_
  · refine onIntegrityError_always (always_atomic (hledger.insert _ _ hid fun w => ?_)) trivial
    split
    · next t ht =>
      refine ⟨t, rfl, fun messageId' hne => ?_⟩
      rw [Table.find?_insert? ht, if_neg (Ne.symm hne)]
    · exact ⟨_, rfl, fun _ _ => rfl⟩
  · split_ifs
    · trivial
    · refine Always.bind (always_observe (hA.look _ rfl) _) fun row => ?_
      cases row with
      | none => trivial
      | some row =>
        simp only
        split_ifs
        · exact Always.bind (always_change (hledger.update _ _ hid (writesProcessed_modify _ _ _))) fun _ => trivial
        · trivial

theorem finalize_always (outcome : Text) (jobId operation : Option Text) :
    Always A (ProcessedMessageStore.finalize out messageId outcome jobId operation) :=
  (utcnow_always hA out).bind fun _ => always_change (hledger.update _ _ hid (writesProcessed_modify _ _ _))

end

end

/-! ### What is left alone -/

section
variable {γ : Type} (φ : World → γ)

structure Overlooks : Prop where
  tick : ∀ w, φ w.tick = φ w
  job : ∀ w jobId fields, φ (w.writeJob jobId fields) = φ w
  status : ∀ w jobId status fields, φ (w.writeStatus jobId status fields) = φ w
  outbox : ∀ w t, φ { w with outbox := t } = φ w
  clarifications : ∀ w t, φ { w with pendingClarifications := t } = φ w
  alerts : ∀ w t, φ { w with adminAlerts := t } = φ w
  files : ∀ w t n, φ { w with files := t, uuids := n } = φ w
  generations : ∀ w n, φ { w with generations := n } = φ w

/-- New jobs are overlooked as well. -/
def OverlooksNewJobs : Prop := ∀ w t, φ { w with jobs := t } = φ w

/-- The ledger and the marks are overlooked as well. -/
structure OverlooksLedger : Prop where
  ledger : ∀ w t, φ { w with processedMessages := t } = φ w
  seen : ∀ w refs, φ { w with seen := refs } = φ w

variable {φ}

theorem Overlooks.covers (hφ : Overlooks φ) :
    Covers (fun _ f => ∀ w, φ (f w) = φ w) (fun _ => True) fun _ => True where
  look _ _ _ := rfl
  ask _ _ := rfl
  tick := hφ.tick
  job jobId fields _ w := hφ.job w jobId fields
  status jobId _ new fields _ _ w := hφ.status w jobId new fields
  outbox _ _ _ w := hφ.outbox w _
  put _ _ w := hφ.clarifications w _
  delete _ _ w := hφ.clarifications w _
  alert _ w := hφ.alerts w _
  files l f _ hf w := by
    obtain ⟨t, n, h⟩ := hf w
    rw [h, hφ.files]

theorem Overlooks.coversModel (hφ : Overlooks φ) : CoversModel fun _ f => ∀ w, φ (f w) = φ w :=
  ⟨fun _ => rfl, fun w => hφ.generations w _⟩

theorem OverlooksNewJobs.covers (hφ : OverlooksNewJobs φ) :
    CoversNewJobs (fun _ f => ∀ w, φ (f w) = φ w) fun _ => True := by
  intro _ _ f _ hf w
  rcases hf w with h | ⟨_, t, _, h⟩ <;> rw [h]
  exact hφ w t

theorem coversLedger_of_overlooks (hφ : ∀ w t, φ { w with processedMessages := t } = φ w) :
    CoversLedger (fun _ f => ∀ w, φ (f w) = φ w) fun _ => True := by
  refine ⟨fun _ f _ hf w => ?_, fun _ f _ hf w => ?_⟩ <;> obtain ⟨t, h, _⟩ := hf w <;> rw [h, hφ]

theorem OverlooksLedger.covers (hφ : OverlooksLedger φ) : CoversMarks (fun _ f => ∀ w, φ (f w) = φ w) fun _ => True :=
  ⟨coversLedger_of_overlooks hφ.ledger, fun _ w => hφ.seen w _⟩

end

end GroupAssessmentAgent
