import GroupAssessmentAgent.Flush

/-!
# The course of one delivery

Both flush loops send and record a message with `deliverOne`. A `Course` says, for given surroundings `R` and a
given guarantee `G`, what holds of the state at each stage of a delivery, and that the statements lead from stage to
stage inside `G`. `Course.deliver` follows the program once and for all: from a waiting message it ends with a
recorded one, or with a failed one.
-/

namespace GroupAssessmentAgent
open Prog

/-! ### The statements of a delivery -/

theorem readAttachments_always {A : Stmt → (World → World) → Prop} (hread : A .readFile id) (paths : List Text) :
    Always A (readAttachments paths) := by
  induction paths with
  | nil => trivial
  | cons path paths ih => exact Always.bind (always_observeE hread _) fun _ => ih.bind fun _ => trivial

/-- `A` holds of the statements that the delivery of a message is made of, but for those that follow `mark_sent`. -/
structure CoversDelivery (A : Stmt → (World → World) → Prop) (id : Nat) : Prop where
  read : A .readFile fun w => w
  outbox : A .selectOutbox fun w => w
  tick : A .clock World.tick
  send : ∀ f : World → World, (∀ w, ∃ d : Delivery, d.outboxId = id ∧ f w = w.deliver d) → A (.send id) f
  sent : ∀ now, A (.updateOutbox id .sent) fun w => Outbox.recordSent w id now
  link : ∀ messageId (f : World → World),
    (∀ w, f w = w ∨ ∃ l t, l.outboxId = id ∧ w.messageLinks.insert l = .ok t ∧ f w = { w with messageLinks := t }) →
      A (.insertLink id messageId) f
  failure : ∀ attempts error, A (.updateOutbox id (Outbox.failureStatus attempts)) fun w =>
    Outbox.recordFailure w id attempts error

namespace CoversDelivery
variable {A : Stmt → (World → World) → Prop} (out : Outside) {m : OutboxMessage} (h : CoversDelivery A m.id)
include h

theorem sendEmail (attachments : List (Text × Bytes)) : Always A (sendEmail out m attachments) :=
  always_atomic (h.send _ fun w => ⟨deliveryOf m attachments (out.messageId w.deliveries.length), rfl, rfl⟩)

theorem markSent (messageId : Text) : Always A (Outbox.markSent out m.id messageId) := by
  have hclock : Always A (utcnow out) := always_atomic h.tick
  refine Always.bind (always_observe h.outbox _) fun row => Always.bind hclock fun now => ?_
  refine Always.bind (always_change (h.sent now)) fun _ => ?_
  split_ifs
  · refine Always.bind hclock fun createdAt => always_atomic (h.link _ _ fun w => ?_)
    cases hinsert : w.messageLinks.insert ⟨m.id, row.bind OutboxMessage.jobId, messageId, createdAt⟩ with
    | error e => exact .inl rfl
    | ok t => exact .inr ⟨_, t, rfl, hinsert, rfl⟩
  · exact always_ret ()

theorem markFailed (error : Text) : Always A (Outbox.markFailed m.id error) :=
  Always.bind (always_observe h.outbox _) fun _ => always_change (h.failure _ error)

theorem deliverOne {record : Text → M Unit} (hrecord : ∀ messageId, Always A (record messageId))
    (errorText : Exc → Text) : Always A (deliverOne out record errorText m) := by
  refine Always.tryCatch ?_ fun e => (h.markFailed (errorText e)).bind fun _ => always_ret 0
  refine (readAttachments_always h.read _).bind fun attachments => (h.sendEmail out attachments).bind fun messageId => ?_
  exact (h.markSent out messageId).bind fun _ => (hrecord messageId).bind fun _ => always_ret 1

theorem flushOne (hjob : ∀ jobId fields, A (.updateJob jobId) fun w => w.writeJob jobId fields) :
    Always A (flushOne out m) := by
  refine h.deliverOne out (fun messageId => ?_) _
  cases truthy m.jobId with
  | none => exact always_ret ()
  | some jobId => exact always_change (hjob jobId _)

theorem flushReportOne (hreport : ∀ reportId, A (.updateReport reportId) fun w =>
    ReportStore.writeStatus w reportId .sent none none none) : Always A (flushReportOne out m) := by
  unfold GroupAssessmentAgent.flushReportOne
  split_ifs
  · exact h.deliverOne out (fun _ => always_change (hreport _)) _
  · exact always_ret 0

end CoversDelivery

theorem flushAll_always {A : Stmt → (World → World) → Prop} {flush : OutboxMessage → M Nat}
    (hflush : ∀ m, Always A (flush m)) (messages : List OutboxMessage) : Always A (flushAll flush messages) := by
  induction messages with
  | nil => exact always_ret 0
  | cons m messages ih => exact (hflush m).bind fun _ => ih.bind fun _ => always_ret _

/-! ### Its stages -/

/-- The stages of a delivery: not sent yet, accepted by the provider, recorded as SENT, about to be recorded as a
failure, and recorded as one. -/
inductive Stage where
  | waiting | accepted | recorded | failing | failed
  deriving DecidableEq

/-- The statements that follow the UPDATE to SENT. -/
def AfterSent : Stmt → Prop
  | .insertLink _ _ | .updateJob _ | .updateReport _ => True
  | _ => False

structure Course (E : Env Stmt World Exc) (R G : World → World → Prop) (m : OutboxMessage) where
  stage : Stage → World → Prop
  refl : ∀ w, R w w
  stable : ∀ k, Stable R (stage k)
  look : ∀ k w, stage k w → G w w
  tick : ∀ k w, stage k w → G w w.tick ∧ stage k w.tick
  send : ∀ w, stage .waiting w → ∀ d : Delivery, d.outboxId = m.id →
    G w (w.deliver d) ∧ stage .accepted (w.deliver d)
  sent : ∀ w, stage .accepted w → ∀ now,
    G w (Outbox.recordSent w m.id now) ∧ stage .recorded (Outbox.recordSent w m.id now)
  link : ∀ w, stage .recorded w → ∀ t,
    G w { w with messageLinks := t } ∧ stage .recorded { w with messageLinks := t }
  job : ∀ w, stage .recorded w → ∀ jobId fields,
    G w (w.writeJob jobId fields) ∧ stage .recorded (w.writeJob jobId fields)
  report : ∀ w, stage .recorded w → ∀ reportId status text error now,
    G w (ReportStore.writeStatus w reportId status text error now) ∧
      stage .recorded (ReportStore.writeStatus w reportId status text error now)
  failure : ∀ w, stage .failing w → ∀ attempts error,
    G w (Outbox.recordFailure w m.id attempts error) ∧ stage .failed (Outbox.recordFailure w m.id attempts error)
  linkFree : ∀ w n id, E.allowed (.insertLink n id) w → w.messageLinks.Free n id
  noClockFault : ∀ w e, ¬ E.fault .clock w e
  noLateFault : ∀ l w e, AfterSent l → ¬ E.fault l w e
  giveUp : ∀ w, stage .waiting w → stage .failing w
  faultAccepted : ∀ l w e, ¬ AfterSent l → l ≠ .readFile → (∀ n, l ≠ .send n) → E.fault l w e → stage .accepted w →
    stage .failing w
  undecided : ∀ w, stage .failing w → stage .failed w

namespace Course
variable {E : Env Stmt World Exc} {R G : World → World → Prop} {m : OutboxMessage} (C : Course E R G m)

/-- The end of a part of the delivery: at stage `k`, or with an exception at stage `k'`. -/
def At (k k' : Stage) {α : Type} (x : Except Exc α) (w : World) : Prop :=
  match x with
  | .ok _ => C.stage k w
  | .error _ => C.stage k' w

theorem stable_at (k k' : Stage) {α : Type} (x : Except Exc α) : Stable R (C.At k k' x) := by
  cases x with
  | ok a => exact C.stable k
  | error e => exact C.stable k'

theorem utcnow_rg (out : Outside) (k k' : Stage) {w : World} (hw : C.stage k w) :
    RG E R G (C.At k k') (utcnow out) w := by
  refine rg_atomic (C.stable k) (C.stable_at k k') (fun s hs _ => C.tick k s hs) (fun s e _ he => ?_) hw
  exact absurd he (C.noClockFault s e)

theorem readAttachments_rg (paths : List Text) {w : World} (hw : C.stage .waiting w) :
    RG E R G (C.At .waiting .failing) (readAttachments paths) w := by
  induction paths generalizing w with
  | nil => exact rg_ret (C.stable_at _ _) hw
  | cons path paths ih =>
    have hread : RG E R G (C.At .waiting .failing) (readBytes path) w := by
      refine rg_atomic (h := fun s => (_, s)) (C.stable .waiting) (C.stable_at _ _) (fun s hs _ => ?_)
        (fun s e hs _ => C.giveUp s hs) hw
      refine ⟨C.look _ s hs, ?_⟩
      simp only
      split
      · exact hs
      · exact C.giveUp s hs
    refine RG.bind C.refl hread (fun content s hs => ?_) fun e s hs => hs
    exact RG.bind C.refl (ih hs) (fun rest s hs => rg_ret (C.stable_at _ _) hs) fun e s hs => hs

theorem sendEmail_rg (out : Outside) (attachments : List (Text × Bytes)) {w : World} (hw : C.stage .waiting w) :
    RG E R G (C.At .accepted .failing) (sendEmail out m attachments) w :=
  rg_atomic (C.stable .waiting) (C.stable_at _ _) (fun s hs _ => C.send s hs _ rfl)
    (fun s _ hs _ => C.giveUp s hs) hw

theorem link_rg (l : MessageLink) {w : World} (hw : C.stage .recorded w) :
    RG E R G (C.At .recorded .failing) (Outbox.link l) w := by
  refine rg_atomic (C.stable .recorded) (C.stable_at _ _) (fun s hs hallow => ?_) (fun s e _ he => ?_) hw
  · obtain ⟨t, ht⟩ := (s.messageLinks.insert_isOk l).2 (C.linkFree s _ _ hallow)
    simp only [ht]
    exact C.link s hs t
  · exact absurd he (C.noLateFault _ s e trivial)

/-- `mark_sent` can fail only before the row is SENT. -/
theorem markSent_rg (out : Outside) (providerMessageId : Text) {w : World} (hw : C.stage .accepted w) :
    RG E R G (C.At .recorded .failing) (Outbox.markSent out m.id providerMessageId) w := by
  have hselect : RG E R G (C.At .accepted .failing)
      (observe .selectOutbox fun w => w.outbox.find? m.id : M (Option OutboxMessage)) w :=
    rg_observe (C.stable .accepted) (C.stable_at _ _) (fun s hs => ⟨C.look _ s hs, hs⟩)
      (fun s e hs he => C.faultAccepted _ s e id (by simp) (by simp) he hs) hw
  refine RG.bind C.refl hselect (fun row s hs => ?_) fun e s hs => hs
  refine RG.bind C.refl (C.utcnow_rg out .accepted .failing hs) (fun now s hs => ?_) fun e s hs => hs
  have hsent : RG E R G (C.At .recorded .failing) (Outbox.setSent m.id now) s :=
    rg_change (C.stable .accepted) (C.stable_at _ _) (fun s hs _ => C.sent s hs now)
      (fun s e hs he => C.faultAccepted _ s e id (by simp) (by simp) he hs) hs
  refine RG.bind C.refl hsent (fun _ s hs => ?_) fun e s hs => hs
  split_ifs
  · refine RG.bind C.refl (C.utcnow_rg out .recorded .failing hs) (fun _ s hs => ?_) fun e s hs => hs
    exact C.link_rg _ hs
  · exact rg_ret (C.stable_at _ _) hs

theorem update_rg (jobId : Text) (fields : List JobField) {w : World} (hw : C.stage .recorded w) :
    RG E R G (C.At .recorded .failing) (JobStore.update jobId fields) w := by
  unfold JobStore.update
  split_ifs
  · exact rg_ret (C.stable_at _ _) hw
  · exact rg_change (C.stable .recorded) (C.stable_at _ _) (fun s hs _ => C.job s hs jobId fields)
      (fun s e _ he => absurd he (C.noLateFault (.updateJob jobId) s e trivial)) hw

theorem setStatus_rg (out : Outside) (reportId : Text) {w : World} (hw : C.stage .recorded w) :
    RG E R G (C.At .recorded .failing) (ReportStore.setStatus out reportId .sent none none) w :=
  RG.bind C.refl (rg_ret (C.stable_at .recorded .failing) hw)
    (fun now _ hs => rg_change (C.stable .recorded) (C.stable_at _ _)
      (fun s hs _ => C.report s hs reportId .sent none none now)
      (fun s e _ he => absurd he (C.noLateFault (.updateReport reportId) s e trivial)) hs)
    fun _ _ hs => hs

theorem markFailed_rg (error : Text) {w : World} (hw : C.stage .failing w) :
    RG E R G (fun _ => C.stage .failed) (Outbox.markFailed m.id error) w := by
  have hselect : RG E R G (C.At .failing .failed)
      (observe .selectOutbox fun w => w.outbox.find? m.id : M (Option OutboxMessage)) w :=
    rg_observe (C.stable .failing) (C.stable_at _ _) (fun s hs => ⟨C.look _ s hs, hs⟩)
      (fun s e hs _ => C.undecided s hs) hw
  refine RG.bind C.refl hselect (fun row s hs => ?_) fun e s hs => hs
  exact rg_change (C.stable .failing) (fun _ => C.stable .failed) (fun s hs _ => C.failure s hs _ _)
    (fun s e hs _ => C.undecided s hs) hs

/-- A message is done with once it is recorded as sent or as failed. -/
def Over (w : World) : Prop := C.stage .recorded w ∨ C.stage .failed w

theorem stable_over : Stable R C.Over :=
  fun w w' h hw => hw.imp (C.stable .recorded w w' h) (C.stable .failed w w' h)

/-- **One delivery**: whatever `record` does after `mark_sent`, as long as it stays with a recorded message. -/
theorem deliver (out : Outside) {record : Text → M Unit} (errorText : Exc → Text)
    (hrecord : ∀ id w, C.stage .recorded w → RG E R G (C.At .recorded .failing) (record id) w) {w : World}
    (hw : C.stage .waiting w) : RG E R G (fun _ => C.Over) (deliverOne out record errorText m) w := by
  refine RG.tryCatch C.refl (M := C.At .recorded .failing) ?_ (fun _ s hs => .inl hs) fun e s hs => ?_
  · refine RG.bind C.refl (C.readAttachments_rg m.attachments hw) (fun attachments s hs => ?_) fun e s hs => hs
    refine RG.bind C.refl (C.sendEmail_rg out attachments hs) (fun id s hs => ?_) fun e s hs => hs
    refine RG.bind C.refl (C.markSent_rg out id hs) (fun _ s hs => ?_) fun e s hs => hs
    exact RG.bind C.refl (hrecord id s hs) (fun _ s hs => rg_ret (C.stable_at _ _) hs) fun e s hs => hs
  · refine RG.bind C.refl (C.markFailed_rg (errorText e) hs) (fun _ s hs => ?_) fun e s hs => .inr hs
    exact rg_ret (fun _ => C.stable_over) (.inr hs)

theorem flushOne_rg (out : Outside) {w : World} (hw : C.stage .waiting w) :
    RG E R G (fun _ => C.Over) (flushOne out m) w := by
  refine C.deliver out _ (fun id s hs => ?_) hw
  cases truthy m.jobId with
  | some jobId => exact C.update_rg jobId _ hs
  | none => exact rg_ret (C.stable_at _ _) hs

theorem flushReportOne_rg (out : Outside) (hover : ∀ w, C.stage .waiting w → C.Over w) {w : World}
    (hw : C.stage .waiting w) : RG E R G (fun _ => C.Over) (flushReportOne out m) w := by
  unfold flushReportOne
  split_ifs
  · exact C.deliver out _ (fun id s hs => C.setStatus_rg out _ hs) hw
  · exact rg_ret (fun _ => C.stable_over) (hover w hw)

end Course

end GroupAssessmentAgent
