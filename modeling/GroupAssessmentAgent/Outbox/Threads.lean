import Mathlib.Data.List.ReduceOption
import GroupAssessmentAgent.Lib.Exec
import GroupAssessmentAgent.Outbox.SentStays
import GroupAssessmentAgent.Reports.Frame
import GroupAssessmentAgent.Reports.Identity

/-!
# Replies find their job

`mark_sent` links the id that the provider has given to a mail with the mail's job, and `ThreadMatcher` looks for the
link of the id that a reply names. In between any number of calls may run, of the mail loop, the worker and the weekly
command, in any interleaving and with any failures: jobs keep their senders, mails their jobs, and no link is lost
(`KeepsThreads`). So the reply to a recorded mail finds the job of the mail (`reply_matched`).
-/

namespace GroupAssessmentAgent
open Prog Regex

def senderOf (w : World) (jobId : Text) : Option Text := (w.jobs.find? jobId).map Job.senderEmail

/-- The job that a mail is about, if the mail is there. -/
def mailJob (w : World) (outboxId : Nat) : Option (Option Text) := (w.outbox.find? outboxId).map OutboxMessage.jobId

/-- `mark_sent` has recorded the mail under the id. -/
def RecordedAs (w : World) (outboxId : Nat) (messageId : Text) : Prop :=
  ∃ l ∈ w.messageLinks.rows, l.outboxId = outboxId ∧ l.messageId = messageId

/-- Every link carries the job of its mail. -/
def Linked (w : World) : Prop := ∀ l ∈ w.messageLinks.rows, mailJob w l.outboxId = some l.jobId

/-- What every statement of the program keeps. -/
structure KeepsThreads (w w' : World) : Prop where
  sender : ∀ jobId s, senderOf w jobId = some s → senderOf w' jobId = some s
  mail : ∀ id j, mailJob w id = some j → mailJob w' id = some j
  links : ∀ l ∈ w.messageLinks.rows, l ∈ w'.messageLinks.rows
  linked : Linked w → Linked w'

namespace KeepsThreads

theorem refl (w : World) : KeepsThreads w w := ⟨fun _ _ h => h, fun _ _ h => h, fun _ h => h, fun h => h⟩

theorem trans {a b c : World} (h : KeepsThreads a b) (h' : KeepsThreads b c) : KeepsThreads a c where
  sender jobId s hs := h'.sender jobId s (h.sender jobId s hs)
  mail id j hj := h'.mail id j (h.mail id j hj)
  links l hl := h'.links l (h.links l hl)
  linked hl := h'.linked (h.linked hl)

theorem of_links {w w' : World} (hlinks : w'.messageLinks = w.messageLinks)
    (hsender : ∀ jobId s, senderOf w jobId = some s → senderOf w' jobId = some s)
    (hmail : ∀ id j, mailJob w id = some j → mailJob w' id = some j) : KeepsThreads w w' := by
  refine ⟨hsender, hmail, fun l hl => ?_, fun hlinked l hl => ?_⟩
  · rw [hlinks]
    exact hl
  · rw [hlinks] at hl
    exact hmail _ _ (hlinked l hl)

theorem of_tables {w w' : World} (hjobs : w'.jobs = w.jobs) (houtbox : w'.outbox = w.outbox)
    (hlinks : w'.messageLinks = w.messageLinks) : KeepsThreads w w' := by
  refine of_links hlinks (fun jobId s hs => ?_) fun id j hj => ?_
  · rw [senderOf, hjobs]
    exact hs
  · rw [mailJob, houtbox]
    exact hj

theorem modifyJob (w : World) (jobId : Text) (f : Job → Job) (hf : ∀ j, (f j).jobId = j.jobId)
    (hsender : ∀ j, (f j).senderEmail = j.senderEmail) : KeepsThreads w (w.modifyJob jobId f hf) := by
  refine of_links rfl (fun id s hs => ?_) fun _ _ h => h
  rw [senderOf, World.modifyJob, Table.find?_modify]
  split_ifs
  · rw [Option.map_map, ← hs, senderOf]
    exact congrArg (Option.map · (w.jobs.find? id)) (funext hsender)
  · exact hs

theorem modifyOutbox (w : World) (id : Nat) (f : OutboxMessage → OutboxMessage) (hf : ∀ r, (f r).id = r.id)
    (hjob : ∀ r, (f r).jobId = r.jobId) : KeepsThreads w (w.modifyOutbox id f hf) := by
  refine of_links rfl (fun _ _ h => h) fun id' j hj => ?_
  rw [mailJob, World.modifyOutbox, Table.find?_modify]
  split_ifs
  · rw [Option.map_map, ← hj, mailJob]
    exact congrArg (Option.map · (w.outbox.find? id')) (funext hjob)
  · exact hj

theorem insertJob {w : World} {row : Job} {t : Table Job.jobId} (hinsert : w.jobs.insert? row = some t) :
    KeepsThreads w { w with jobs := t } := by
  refine of_links rfl (fun jobId s hs => ?_) fun _ _ h => h
  have hfree : w.jobs.find? row.jobId = none := (w.jobs.insert?_isSome row).1 (by rw [hinsert]; rfl)
  have hne : row.jobId ≠ jobId := by
    rintro rfl
    rw [senderOf, hfree] at hs
    cases hs
  rw [senderOf, Table.find?_insert? hinsert, if_neg hne]
  exact hs

theorem append (w : World) (row : Nat → OutboxMessage) (hrow : ∀ n, (row n).id = n) :
    KeepsThreads w { w with outbox := w.outbox.append row hrow } := by
  refine of_links rfl (fun _ _ h => h) fun id j hj => ?_
  obtain ⟨m, hm, rfl⟩ := Option.map_eq_some_iff.1 hj
  have hfind : (w.outbox.append row hrow).find? id = some m := by
    rw [Table.find?, Table.append, List.find?_append]
    exact congrArg (Option.or · _) hm
  rw [mailJob, hfind]
  rfl

end KeepsThreads

/-! ### Every statement but one -/

/-- A step that keeps the threads, in whatever state it is taken. -/
def ThreadStep (_ : Stmt) (f : World → World) : Prop := ∀ w, KeepsThreads w (f w)

theorem covers_threads : Covers ThreadStep (fun _ => True) fun _ => True where
  look _ _ := KeepsThreads.refl
  ask _ := KeepsThreads.refl
  tick _ := .of_tables rfl rfl rfl
  job jobId fields _ w := .modifyJob w jobId _ _ fun j => Job.setAll_senderEmail j fields
  status jobId _ _ fields _ _ w := .modifyJob w jobId _ _ fun j => Job.setAll_senderEmail _ fields
  outbox row hrow _ w := .append w row hrow
  put _ _ _ := .of_tables rfl rfl rfl
  delete _ _ _ := .of_tables rfl rfl rfl
  alert _ _ := .of_tables rfl rfl rfl
  files _ _ _ hf w := by
    obtain ⟨t, n, h⟩ := hf w
    rw [h]
    exact .of_tables rfl rfl rfl

theorem coversNewJobs_threads : CoversNewJobs ThreadStep fun _ => True := by
  intro _ row f _ hf w
  rcases hf w with h | ⟨jobId, t, hinsert, h⟩
  · rw [h]
    exact .refl w
  · rw [h]
    exact .insertJob hinsert

theorem coversMarks_threads : CoversMarks ThreadStep fun _ => True := by
  refine ⟨⟨fun _ f _ hf w => ?_, fun _ f _ hf w => ?_⟩, fun _ _ => .of_tables rfl rfl rfl⟩
  · obtain ⟨t, h, -⟩ := hf w
    rw [h]
    exact .of_tables rfl rfl rfl
  · obtain ⟨t, h, -⟩ := hf w
    rw [h]
    exact .of_tables rfl rfl rfl

theorem coversModel_threads : CoversModel ThreadStep :=
  ⟨fun _ => .of_tables rfl rfl rfl, fun _ => .of_tables rfl rfl rfl⟩

theorem coversCalls_threads : CoversCalls ThreadStep := fun _ _ => .of_tables rfl rfl rfl

theorem coversReport_threads (reportId : Text) : CoversReport ThreadStep reportId fun _ => True where
  status _ _ _ _ _ _ := .of_tables rfl rfl rfl
  evidence _ _ _ hf w := by
    obtain ⟨t, h⟩ := hf w
    rw [h]
    exact .of_tables rfl rfl rfl

theorem newReport_threads (out : Outside) (c : ReportStore.Wanted) : Always ThreadStep (c.call out) := by
  have hinsert : ∀ r, Always ThreadStep (ReportStore.insertReport r) := by
    refine fun r => always_atomic fun w => ?_
    simp only
    split_ifs
    · exact .refl w
    · split
      · exact .of_tables rfl rfl rfl
      · exact .refl w
    · exact .refl w
  refine (utcnow_always covers_threads out).bind fun now => (hinsert _).bind fun _ => ?_
  exact always_observeE KeepsThreads.refl _

/-! ### Flushing -/

section
variable {E : Env Stmt World Exc} (out : Outside)

/-- A judgement among threads that all keep what this one keeps. -/
abbrev AmongThreads {α : Type} (E : Env Stmt World Exc) (Q : Except Exc α → World → Prop) (p : M α) (w : World) :
    Prop :=
  RG E KeepsThreads KeepsThreads Q p w

/-- The mail is there, and about this job. -/
def IsAbout (id : Nat) (j : Option Text) (w : World) : Prop := mailJob w id = some j

theorem isAbout_stable (id : Nat) (j : Option Text) : Stable KeepsThreads (IsAbout id j) :=
  fun _ _ h hw => h.mail id j hw

theorem threadStep_among {α : Type} {p : M α} (hp : Always ThreadStep p) {P : World → Prop}
    (hP : Stable KeepsThreads P) {w : World} (hw : P w) : AmongThreads E (fun _ => P) p w :=
  ((hp.rg (fun _ _ hf s _ => hf s) w).keep hP hw).mono (fun _ _ h => h) fun _ _ h => h.2

/-- The one statement that links: it gives the link the job of the mail. -/
theorem link_among {l : MessageLink} {w : World} (hw : IsAbout l.outboxId l.jobId w) :
    AmongThreads E (fun _ => IsAbout l.outboxId l.jobId) (Outbox.link l) w := by
  refine rg_atomic (isAbout_stable _ _) (fun _ => isAbout_stable _ _) (fun s hs _ => ?_) (fun _ _ hs _ => hs) hw
  cases hinsert : s.messageLinks.insert l with
  | error e => exact ⟨.refl s, hs⟩
  | ok t =>
    have hrows := MessageLinks.insert_rows hinsert
    refine ⟨⟨fun _ _ h => h, fun _ _ h => h, fun l' hl' => ?_, fun hlinked l' hl' => ?_⟩, hs⟩
    · simp only [hrows]
      exact List.mem_append_left _ hl'
    · simp only [hrows, List.mem_append, List.mem_singleton] at hl'
      rcases hl' with hl' | rfl
      · exact hlinked l' hl'
      · exact hs

theorem markSent_among (id : Nat) (providerMessageId : Text) {j : Option Text} {w : World} (hw : IsAbout id j w) :
    AmongThreads E (fun _ => IsAbout id j) (Outbox.markSent out id providerMessageId) w := by
  have hselect : AmongThreads E (fun x s => IsAbout id j s ∧ ∀ row, x = .ok row → row.bind OutboxMessage.jobId = j)
      (observe .selectOutbox fun w => w.outbox.find? id) w := by
    refine rg_observe (isAbout_stable id j) (fun x s s' h hs => ⟨isAbout_stable id j s s' h hs.1, hs.2⟩)
      (fun s hs => ⟨.refl s, hs, fun row hrow => ?_⟩) (fun _ _ hs _ => ⟨hs, fun row hrow => by cases hrow⟩) hw
    obtain ⟨m, hm, rfl⟩ := Option.map_eq_some_iff.1 hs
    obtain rfl := Except.ok.inj hrow
    rw [hm]
    rfl
  have hclock : ∀ s, IsAbout id j s → AmongThreads E (fun _ => IsAbout id j) (utcnow out) s :=
    fun s hs => threadStep_among (utcnow_always covers_threads out) (isAbout_stable id j) hs
  refine RG.bind KeepsThreads.refl hselect (fun row s hs => ?_) fun _ _ hs => hs.1
  refine RG.bind KeepsThreads.refl (hclock s hs.1) (fun now s hs' => ?_) fun _ _ hs => hs
  have hsent : Always ThreadStep (Outbox.setSent id now) := always_change fun w => .modifyOutbox w id _ _ fun _ => rfl
  refine RG.bind KeepsThreads.refl (threadStep_among hsent (isAbout_stable id j) hs') (fun _ s hs' => ?_)
    fun _ _ hs => hs
  split_ifs
  · refine RG.bind KeepsThreads.refl (hclock s hs') (fun now s hs' => ?_) fun _ _ hs => hs
    obtain rfl := hs.2 row rfl
    exact link_among hs'
  · exact rg_ret (fun _ => isAbout_stable id j) hs'

theorem markFailed_threads (id : Nat) (error : Text) : Always ThreadStep (Outbox.markFailed id error) :=
  Always.bind (always_observe KeepsThreads.refl _) fun _ =>
    always_change fun w => .modifyOutbox w id _ _ fun _ => rfl

/-- The mail is there. -/
def IsThere (id : Nat) (w : World) : Prop := ∃ j, IsAbout id j w

theorem isThere_stable (id : Nat) : Stable KeepsThreads (IsThere id) :=
  fun s s' h ⟨j, hj⟩ => ⟨j, isAbout_stable id j s s' h hj⟩

theorem deliverOne_among {record : Text → M Unit} (hrecord : ∀ id, Always ThreadStep (record id))
    (errorText : Exc → Text) {m : OutboxMessage} {w : World} (hw : IsThere m.id w) :
    AmongThreads E (fun _ => IsThere m.id) (deliverOne out record errorText m) w := by
  have hstep : ∀ {α : Type} {p : M α}, Always ThreadStep p → ∀ s, IsThere m.id s →
      AmongThreads E (fun _ => IsThere m.id) p s := fun hp s hs => threadStep_among hp (isThere_stable m.id) hs
  have hsend : ∀ attachments, Always ThreadStep (sendEmail out m attachments) :=
    fun attachments => always_atomic fun w => .of_tables rfl rfl rfl
  refine RG.tryCatch KeepsThreads.refl (M := fun _ => IsThere m.id) ?_ (fun _ _ hs => hs) fun e s hs => ?_
  · refine RG.bind KeepsThreads.refl (hstep (readAttachments_always KeepsThreads.refl _) w hw)
      (fun attachments s hs => ?_) fun _ _ hs => hs
    refine RG.bind KeepsThreads.refl (hstep (hsend attachments) s hs) (fun id s hs => ?_) fun _ _ hs => hs
    obtain ⟨j, hj⟩ := hs
    refine RG.bind KeepsThreads.refl (markSent_among out m.id id hj) (fun _ s hs => ?_) fun _ _ hs => ⟨j, hs⟩
    exact hstep ((hrecord id).bind fun _ => always_ret 1) s ⟨j, hs⟩
  · exact hstep ((markFailed_threads m.id (errorText e)).bind fun _ => always_ret 0) s hs

theorem flushAll_among {flush : OutboxMessage → M Nat}
    (hflush : ∀ m w, IsThere m.id w → AmongThreads E (fun _ _ => True) (flush m) w) (messages : List OutboxMessage)
    {w : World} (hw : ∀ m ∈ messages, IsThere m.id w) :
    AmongThreads E (fun _ _ => True) (flushAll flush messages) w := by
  induction messages generalizing w with
  | nil => exact fun _ _ => trivial
  | cons m messages ih =>
    obtain ⟨hm, hrest⟩ := List.forall_mem_cons.1 hw
    have hkeep : Stable KeepsThreads fun s => ∀ m ∈ messages, IsThere m.id s :=
      fun s s' h hs m hm => isThere_stable m.id s s' h (hs m hm)
    refine RG.bind KeepsThreads.refl ((hflush m w hm).keep hkeep hrest) (fun n s hs => ?_) fun _ _ _ => trivial
    exact RG.bind KeepsThreads.refl (ih hs.2) (fun _ _ _ _ _ => trivial) fun _ _ _ => trivial

theorem flushPending_among {flush : OutboxMessage → M Nat}
    (hflush : ∀ m w, IsThere m.id w → AmongThreads E (fun _ _ => True) (flush m) w) (w : World) :
    AmongThreads E (fun _ _ => True) (Outbox.pending.bind (flushAll flush)) w := by
  have hthere : ∀ x : Except Exc (List OutboxMessage), Stable KeepsThreads fun s =>
      ∀ messages, x = .ok messages → ∀ m ∈ messages, IsThere m.id s :=
    fun x s s' h hs messages hx m hm => isThere_stable m.id s s' h (hs messages hx m hm)
  have hpending : AmongThreads E (fun x s => ∀ messages, x = .ok messages → ∀ m ∈ messages, IsThere m.id s)
      Outbox.pending w := by
    refine rg_observe (P := fun _ => True) (fun _ _ _ _ => trivial) hthere
      (fun s _ => ⟨.refl s, fun messages hx m hm => ?_⟩) (fun _ _ _ _ messages hx => by cases hx) trivial
    obtain rfl := Except.ok.inj hx
    have hrow : m ∈ s.outbox.rows :=
      List.mem_of_mem_filter ((List.perm_insertionSort _ _).mem_iff.1 hm)
    exact ⟨m.jobId, by rw [IsAbout, mailJob, Table.find?_of_mem hrow]; rfl⟩
  exact RG.bind KeepsThreads.refl hpending (fun messages s hs => flushAll_among hflush messages (hs messages rfl))
    fun _ _ _ => trivial

theorem flushOutbox_among (w : World) : AmongThreads E (fun _ _ => True) (flushOutbox out) w := by
  refine flushPending_among (fun m w hw => ?_) w
  refine (deliverOne_among out (fun id => ?_) _ hw).inside
  cases truthy m.jobId with
  | none => trivial
  | some jobId => exact update_always covers_threads trivial _

theorem flushReportOutbox_among (w : World) : AmongThreads E (fun _ _ => True) (flushReportOutbox out) w := by
  refine flushPending_among (fun m w hw => ?_) w
  unfold flushReportOne
  split_ifs
  · refine (deliverOne_among out (fun _ => ?_) _ hw).inside
    exact setReportStatus_always covers_threads out (coversReport_threads _) trivial _ _
  · exact fun _ _ => trivial

end

/-! ### One round -/

section
variable {E : Env Stmt World Exc} (out : Outside)

/-- The mails that the provider has accepted, and the links. -/
def sentAndLinked (w : World) : List Delivery × MessageLinks := (w.deliveries, w.messageLinks)

/-- The provider has accepted the mail, and the id it gave, if any, is recorded. -/
def SentAs (id : Nat) (w : World) : Prop :=
  ∃ d ∈ w.deliveries, d.outboxId = id ∧ (d.messageId ≠ [] → RecordedAs w id d.messageId)

theorem SentAs.congr {id : Nat} {w w' : World} (h : SentAs id w) (hsame : sentAndLinked w' = sentAndLinked w) :
    SentAs id w' := by
  obtain ⟨hdeliveries, hlinks⟩ := Prod.mk.inj hsame
  unfold SentAs RecordedAs
  rw [hdeliveries, hlinks]
  exact h

theorem markSent_records (id : Nat) {d : Delivery} (hd : d.outboxId = id) {w : World} (hw : d ∈ w.deliveries) :
    Ensures E (fun _ x w' => x = .ok () → SentAs id w') (Outbox.markSent out id d.messageId) w := by
  have hkeep : ∀ {α : Type} {p : M α}, Keeps sentAndLinked p → ∀ w, d ∈ w.deliveries →
      Ensures E (fun _ _ w' => d ∈ w'.deliveries) p w := by
    intro α p hp w hw
    refine (Keeps.ensures hp w).mono fun _ _ w' hsame => ?_
    rw [(Prod.mk.inj hsame).1]
    exact hw
  refine Ensures.bind (hkeep (keeps_observe sentAndLinked _ _) w hw) (fun _ row w hw => ?_) fun _ _ _ _ h => by cases h
  refine Ensures.bind (hkeep (always_atomic fun _ => rfl) w hw) (fun _ now w hw => ?_) fun _ _ _ _ h => by cases h
  have hsent : Keeps sentAndLinked (Outbox.setSent id now) := always_change fun _ => rfl
  refine Ensures.bind (hkeep hsent w hw) (fun _ _ w hw => ?_) fun _ _ _ _ h => by cases h
  split_ifs with hid
  · refine Ensures.bind (hkeep (always_atomic fun _ => rfl) w hw) (fun _ now w hw => ?_) fun _ _ _ _ h => by cases h
    refine ensures_atomic (fun hok => ?_) fun e _ h => by cases h
    cases hinsert : w.messageLinks.insert ⟨id, row.bind OutboxMessage.jobId, d.messageId, now⟩ with
    | error e =>
      rw [hinsert] at hok
      cases hok
    | ok t =>
      refine ⟨d, hw, hd, fun _ => ⟨⟨id, row.bind OutboxMessage.jobId, d.messageId, now⟩, ?_, rfl, rfl⟩⟩
      simp only [MessageLinks.insert_rows hinsert]
      exact List.mem_append_right _ List.mem_cons_self
  · exact ensures_ret fun _ => ⟨d, hw, hd, fun hne => absurd hne hid⟩

/-- A round that counts its mail as sent has recorded it. -/
theorem flushOne_records (m : OutboxMessage) (w : World) :
    Ensures E (fun _ x w' => x = .ok 1 → SentAs m.id w') (flushOne out m) w := by
  have hany : ∀ {α : Type} (p : M α) w, Ensures E (fun _ _ _ => True) p w := fun _ _ _ _ _ _ => trivial
  refine Ensures.tryCatch (M := fun _ x w' => (∃ n, x = .ok n) → SentAs m.id w') ?_
    (fun _ n w' hsent _ => hsent ⟨n, rfl⟩) fun _ e w' _ => ?_
  · have hraised : ∀ {e : Exc} {w' : World}, (∃ n : Nat, Except.error e = Except.ok n) → SentAs m.id w' := by
      rintro e w' ⟨n, hn⟩
      cases hn
    have hsend : ∀ attachments w, Ensures E (fun _ x w' => ∀ id, x = .ok id →
        ∃ d ∈ w'.deliveries, d.outboxId = m.id ∧ d.messageId = id) (sendEmail out m attachments) w := by
      refine fun attachments w => ensures_atomic (fun id hid => ?_) fun e _ id hid => by cases hid
      obtain rfl := Except.ok.inj hid
      exact ⟨_, List.mem_cons_self, rfl, rfl⟩
    refine Ensures.bind (hany _ w) (fun _ attachments w _ => ?_) fun _ _ _ _ => hraised
    refine Ensures.bind (hsend attachments w) (fun _ id w hsent => ?_) fun _ _ _ _ => hraised
    obtain ⟨d, hd, hmail, rfl⟩ := hsent id rfl
    refine Ensures.bind (markSent_records out m.id hmail hd) (fun _ _ w hrecorded => ?_) fun _ _ _ _ => hraised
    refine Ensures.bind (M := fun _ _ w' => sentAndLinked w' = sentAndLinked w) ?_
      (fun _ _ w' hsame => ensures_ret fun _ => (hrecorded rfl).congr hsame) fun _ _ _ _ => hraised
    cases truthy m.jobId with
    | none => exact ensures_ret rfl
    | some jobId =>
      have hkeeps : Keeps sentAndLinked (JobStore.update jobId [.lastResponseMessageId (some d.messageId)]) :=
        always_change fun _ => rfl
      exact hkeeps.ensures w
  · refine Ensures.bind (hany _ w') (fun _ _ w' _ => ensures_ret fun h => by cases h) fun _ _ _ _ h => by cases h

end

/-! ### Runs -/

section
variable [PyChars] (out : Outside)

/-- The calls of the mail loop, the worker and the weekly command. -/
inductive ServiceCall : M Unit → Prop
  | poll (p : EmailProcessingPipeline) (fetched : Except Exc (List EmailMessage)) :
      ServiceCall (do let _ ← p.pollOnce out fetched)
  | flush : ServiceCall (do let _ ← flushOutbox out)
  | work (worker : JobWorker) : ServiceCall (do let _ ← worker.runOnce out)
  | newReport (c : ReportStore.Wanted) : ServiceCall (do let _ ← c.call out)
  | report (p : WeeklyReportWorkflow) (reportId : Text) : ServiceCall (p.run out reportId)
  | flushReports : ServiceCall (do let _ ← flushReportOutbox out)

/-- What happens around leaves the jobs, the mails and the links alone. -/
def SameThreads (w w' : World) : Prop :=
  w'.jobs = w.jobs ∧ w'.outbox = w.outbox ∧ w'.messageLinks = w.messageLinks

variable {ι : Type} [DecidableEq ι] (E : Env Stmt World Exc)

/-- Any number of threads, each making one call after another; every step may raise, and every call may be left at any
point. -/
abbrev ServiceRun (c c' : (ι → M Unit) × World) : Prop :=
  PoolSteps E SameThreads (fun _ p _ => ServiceCall out p) c c'

variable {out E}

theorem serviceCall_among {p : M Unit} (h : ServiceCall out p) (w : World) :
    AmongThreads E (fun _ _ => True) p w := by
  have hreturn : ∀ {α : Type} {p : M α}, AmongThreads E (fun _ _ => True) p w →
      AmongThreads E (fun _ _ => True) (do let _ ← p) w :=
    fun hp => RG.bind KeepsThreads.refl hp (fun _ _ _ _ _ => trivial) fun _ _ _ => trivial
  have hsteps : ∀ {α : Type} {p : M α}, Always ThreadStep p → AmongThreads E (fun _ _ => True) p w :=
    fun hp => hp.rg (fun _ _ hf s _ => hf s) w
  cases h with
  | poll p fetched =>
    exact hreturn (hsteps (pollOnce_always covers_threads coversMarks_threads coversNewJobs_threads coversModel_threads
      out p fetched))
  | flush => exact hreturn (flushOutbox_among out w)
  | work worker =>
    exact hreturn (hsteps (runOnce_always covers_threads coversCalls_threads coversModel_threads out worker))
  | newReport c => exact hreturn (hsteps (newReport_threads out c))
  | report p reportId =>
    exact hsteps (run_always out covers_threads coversCalls_threads coversModel_threads (coversReport_threads _) p)
  | flushReports => exact hreturn (flushReportOutbox_among out w)

omit [DecidableEq ι] in
theorem service_spec : PoolSpec E SameThreads (fun _ p _ => ServiceCall out p) (fun _ : ι => KeepsThreads)
    (fun _ => KeepsThreads) (fun _ _ => True) where
  refl _ := KeepsThreads.refl
  trans _ _ _ _ := KeepsThreads.trans
  others _ _ _ _ _ h := h
  around _ _ _ h := .of_tables h.1 h.2.1 h.2.2
  called _ _ w h := serviceCall_among h w

theorem ServiceRun.keeps {w : World} {c c' : (ι → M Unit) × World} (hrun : ServiceRun out E (fun _ => ret (), w) c)
    (hlater : ServiceRun out E c c') : KeepsThreads c.2 c'.2 := by
  have hok := service_spec.ok hrun fun _ _ _ => trivial
  exact service_spec.inv (I := KeepsThreads c.2) (fun _ _ _ h hI => hI.trans h)
    (fun _ _ h hI => hI.trans (.of_tables h.1 h.2.1 h.2.2)) hlater hok (.refl c.2)

/-! ### The reply -/

omit [PyChars] in
theorem findByResponse_recorded {w : World} (hlinked : Linked w) {job : Job} (hjob : job ∈ w.jobs.rows) {id : Nat}
    (habout : IsAbout id (some job.jobId) w) {messageId : Text} (hrecorded : RecordedAs w id messageId)
    {senderEmail : Text} (howner : sqlLower senderEmail = sqlLower job.senderEmail) :
    ∃ found, JobStore.findByResponse w messageId senderEmail = some found ∧ found.jobId = job.jobId := by
  obtain ⟨l, hl, rfl, rfl⟩ := hrecorded
  have hcarries : l.jobId = some job.jobId := Option.some.inj ((hlinked l hl).symm.trans habout)
  let joined := (w.messageLinks.rows.flatMap fun l =>
    (w.jobs.rows.filter fun j => l.jobId = some j.jobId).map fun j => (l, j)).filter fun r =>
      r.1.messageId = l.messageId ∧ sqlLower r.2.senderEmail = sqlLower senderEmail
  have hmem : ∀ r, r ∈ joined ↔ (r.1 ∈ w.messageLinks.rows ∧ r.2 ∈ w.jobs.rows ∧ r.1.jobId = some r.2.jobId) ∧
      r.1.messageId = l.messageId ∧ sqlLower r.2.senderEmail = sqlLower senderEmail := by
    rintro ⟨l', j⟩
    simp only [joined, List.mem_filter, List.mem_flatMap, List.mem_map, decide_eq_true_eq, Prod.mk.injEq]
    constructor
    · rintro ⟨⟨_, hl', _, ⟨hj, hsame⟩, rfl, rfl⟩, hrest⟩
      exact ⟨⟨hl', hj, hsame⟩, hrest⟩
    · rintro ⟨⟨hl', hj, hsame⟩, hrest⟩
      exact ⟨⟨l', hl', j, ⟨hj, hsame⟩, rfl, rfl⟩, hrest⟩
  have hthere : (l, job) ∈ joined := (hmem _).2 ⟨⟨hl, hjob, hcarries⟩, rfl, howner.symm⟩
  have hall : ∀ r ∈ joined, r.2.jobId = job.jobId := by
    intro r hr
    obtain ⟨⟨hr₁, -, hsame⟩, hid, -⟩ := (hmem r).1 hr
    have heq : r.1 = l := List.inj_on_of_nodup_map w.messageLinks.table.nodup hr₁ hl hid
    rw [heq, hcarries] at hsame
    exact (Option.some.inj hsame).symm
  obtain ⟨r, hr, hfirst⟩ := latest_of_mem (fun r : MessageLink × Job => r.1.createdAt) hthere
  exact ⟨r.2, congrArg (Option.map Prod.snd) hfirst, hall r hr⟩

/-- `<...>`, without spaces or brackets inside. -/
def MessageIdForm (messageId : Text) : Prop :=
  ∃ word : Text, messageId = cat ["<", word, ">"] ∧ word ≠ [] ∧ ∀ c ∈ word, c ≠ '<' ∧ c ≠ '>' ∧ isSpace c = false

omit [PyChars] in
theorem messageIdToken_matched {messageId : Text} (hform : MessageIdForm messageId) (rest : Text) :
    matchAt messageIdTokenRe none (messageId ++ rest) = some ⟨messageId, []⟩ := by
  obtain ⟨word, rfl, hne, hword⟩ := hform
  have hclass : ∀ c ∈ word, (c != '<' && c != '>' && !isSpace c) = true := by
    intro c hc
    obtain ⟨hopen, hclose, hspace⟩ := hword c hc
    simp [hopen, hclose, hspace]
  have hstop : ∀ prev x xs g, (x != '<' && x != '>' && !isSpace x) = true →
      (Re.lit ['>']).go ⟨prev, x :: xs, g⟩ = [] := by
    intro prev x xs g hx
    have hne : x ≠ '>' := by
      rintro rfl
      simp at hx
    simp [Re.lit, seq_one_cons, hne]
  have htext : cat ["<", word, ">"] ++ rest = ['<'] ++ (word ++ '>' :: rest) := by simp [cat]
  have hgo : messageIdTokenRe.go ⟨none, cat ["<", word, ">"] ++ rest, []⟩ = [⟨some '>', rest, []⟩] := by
    have hopen := go_lit ['<'] none (word ++ '>' :: rest) []
    have hclose := go_lit ['>'] (lastOf (lastOf none ['<']) word) rest []
    rw [htext, messageIdTokenRe, go_seq]
    refine (congrArg (List.flatMap _) hopen).trans ?_
    rw [List.flatMap_singleton]
    exact (go_plus hstop hne hclass (by simp) _ []).trans hclose
  rw [matchAt, hgo]
  exact congrArg (fun text => some (Match.mk text [])) (take_sub_length _ _)

omit [PyChars] in
theorem referencedMessageIds_reply {messageId : Text} (hform : MessageIdForm messageId) (references : Option Text) :
    ∃ refs, referencedMessageIds (some messageId) references = messageId :: refs := by
  have hne : messageId ≠ [] := by
    obtain ⟨word, rfl, -⟩ := hform
    simp [cat]
  have htruthy : truthy (some messageId) = some messageId := by
    obtain ⟨c, cs, rfl⟩ := List.exists_cons_of_ne_nil hne
    rfl
  obtain ⟨rest, hraw⟩ : ∃ rest,
      join " " [truthy (some messageId), truthy references].reduceOption = messageId ++ rest := by
    rw [htruthy]
    cases truthy references with
    | none =>
      rw [List.reduceOption_cons_of_some, List.reduceOption_cons_of_none, List.reduceOption_nil]
      exact ⟨[], by simp [join]⟩
    | some refs =>
      rw [List.reduceOption_cons_of_some, List.reduceOption_cons_of_some, List.reduceOption_nil]
      exact ⟨cat [" ", refs], by simp [join, cat]⟩
  obtain ⟨ms, hall⟩ := findAll_front hne (messageIdToken_matched hform rest)
  refine ⟨ms.map Match.text, ?_⟩
  simp only [referencedMessageIds, hraw, hall, List.map_cons]

/-- **The reply to a recorded mail finds the job of the mail**, whatever has run in between, and whatever else the reply
names or says. -/
theorem reply_matched {w : World} (hfresh : w.messageLinks.rows = []) {c c' : (ι → M Unit) × World}
    (hrun : ServiceRun out E (fun _ => ret (), w) c) (hlater : ServiceRun out E c c') {job : Job}
    (hjob : job ∈ c.2.jobs.rows) {m : OutboxMessage} (hmail : m ∈ c.2.outbox.rows)
    (habout : m.jobId = some job.jobId) {messageId : Text} (hform : MessageIdForm messageId)
    (hrecorded : RecordedAs c.2 m.id messageId) {msg : EmailMessage} (hreply : msg.inReplyTo = some messageId)
    {senderEmail : Text} (howner : sqlLower senderEmail = sqlLower job.senderEmail) :
    (ThreadMatcher.matchJob msg senderEmail).run c'.2 = (.ok (some job.jobId), c'.2) := by
  have hkeeps := ServiceRun.keeps hrun hlater
  have hlinked : Linked c'.2 := by
    refine (ServiceRun.keeps .refl (hrun.trans hlater)).linked fun l hl => ?_
    rw [hfresh] at hl
    cases hl
  have hmail' : IsAbout m.id (some job.jobId) c'.2 := by
    refine hkeeps.mail _ _ ?_
    rw [mailJob, Table.find?_of_mem hmail, Option.map_some, habout]
  have hsender : senderOf c'.2 job.jobId = some job.senderEmail := by
    refine hkeeps.sender _ _ ?_
    rw [senderOf, Table.find?_of_mem hjob, Option.map_some]
  obtain ⟨job', hfind, hsame⟩ := Option.map_eq_some_iff.1 hsender
  have hkey : job'.jobId = job.jobId := Table.find?_key hfind
  rw [← hkey] at hmail' ⊢
  rw [← hsame] at howner
  have hrecorded' : RecordedAs c'.2 m.id messageId := by
    obtain ⟨l, hl, hid⟩ := hrecorded
    exact ⟨l, hkeeps.links l hl, hid⟩
  obtain ⟨found, hfound, hsameJob⟩ :=
    findByResponse_recorded hlinked (Table.find?_mem hfind) hmail' hrecorded' howner
  obtain ⟨refs, hrefs⟩ := referencedMessageIds_reply hform msg.references
  have hreference : (ThreadMatcher.matchReference senderEmail messageId).run c'.2 = (.ok (some found), c'.2) := by
    refine (run_bind_ok (run_observe _ _ _)).trans ?_
    rw [hfound]
    rfl
  have hreferences : (ThreadMatcher.matchReferences senderEmail (messageId :: refs)).run c'.2 =
      (.ok (some found.jobId), c'.2) :=
    run_bind_ok hreference
  rw [ThreadMatcher.matchJob, hreply, hrefs, ← hsameJob]
  exact run_bind_ok hreferences

end

section
attribute [local instance] asciiChars

/-- A mail about the question of the owner. -/
def queuedMail : OutboxMessage :=
  { id := 1, jobId := some questionJob.jobId, toEmail := "alice@uni.ac.uk", subject := "Queued", bodyText := "Queued",
    createdAt := 1786406400000002 }

/-- The mail loop sends it, and then the worker works on the question. -/
def mailQueued : World where
  jobs := Table.empty.upsert questionJob
  outbox := ⟨[queuedMail], List.nodup_singleton _⟩

def sendMail : M Unit := do let _ ← flushOutbox .plain

def work : M Unit := do let _ ← (smallWorker []).runOnce .plain

def mailSent : World := (sendMail.run mailQueued).2

/-- The owner's reply to it. -/
def replyToMail : EmailMessage :=
  { aliceMessage with inReplyTo := some "<0@out>", references := some "<7@elsewhere> <0@out>" }

theorem reply_matched_later : (ThreadMatcher.matchJob replyToMail "Alice@uni.ac.uk").run (work.run mailSent).2 =
    (.ok (some questionJob.jobId), (work.run mailSent).2) := by
  let c : (Unit → M Unit) × World :=
    (Function.update (fun _ => ret ()) () (Prog.ofExcept (sendMail.run mailQueued).1), mailSent)
  have hrun : ServiceRun .plain Env.calm (fun _ => ret (), mailQueued) c :=
    .call .refl .flush (steps_run _ (fun _ _ => trivial) sendMail _)
  let d : (Unit → M Unit) × World :=
    (Function.update c.1 () (Prog.ofExcept (work.run mailSent).1), (work.run mailSent).2)
  have hlater : ServiceRun .plain Env.calm c d :=
    .call .refl (.work _) (steps_run _ (fun _ _ => trivial) work _)
  have hjob : { questionJob with lastResponseMessageId := some "<0@out>" } ∈ mailSent.jobs.rows := by decide +kernel
  have hmail : { queuedMail with status := .sent, sentAt := some 1786406400000000 } ∈ mailSent.outbox.rows := by
    decide +kernel
  have hrecorded : RecordedAs mailSent 1 "<0@out>" :=
    ⟨⟨1, some questionJob.jobId, "<0@out>", 1786406400000001⟩, by decide +kernel, rfl, rfl⟩
  have hform : MessageIdForm "<0@out>" := by
    refine ⟨"0@out", by decide, by decide, fun c hc => ?_⟩
    have hcases : c = '0' ∨ c = '@' ∨ c = 'o' ∨ c = 'u' ∨ c = 't' := by simpa using hc
    rcases hcases with rfl | rfl | rfl | rfl | rfl <;> decide
  exact reply_matched rfl hrun hlater hjob hmail rfl hform hrecorded rfl (by decide)

end

end GroupAssessmentAgent
