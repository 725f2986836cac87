import GroupAssessmentAgent.Jobs.Executions

/-!
# The stores while they hold

A file operation, a call or the model may raise whatever exception, but no statement on the database does
(`Holding`). Then `set_status` does what the table of transitions lets it do, and every mail that a handler sends is in
the outbox. A mail is compared without its number and its time (`OutboxMessage.unnumbered`), as a row is without its
times.
-/

namespace GroupAssessmentAgent
open Prog

/-- No statement on the database raises. -/
def Holding (E : Env Stmt World Exc) : Prop := ∀ l w e, E.fault l w e → l.ofStore = false

/-- Everything but the database may fail, in every way. -/
def Surroundings : Env Stmt World Exc := ⟨fun _ _ => True, fun l _ _ => l.ofStore = false⟩

theorem holding_surroundings : Holding Surroundings := fun _ _ _ h => h

/-! ### Mails -/

namespace OutboxMessage

/-- The mail, apart from the number of its row and the time. -/
def unnumbered (m : OutboxMessage) : OutboxMessage := { m with id := 0, createdAt := 0 }

end OutboxMessage

/-- The mail that a handler sends, unnumbered. -/
def Request.mailOf (req : Request) (mail : Rendered) (jobId : Option Text) (attachments : List Text) : OutboxMessage :=
  { id := 0, jobId, toEmail := req.senderEmail, subject := mail.1, bodyText := mail.2, attachments,
    inReplyToMessageId := req.inReplyTo, referencesHeader := req.references, createdAt := 0 }

/-- From `w` to `w'` these mails are new in the outbox, and the jobs, the questions and the files are as they were. -/
structure Sends (mails : List OutboxMessage) (w w' : World) : Prop where
  outbox : w'.outbox.rows = w.outbox.rows ++ mails
  jobs : w'.jobs = w.jobs
  questions : w'.pendingClarifications = w.pendingClarifications
  files : w'.files = w.files

theorem Sends.refl (w : World) : Sends [] w w := ⟨(List.append_nil _).symm, rfl, rfl, rfl⟩

theorem Sends.trans {mails mails' : List OutboxMessage} {a b c : World} (h : Sends mails a b) (h' : Sends mails' b c) :
    Sends (mails ++ mails') a c where
  outbox := by rw [h'.outbox, h.outbox, List.append_assoc]
  jobs := h'.jobs.trans h.jobs
  questions := h'.questions.trans h.questions
  files := h'.files.trans h.files

/-! ### Files -/

namespace World
variable (w : World) (jobId path dest : Text) (content : Bytes)

/-- The file at `path` is now at `dest`, and the row of the job says so. -/
def relocate : World :=
  { w with files := (w.files.erase path).upsert ⟨dest, content⟩ }.writeJob jobId [.attachmentStoragePath (some dest)]

theorem relocate_status (jobId' : Text) : statusOf (w.relocate jobId path dest content) jobId' = statusOf w jobId' :=
  statusOf_writeJob _ _ _ _

theorem relocate_row : (w.relocate jobId path dest content).jobs.find? jobId =
    (w.jobs.find? jobId).map fun j => { j with attachmentStoragePath := some dest } := by
  rw [relocate, writeJob, modifyJob, Table.find?_modify, if_pos rfl]
  rfl

theorem relocate_file : (w.relocate jobId path dest content).files.find? dest = some ⟨dest, content⟩ :=
  (Table.find?_upsert _ _ _).trans (if_pos rfl)

end World

/-! ### Alerts -/

namespace AdminNotifier

/-- No alert of the category has been sent within the cooldown. -/
def due (out : Outside) (n : AdminNotifier) (category : AdminCategory) (w : World) : Bool :=
  (w.adminAlerts.find? category).all fun row => row.lastSentAt + n.cooldown ≤ w.now out

/-- How often an alert of the category was due when it was asked for. -/
def timesDue (out : Outside) (n : AdminNotifier) (category : AdminCategory) (h : WorldHistory) : Nat :=
  h.countP fun t => t.label = .selectAlerts ∧ n.due out category t.state

end AdminNotifier

/-- How many mails carry no job. -/
def World.joblessMails (w : World) : Nat := w.outbox.rows.countP fun m => m.jobId.isNone

/-- A step that asks for no alert and adds no mail without a job. -/
def Unalerting (l : Stmt) (f : World → World) : Prop := l ≠ .selectAlerts ∧ ∀ w, (f w).joblessMails = w.joblessMails

theorem covers_unalerting : Covers Unalerting (fun _ => True) fun m => m.jobId ≠ none where
  look l hl := by
    refine ⟨?_, fun _ => rfl⟩
    rintro rfl
    cases hl
  ask h := by
    obtain ⟨m, hjob, hnone⟩ := h
    exact absurd hnone hjob
  tick := ⟨nofun, fun _ => rfl⟩
  job _ _ _ := ⟨nofun, fun _ => rfl⟩
  status _ _ _ _ _ _ := ⟨nofun, fun _ => rfl⟩
  outbox row _ hjob := by
    refine ⟨nofun, fun w => ?_⟩
    have hnone : (row w.outbox.next).jobId.isNone = false :=
      Option.isNone_eq_false_iff.2 (Option.isSome_iff_ne_none.2 (hjob _))
    show (w.outbox.rows ++ [row w.outbox.next]).countP _ = _
    rw [List.countP_append, List.countP_singleton, hnone]
    rfl
  put _ _ := ⟨nofun, fun _ => rfl⟩
  delete _ _ := ⟨nofun, fun _ => rfl⟩
  alert _ := ⟨nofun, fun _ => rfl⟩
  files l f hl hf := by
    refine ⟨by rcases hl with rfl | rfl <;> decide, fun w => ?_⟩
    obtain ⟨t, n, hw⟩ := hf w
    rw [hw]
    rfl

theorem coversCalls_unalerting : CoversCalls Unalerting := fun _ => ⟨nofun, fun _ => rfl⟩

/-- The new mails without a job are the alerts that were due. -/
def AlertsCounted (out : Outside) (admin : AdminNotifier) (category : AdminCategory) (w : World) (h : WorldHistory)
    (w' : World) : Prop :=
  w'.joblessMails = w.joblessMails + admin.timesDue out category h

section
variable {E : Env Stmt World Exc} {out : Outside} {admin : AdminNotifier} {category : AdminCategory}

theorem timesDue_append (h h' : WorldHistory) :
    admin.timesDue out category (h ++ h') = admin.timesDue out category h + admin.timesDue out category h' :=
  List.countP_append

theorem alertsCounted_trans (a : World) (h : WorldHistory) (b : World) (h' : WorldHistory) (c : World)
    (hfirst : AlertsCounted out admin category a h b) (hrest : AlertsCounted out admin category b h' c) :
    AlertsCounted out admin category a (h ++ h') c := by
  rw [AlertsCounted, timesDue_append, hrest, hfirst, Nat.add_assoc]

theorem timesDue_eq_zero_iff {h : WorldHistory} : admin.timesDue out category h = 0 ↔
    ∀ t ∈ h, t.label = .selectAlerts → admin.due out category t.state = false := by
  refine List.countP_eq_zero.trans (forall₂_congr fun t _ => ?_)
  rw [decide_eq_true_eq, not_and, Bool.not_eq_true]

theorem timesDue_eq_zero {h : WorldHistory} (hlabels : ∀ t ∈ h, t.label ≠ .selectAlerts) :
    admin.timesDue out category h = 0 :=
  timesDue_eq_zero_iff.2 fun t ht hasked => absurd hasked (hlabels t ht)

theorem unalerting_counted {α : Type} {p : M α} (hp : Always Unalerting p) :
    Records E (AlertsCounted out admin category) p := by
  intro w
  have hsteps : Ensures E (fun h _ w' => w'.joblessMails = w.joblessMails ∧ ∀ t ∈ h, t.label ≠ .selectAlerts) p w :=
    Always.ensures (L := fun l => l ≠ Stmt.selectAlerts) (G := fun a b : World => b.joblessMails = a.joblessMails)
      (fun _ => rfl) (fun _ _ _ h h' => h'.trans h) (fun _ _ hf => hf) hp w
  refine hsteps.mono fun h x w' ⟨hsame, hlabels⟩ => ?_
  rw [AlertsCounted, timesDue_eq_zero hlabels, hsame, Nat.add_zero]

end

/-! ### Statements -/

section
variable {E : Env Stmt World Exc} (hE : Holding E)
include hE

theorem Holding.no_fault {e : Exc} : ¬ StoreFault E e := by
  rintro ⟨l, s, hl, hfault⟩
  rw [hE l s e hfault] at hl
  cases hl

theorem store_holds {α : Type} {Q : α → World → Prop} {l : Stmt} (hl : l.ofStore = true) {f : World → World}
    {a : World → α} {w : World} (hQ : Q (a w) (f w)) : Returns E Q (atomic l fun w => (.ok (a w), f w)) w :=
  ensures_atomic ⟨clean_step _ _, a w, rfl, hQ⟩ fun _ he => absurd ⟨l, w, hl, he⟩ hE.no_fault

variable (out : Outside)

theorem utcnow_holds (w : World) : Returns E (fun _ w' => w' = w.tick) (utcnow out) w := store_holds hE rfl rfl

theorem get_holds (jobId : Text) (w : World) :
    Returns E (fun row w' => row = w.jobs.find? jobId ∧ w' = w) (JobStore.get jobId) w :=
  store_holds hE rfl ⟨rfl, rfl⟩

theorem update_holds (jobId : Text) {fields : List JobField} (hfields : fields ≠ []) (w : World) :
    Returns E (fun _ w' => w' = w.writeJob jobId fields) (JobStore.update jobId fields) w := by
  refine (update_ensures jobId hfields w).mono fun _ x w' hw' => ?_
  rcases hw' with ⟨hw', hx, hclean⟩ | ⟨-, e, -, hfault⟩
  · exact ⟨hclean, (), hx, hw'⟩
  · exact absurd hfault hE.no_fault

/-- The row that `set_status` writes, at some time. -/
def StatusWritten (jobId : Text) (new : JobState) (extra : List JobField) (w w' : World) : Prop :=
  ∃ stamps n, (∀ v ∈ stamps, v.IsStamp) ∧ w' = ({ w with ticks := n }).writeStatus jobId new (extra ++ stamps)

omit hE in
theorem StatusWritten.status {jobId : Text} {new : JobState} {extra : List JobField} {w w' : World}
    (h : StatusWritten jobId new extra w w') (hallowed : Allowed w jobId new) : statusOf w' jobId = some new := by
  obtain ⟨stamps, n, -, rfl⟩ := h
  obtain ⟨current, hcurrent, -⟩ := hallowed
  have htick : statusOf { w with ticks := n } jobId = some current := hcurrent
  rw [statusOf_writeStatus, if_pos rfl, htick]
  rfl

theorem setStatus_holds {jobId : Text} {new : JobState} {w : World} (hallowed : Allowed w jobId new)
    (extra : List JobField) :
    Returns E (fun _ => StatusWritten jobId new extra w) (JobStore.setStatus out jobId new extra) w := by
  refine (setStatus_ensures out jobId new extra w).mono fun _ x w' hset => ?_
  cases hset with
  | refused _ n hwhy => exact absurd hallowed (hwhy.resolve_right hE.no_fault)
  | written stamps n hclean _ hstamps => exact ⟨hclean, (), rfl, stamps, n, hstamps, rfl⟩

omit hE in
theorem setStatus_refuses {jobId : Text} {new : JobState} {w : World} (hrefused : ¬ Allowed w jobId new)
    (extra : List JobField) :
    Ensures E (fun _ x w' => (∃ e, x = .error e) ∧ ∃ n, w' = { w with ticks := n })
      (JobStore.setStatus out jobId new extra) w := by
  refine (setStatus_ensures out jobId new extra w).mono fun _ x w' hset => ?_
  cases hset with
  | refused e n _ => exact ⟨⟨e, rfl⟩, n, rfl⟩
  | written _ _ _ hallowed _ => exact absurd hallowed hrefused

theorem enqueue_holds (toEmail subject bodyText : Text) (jobId : Option Text) (attachments : List Text)
    (inReplyTo references : Option Text) (w : World) :
    Returns E (fun _ w' => ∃ m : OutboxMessage, Sends [m] w w' ∧
        m.unnumbered = (Request.mk toEmail inReplyTo references).mailOf (subject, bodyText) jobId attachments)
      (Outbox.enqueue out toEmail subject bodyText jobId attachments inReplyTo references) w := by
  refine Returns.bind (utcnow_holds hE out w) fun now w₁ hw₁ => ?_
  subst hw₁
  exact store_holds hE rfl ⟨_, ⟨rfl, rfl, rfl, rfl⟩, rfl⟩

theorem mail_holds (req : Request) (mail : Rendered) (jobId : Option Text) (attachments : List Text) (w : World) :
    Returns E (fun _ w' => ∃ m : OutboxMessage, Sends [m] w w' ∧ m.unnumbered = req.mailOf mail jobId attachments)
      (req.enqueue out mail jobId attachments) w :=
  (enqueue_holds hE out _ _ _ _ _ _ _ w).bind fun _ _ hw₁ => returns_ret hw₁

theorem put_holds (jobId question expectedField : Text) (options : List Text) (w : World) :
    Returns E (fun _ w' => ∃ createdAt, w' =
        { w.tick with
          pendingClarifications :=
            w.pendingClarifications.upsert ⟨jobId, question, expectedField, options, createdAt⟩ })
      (PendingClarificationStore.put out jobId question expectedField options) w := by
  refine Returns.bind (utcnow_holds hE out w) fun now w₁ hw₁ => ?_
  subst hw₁
  exact store_holds hE rfl ⟨now, rfl⟩

/-- An alert is a mail to the admin that carries no job. -/
def AlertMail (admin : AdminNotifier) (m : OutboxMessage) : Prop :=
  some m.toEmail = truthy admin.adminEmail ∧ m.jobId = none

theorem alert_holds (admin : AdminNotifier) (category : AdminCategory) (summary : Text) (detail : List (Text × Text))
    (w : World) :
    Returns E (fun _ w' => ∃ alerts, Sends alerts w w' ∧ ∀ m ∈ alerts, AlertMail admin m)
      (admin.alert out category summary detail) w := by
  unfold AdminNotifier.alert
  cases hadmin : truthy admin.adminEmail with
  | none => exact returns_ret ⟨[], .refl w, nofun⟩
  | some adminEmail =>
    have hrow : Returns E (fun _ w' => w' = w) (observe .selectAlerts fun w => w.adminAlerts.find? category) w :=
      store_holds hE rfl rfl
    have hdue : Returns E (fun _ w' => Sends [] w w') (admin.shouldSend out category) w := by
      refine Returns.bind hrow fun row w₁ hw₁ => ?_
      subst hw₁
      cases row with
      | none => exact returns_ret (.refl w₁)
      | some row =>
        refine Returns.bind (utcnow_holds hE out w₁) fun now w₂ hw₂ => returns_ret ?_
        rw [hw₂]
        exact ⟨(List.append_nil _).symm, rfl, rfl, rfl⟩
    refine Returns.bind hdue fun due w₁ hw₁ => ?_
    split_ifs
    · refine Returns.bind (enqueue_holds hE out _ _ _ _ _ _ _ w₁) fun _ w₂ hw₂ => ?_
      obtain ⟨m, hsent, hmail⟩ := hw₂
      have hrecord : Returns E (fun _ w' => Sends [] w₂ w') (AdminNotifier.recordSent out category) w₂ := by
        refine Returns.bind (utcnow_holds hE out w₂) fun now w₃ hw₃ => ?_
        subst hw₃
        exact store_holds hE rfl ⟨(List.append_nil _).symm, rfl, rfl, rfl⟩
      refine Returns.bind hrecord fun _ w₃ hw₃ => returns_ret ⟨[m], (hw₁.trans hsent).trans hw₃, fun m' hm' => ?_⟩
      rw [List.mem_singleton.1 hm']
      exact ⟨hadmin ▸ congrArg some (congrArg OutboxMessage.toEmail hmail), congrArg OutboxMessage.jobId hmail⟩
    · exact returns_ret ⟨[], hw₁, nofun⟩

theorem shouldSend_due (admin : AdminNotifier) (category : AdminCategory) (w : World) :
    Ensures E (fun h x w' => x = .ok (admin.due out category w) ∧ w'.joblessMails = w.joblessMails ∧
      admin.timesDue out category h = (admin.due out category w).toNat) (admin.shouldSend out category) w := by
  have hasked : admin.timesDue out category [⟨.selectAlerts, w, none⟩] = (admin.due out category w).toNat := by
    rw [AdminNotifier.timesDue, List.countP_singleton]
    cases admin.due out category w <;> rfl
  have hrow : Ensures E (fun h x w₁ => h = [⟨.selectAlerts, w, none⟩] ∧ x = .ok (w.adminAlerts.find? category) ∧ w₁ = w)
      (observe .selectAlerts fun w => w.adminAlerts.find? category) w :=
    ensures_observe ⟨rfl, rfl, rfl⟩ fun _ he => absurd ⟨_, w, rfl, he⟩ hE.no_fault
  refine Ensures.bind hrow (fun h row w₁ hw₁ => ?_) fun h e w₁ hw₁ => ?_
  · obtain ⟨rfl, hfound, rfl⟩ := hw₁
    obtain rfl := Except.ok.inj hfound
    cases hrow : w₁.adminAlerts.find? category with
    | none =>
      refine ensures_ret ⟨?_, rfl, hasked⟩
      rw [AdminNotifier.due, hrow]
      rfl
    | some row =>
      have hclock : Ensures E (fun h x w' => x = .ok (w₁.now out) ∧ w' = w₁.tick ∧ h = [⟨.clock, w₁, none⟩])
          (utcnow out) w₁ :=
        ensures_atomic ⟨rfl, rfl, rfl⟩ fun _ he => absurd ⟨_, w₁, rfl, he⟩ hE.no_fault
      refine Ensures.bind hclock (fun h now w₂ hw₂ => ?_) fun h e w₂ hw₂ => ?_
      · obtain ⟨hnow, rfl, rfl⟩ := hw₂
        obtain rfl := Except.ok.inj hnow
        refine ensures_ret ⟨?_, rfl, hasked⟩
        rw [AdminNotifier.due, hrow]
        rfl
      · cases hw₂.1
  · cases hw₁.2.1

theorem enqueue_jobless (toEmail subject bodyText : Text) (w : World) :
    Ensures E (fun h x w' => (∃ id, x = .ok id) ∧ w'.joblessMails = w.joblessMails + 1 ∧
      ∀ t ∈ h, t.label ≠ .selectAlerts)
      (Outbox.enqueue out toEmail subject bodyText none [] none none) w := by
  have hlabels : Always (fun l _ => l ≠ .selectAlerts) (Outbox.enqueue out toEmail subject bodyText none [] none none) :=
    Always.bind (always_atomic nofun) fun _ => always_atomic nofun
  refine ((enqueue_holds hE out toEmail subject bodyText none [] none none w).and (hlabels.labels w)).mono
    fun h x w' hw' => ?_
  obtain ⟨⟨-, id, hid, m, hsent, hmail⟩, hlabels⟩ := hw'
  have hjob : m.jobId.isNone = true := congrArg (fun m => m.jobId.isNone) hmail
  refine ⟨⟨id, hid⟩, ?_, hlabels⟩
  rw [World.joblessMails, hsent.outbox, List.countP_append, List.countP_singleton, hjob]
  rfl

/-- An alert that is due is sent, and no other. -/
theorem alert_counted (admin : AdminNotifier) (category : AdminCategory) (summary : Text) (detail : List (Text × Text)) :
    Records E (AlertsCounted out admin category) (admin.alert out category summary detail) := by
  intro w
  unfold AdminNotifier.alert
  cases truthy admin.adminEmail with
  | none => exact ensures_ret rfl
  | some adminEmail =>
    refine Ensures.bind (shouldSend_due hE out admin category w) (fun h due w₁ hw₁ => ?_) fun h e w₁ hw₁ => ?_
    · obtain ⟨hdue, hsame, htimes⟩ := hw₁
      obtain rfl := Except.ok.inj hdue
      cases hdue : admin.due out category w with
      | false =>
        refine ensures_ret ?_
        rw [AlertsCounted, List.append_nil, htimes, hdue, hsame]
        rfl
      | true =>
        refine Ensures.bind (enqueue_jobless hE out _ _ _ w₁) (fun h₂ _ w₂ hw₂ => ?_) fun h₂ e w₂ hw₂ => ?_
        · obtain ⟨-, hmail, hlabels⟩ := hw₂
          have hsent : AlertsCounted out admin category w (h ++ h₂) w₂ := by
            rw [AlertsCounted, timesDue_append, timesDue_eq_zero hlabels, htimes, hdue, hmail, hsame]
            rfl
          have hrecord : Records E (AlertsCounted out admin category) (do
              AdminNotifier.recordSent out category
              return true) := by
            refine unalerting_counted (Always.bind ?_ fun _ => trivial)
            exact (utcnow_always covers_unalerting out).bind fun _ => always_change (covers_unalerting.alert _)
          refine (hrecord w₂).mono fun h₃ x w₃ hrest => ?_
          rw [← List.append_assoc]
          exact alertsCounted_trans _ _ _ _ _ hsent hrest
        · obtain ⟨⟨id, hid⟩, -⟩ := hw₂
          cases hid
    · cases hw₁.1

/-! ### The file of a job -/

/-- No move and no existence check of a file has raised. -/
def MovesHold (h : WorldHistory) : Prop := ∀ t ∈ h, t.label = .moveFile ∨ t.label = .checkFile → t.fault = none

instance (h : WorldHistory) : Decidable (MovesHold h) := List.decidableBAll _ h

omit hE in
theorem movesHold_append {h h' : WorldHistory} : MovesHold (h ++ h') ↔ MovesHold h ∧ MovesHold h' :=
  List.forall_mem_append

omit hE in
theorem movesHold_of_clean {h : WorldHistory} (hclean : Clean h) : MovesHold h := fun t ht _ => hclean t ht

omit hE in
theorem moveTo_ensures (path dir : Text) (w : World) :
    Ensures E (fun h x w' =>
      (∃ f, w.files.find? path = some f ∧ x = .ok (joinPath dir (pathName path)) ∧ MovesHold h ∧
        w' = { w with files := (w.files.erase path).upsert ⟨joinPath dir (pathName path), f.content⟩ }) ∨
      ((∃ e, x = .error e) ∧ w' = w ∧ ¬ (MovesHold h ∧ (w.files.find? path).isSome = true)))
      (moveTo path dir) w := by
  refine ensures_atomic ?_ fun e _ => .inr ⟨⟨e, rfl⟩, rfl, fun hmoved => ?_⟩
  · simp only
    cases hfind : w.files.find? path with
    | some f => exact .inl ⟨f, rfl, rfl, movesHold_of_clean (clean_step _ _), rfl⟩
    | none => exact .inr ⟨⟨_, rfl⟩, rfl, fun h => by cases h.2⟩
  · have hfault := hmoved.1 _ (List.mem_singleton_self _) (.inl rfl)
    cases hfault

namespace SubmitTranscript

theorem moved_holds (jobId path dir : Text) (w : World) :
    Ensures E (fun h x w' =>
      (∃ f, w.files.find? path = some f ∧ x = .ok () ∧ MovesHold h ∧
        w' = w.relocate jobId path (joinPath dir (pathName path)) f.content) ∨
      ((∃ e, x = .error e) ∧ w' = w ∧ ¬ (MovesHold h ∧ (w.files.find? path).isSome = true)))
      (do
        let moved ← moveTo path dir
        JobStore.update jobId [.attachmentStoragePath (some moved)]) w := by
  refine Ensures.bind (moveTo_ensures path dir w) (fun h moved w₁ hw₁ => ?_) fun h e w₁ hw₁ => ?_
  · rcases hw₁ with ⟨f, hf, hmoved, hheld, rfl⟩ | ⟨⟨e, h⟩, -⟩
    · obtain rfl := Except.ok.inj hmoved
      refine Ensures.mono (update_holds hE jobId (List.cons_ne_nil _ _) _) fun h' x w' ⟨hclean, _, hx, hw'⟩ => ?_
      exact .inl ⟨f, hf, hx, movesHold_append.2 ⟨hheld, movesHold_of_clean hclean⟩, hw'⟩
    · cases h
  · rcases hw₁ with ⟨f, -, h, -⟩ | ⟨-, hw₁, hfail⟩
    · cases h
    · exact .inr ⟨⟨e, rfl⟩, hw₁, hfail⟩

/-- The row that `execute` goes on with: the job itself if it has no file, and else the row with the new path, or a move
has failed. -/
theorem refreshed_holds (worker : JobWorker) (job : Job) {w : World} {row : Job}
    (hrow : w.jobs.find? job.jobId = some row) :
    Ensures E (fun h x w' =>
      (truthy job.attachmentStoragePath = none ∧ x = .ok (some job) ∧ MovesHold h ∧ w' = w) ∨
      ∃ path, truthy job.attachmentStoragePath = some path ∧
        ((∃ f dest, w.files.find? path = some f ∧ dest = joinPath worker.storage.processing (pathName path) ∧
            x = .ok (some { row with attachmentStoragePath := some dest }) ∧ MovesHold h ∧
            w' = w.relocate job.jobId path dest f.content) ∨
          (∃ e, x = .error e) ∧ w' = w ∧ ¬ (MovesHold h ∧ (w.files.find? path).isSome = true)))
      (refreshed worker job) w := by
  unfold refreshed
  cases truthy job.attachmentStoragePath with
  | none => exact ensures_ret (.inl ⟨rfl, rfl, movesHold_of_clean clean_nil, rfl⟩)
  | some path =>
    show Ensures E _ (Prog.bind (moveTo path worker.storage.processing) fun moved =>
      Prog.bind (JobStore.update job.jobId [.attachmentStoragePath (some moved)]) fun _ => JobStore.get job.jobId) w
    rw [← Prog.bind_assoc]
    refine Ensures.bind (moved_holds hE job.jobId path worker.storage.processing w) (fun h _ w₁ hw₁ => ?_)
      fun h e w₁ hw₁ => ?_
    · rcases hw₁ with ⟨f, hf, -, hheld, rfl⟩ | ⟨⟨e, h⟩, -⟩
      · refine Ensures.mono (get_holds hE job.jobId _) fun h' x w' ⟨hclean, found, hx, hfound, hw'⟩ => ?_
        rw [World.relocate_row, hrow, Option.map_some] at hfound
        exact .inr ⟨path, rfl, .inl ⟨f, _, hf, rfl, by rw [hx, hfound],
          movesHold_append.2 ⟨hheld, movesHold_of_clean hclean⟩, hw'⟩⟩
      · cases h
    · rcases hw₁ with ⟨f, -, h, -⟩ | ⟨-, hw₁, hfail⟩
      · cases h
      · exact .inr ⟨path, rfl, .inr ⟨⟨e, rfl⟩, hw₁, hfail⟩⟩

end SubmitTranscript

/-! ### What both operations share -/

/-- The job has ended in `new`, with one mail to its sender, and alerts to the admin besides. -/
structure EndedWith (admin : AdminNotifier) (job : Job) (new : JobState) (mail : OutboxMessage) (w w' : World) :
    Prop where
  status : statusOf w' job.jobId = some new
  mails : ∃ m alerts, w'.outbox.rows = w.outbox.rows ++ m :: alerts ∧ m.unnumbered = mail ∧
    ∀ a ∈ alerts, AlertMail admin a

theorem askForGroup_holds (admin : AdminNotifier) (job : Job) (groups : List GroupSummary) (subject : Text) {w : World}
    (hallowed : Allowed w job.jobId .needsClarification) :
    Returns E (fun _ w' => EndedWith admin job .needsClarification
        (job.request.mailOf (renderClarification (groupClarificationQuestion groups subject) (some job.jobId))
          (some job.jobId) []) w w')
      (askForGroup out job groups subject) w := by
  refine Returns.bind (setStatus_holds hE out hallowed []) fun _ w₁ hw₁ => ?_
  have hstatus := hw₁.status hallowed
  have houtbox : w₁.outbox = w.outbox := by
    obtain ⟨stamps, n, -, rfl⟩ := hw₁
    rfl
  refine Returns.bind (put_holds hE out _ _ _ _ w₁) fun _ w₂ hw₂ => ?_
  obtain ⟨createdAt, rfl⟩ := hw₂
  refine (mail_holds hE out _ _ _ _ _).mono fun _ w₃ ⟨m, hsent, hmail⟩ => ⟨?_, m, [], ?_, hmail, nofun⟩
  · rw [statusOf, hsent.jobs]
    exact hstatus
  · rw [hsent.outbox, ← houtbox]
    rfl

theorem reportFailure_holds (admin : AdminNotifier) (job : Job) (userReason : Text) (category : AdminCategory)
    (summary reason : Text) (w : World) :
    Returns E (fun _ w' => ∃ m alerts, Sends (m :: alerts) w w' ∧
        m.unnumbered = job.request.mailOf (renderFailure userReason (some job.jobId)) (some job.jobId) [] ∧
        ∀ a ∈ alerts, AlertMail admin a)
      (reportFailure out admin job userReason category summary reason) w := by
  refine Returns.bind (mail_holds hE out _ _ _ _ w) fun _ w₁ ⟨m, hsent, hmail⟩ => ?_
  refine Returns.bind (alert_holds hE out admin _ _ _ w₁) fun _ w₂ ⟨alerts, halerts, hadmin⟩ => ?_
  exact returns_ret ⟨m, alerts, hsent.trans halerts, hmail, hadmin⟩

theorem reportFailure_counted (admin : AdminNotifier) (job : Job) (userReason : Text) (category : AdminCategory)
    (summary reason : Text) :
    Records E (AlertsCounted out admin category) (reportFailure out admin job userReason category summary reason) := by
  refine Records.bind alertsCounted_trans (unalerting_counted ?_) fun _ => ?_
  · exact request_mails covers_unalerting out _ _ _ _ fun m hm => hm.job ▸ nofun
  · exact Records.bind alertsCounted_trans (alert_counted hE out admin _ _ _) fun _ => unalerting_counted trivial

end

end GroupAssessmentAgent
