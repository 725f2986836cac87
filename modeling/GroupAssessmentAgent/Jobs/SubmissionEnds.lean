import GroupAssessmentAgent.Jobs.Outcomes

/-!
# How a submission ends

While the database holds, whatever the backend does, `execute` of `submit_transcript` ends a queued job with one mail
to its sender, exactly if no move and no existence check of its file fails, and the failure that it reports to the
sender is not reported to the sender as the admin once more (`settled_iff`). Only the failure of a call or of a read is
handled: the first move stands before the `try` statement, the last one follows the COMPLETED that nothing may follow,
and those of the handler are not guarded.
-/

namespace GroupAssessmentAgent
open Prog

/-- The file of the job is where its path says, if it has one. -/
def FileThere (job : Job) (w : World) : Prop :=
  ∀ path, truthy job.attachmentStoragePath = some path → (w.files.find? path).isSome = true

/-- The job has come to its end or waits for an answer, and of the mails that are new exactly one is to its sender. -/
structure SettledOnce (job : Job) (w w' : World) : Prop where
  status : ∃ s, statusOf w' job.jobId = some s ∧ (s = .completed ∨ s = .failed ∨ s = .needsClarification)
  mail : ∃ new, w'.outbox.rows = w.outbox.rows ++ new ∧ new.countP (fun m => m.toEmail = job.senderEmail) = 1

/-- The job has come to its end or waits for an answer, with one mail about it to its sender, and the other new mails
are alerts to the admin. -/
structure JobSettled (admin : AdminNotifier) (job : Job) (w w' : World) : Prop where
  status : ∃ s, statusOf w' job.jobId = some s ∧ (s = .completed ∨ s = .failed ∨ s = .needsClarification)
  mail : ∃ m alerts, w'.outbox.rows = w.outbox.rows ++ m :: alerts ∧ m.toEmail = job.senderEmail ∧
    m.jobId = some job.jobId ∧ ∀ a ∈ alerts, AlertMail admin a

theorem JobSettled.congr {admin : AdminNotifier} {job job' : Job} {w₁ w w' : World} (h : JobSettled admin job w₁ w')
    (houtbox : w₁.outbox = w.outbox) (hid : job.jobId = job'.jobId) (hsender : job.senderEmail = job'.senderEmail) :
    JobSettled admin job' w w' := by
  obtain ⟨hstatus, hmail⟩ := h
  rw [hid] at hstatus hmail
  rw [houtbox, hsender] at hmail
  exact ⟨hstatus, hmail⟩

/-- The alerts are mails to the sender as well if the admin is the sender. -/
theorem JobSettled.once_iff {admin : AdminNotifier} {job : Job} {w w' : World} (h : JobSettled admin job w w') {n : Nat}
    (halerts : w'.joblessMails = w.joblessMails + n) :
    SettledOnce job w w' ↔ truthy admin.adminEmail ≠ some job.senderEmail ∨ n = 0 := by
  obtain ⟨hstatus, m, alerts, hrows, hto, hjob, hadmin⟩ := h
  have hlength : alerts.length = n := by
    have hnone : alerts.countP (fun a => a.jobId.isNone) = alerts.length :=
      List.countP_eq_length.2 fun a ha => by rw [(hadmin a ha).2]; rfl
    rw [World.joblessMails, hrows, List.countP_append, List.countP_cons, hnone, hjob] at halerts
    exact Nat.add_left_cancel halerts
  have hcount : SettledOnce job w w' ↔ alerts.countP (fun a => a.toEmail = job.senderEmail) = 0 := by
    have hone : (m :: alerts).countP (fun a => a.toEmail = job.senderEmail) =
        alerts.countP (fun a => a.toEmail = job.senderEmail) + 1 := List.countP_cons_of_pos (decide_eq_true hto)
    refine ⟨fun h => ?_, fun h => ⟨hstatus, m :: alerts, hrows, by rw [hone, h]⟩⟩
    obtain ⟨new, hnew, hmail⟩ := h.mail
    rw [← List.append_cancel_left (hrows.symm.trans hnew), hone] at hmail
    exact Nat.succ.inj hmail
  rw [hcount, ← hlength]
  by_cases hself : truthy admin.adminEmail = some job.senderEmail
  · have hall : alerts.countP (fun a => a.toEmail = job.senderEmail) = alerts.length :=
      List.countP_eq_length.2 fun a ha => decide_eq_true (Option.some.inj ((hadmin a ha).1.trans hself))
    rw [hall, or_iff_right (not_not_intro hself)]
  · refine iff_of_true (List.countP_eq_zero.2 fun a ha hsender => hself ?_) (.inl hself)
    rw [← (hadmin a ha).1, of_decide_eq_true hsender]

theorem movesHold_of_labels {h : WorldHistory} (hlabels : ∀ t ∈ h, t.label ≠ .moveFile ∧ t.label ≠ .checkFile) :
    MovesHold h := by
  intro t ht hfile
  obtain ⟨hmove, hcheck⟩ := hlabels t ht
  rcases hfile with hl | hl
  · exact absurd hl hmove
  · exact absurd hl hcheck

theorem EndedWith.settled {admin : AdminNotifier} {job : Job} {new : JobState} {mail : Rendered} {paths : List Text}
    {w w' : World} (h : EndedWith admin job new (job.request.mailOf mail (some job.jobId) paths) w w')
    (hnew : new = .completed ∨ new = .failed ∨ new = .needsClarification) : JobSettled admin job w w' := by
  obtain ⟨hstatus, m, alerts, hrows, hmail, halerts⟩ := h
  refine ⟨⟨new, hstatus, hnew⟩, m, alerts, hrows, ?_, ?_, halerts⟩
  · exact congrArg OutboxMessage.toEmail hmail
  · exact congrArg OutboxMessage.jobId hmail

/-- A step beside the jobs, the outbox and the files: no move and no existence check. -/
def Aside (l : Stmt) (f : World → World) : Prop :=
  (l ≠ .moveFile ∧ l ≠ .checkFile) ∧ ∀ w, (f w).jobs = w.jobs ∧ (f w).outbox = w.outbox ∧ (f w).files = w.files

theorem coversCalls_aside : CoversCalls Aside := fun _ => ⟨⟨nofun, nofun⟩, fun _ => ⟨rfl, rfl, rfl⟩⟩

/-- The jobs, the outbox and the files are as they were. -/
def Untouched (w w' : World) : Prop := w'.jobs = w.jobs ∧ w'.outbox = w.outbox ∧ w'.files = w.files

namespace Untouched
variable {w w' : World}

theorem status (h : Untouched w w') (jobId : Text) : statusOf w' jobId = statusOf w jobId := by
  rw [statusOf, h.1, statusOf]

theorem fileThere (h : Untouched w w') {job : Job} (hfile : FileThere job w) : FileThere job w' := by
  rw [FileThere, h.2.2]
  exact hfile

end Untouched

section
variable {E : Env Stmt World Exc}

theorem aside_ensures {α : Type} {p : M α} (hp : Always Aside p) (w : World) :
    Ensures E (fun h _ w' => Untouched w w' ∧ MovesHold h) p w := by
  have hsteps : Ensures E (fun h _ w' => Untouched w w' ∧ ∀ t ∈ h, t.label ≠ .moveFile ∧ t.label ≠ .checkFile) p w :=
    Always.ensures (L := fun l => l ≠ Stmt.moveFile ∧ l ≠ .checkFile) (G := Untouched) (fun _ => ⟨rfl, rfl, rfl⟩)
      (fun _ _ _ h h' => ⟨h'.1.trans h.1, h'.2.1.trans h.2.1, h'.2.2.trans h.2.2⟩) (fun _ _ hf => hf) hp w
  exact hsteps.mono fun _ _ _ hw => ⟨hw.1, movesHold_of_labels hw.2⟩

namespace SubmitTranscript
variable (hE : Holding E) (out : Outside)
include hE

theorem refreshed_ends (worker : JobWorker) (job : Job) {w : World} {row : Job}
    (hrow : w.jobs.find? job.jobId = some row) (hsender : row.senderEmail = job.senderEmail) :
    Ensures E (fun h x w' => statusOf w' job.jobId = statusOf w job.jobId ∧ w'.outbox = w.outbox ∧
      ((∃ current, x = .ok (some current) ∧ current.jobId = job.jobId ∧ current.senderEmail = job.senderEmail ∧
          FileThere current w' ∧ MovesHold h ∧ FileThere job w) ∨
        ((∃ e, x = .error e) ∧ ¬ (MovesHold h ∧ FileThere job w))))
      (refreshed worker job) w := by
  refine (refreshed_holds hE worker job hrow).mono fun h x w' hw' => ?_
  rcases hw' with ⟨hpath, hx, hheld, rfl⟩ | ⟨path, hpath, ⟨f, dest, hf, -, hx, hheld, rfl⟩ | ⟨he, rfl, hfail⟩⟩
  · have hfile : FileThere job w' := fun path h => by
      rw [hpath] at h
      cases h
    exact ⟨rfl, rfl, .inl ⟨job, hx, rfl, rfl, hfile, hheld, hfile⟩⟩
  · have hid : row.jobId = job.jobId := Table.find?_key hrow
    refine ⟨World.relocate_status .., rfl, .inl ⟨_, hx, hid, hsender, fun path' hpath' => ?_, hheld,
      fun path' hpath' => ?_⟩⟩
    · rw [← Option.some.inj (truthy_eq_some.1 hpath').1, World.relocate_file]
      rfl
    · rw [← Option.some.inj (hpath.symm.trans hpath'), hf]
      rfl
  · exact ⟨rfl, rfl, .inr ⟨he, fun h => hfail ⟨h.1, h.2 path hpath⟩⟩⟩

/-- How a move of the job's file ends. -/
def MoveEnds (job : Job) (there : Prop) (w : World) (h : WorldHistory) (x : Except Exc Unit) (w' : World) : Prop :=
  statusOf w' job.jobId = statusOf w job.jobId ∧ w'.outbox = w.outbox ∧
    ((x = .ok () ∧ MovesHold h ∧ there) ∨ (∃ e, x = .error e) ∧ ¬ (MovesHold h ∧ there))

theorem moved_ends (job : Job) (path dir : Text) (w : World) :
    Ensures E (MoveEnds job ((w.files.find? path).isSome = true) w) (do
      let moved ← moveTo path dir
      JobStore.update job.jobId [.attachmentStoragePath (some moved)]) w := by
  refine (moved_holds hE job.jobId path dir w).mono fun h x w' hw' => ?_
  rcases hw' with ⟨f, hf, hx, hheld, rfl⟩ | ⟨he, rfl, hfail⟩
  · exact ⟨World.relocate_status .., rfl, .inl ⟨hx, hheld, Option.isSome_of_eq_some hf⟩⟩
  · exact ⟨rfl, rfl, .inr ⟨he, hfail⟩⟩

theorem moveStored_ends (job : Job) (dir : Text) {w : World} (hfile : FileThere job w) :
    Ensures E (MoveEnds job True w) (moveStored job dir) w := by
  unfold moveStored
  cases hpath : truthy job.attachmentStoragePath with
  | none => exact ensures_ret ⟨rfl, rfl, .inl ⟨rfl, movesHold_of_clean clean_nil, trivial⟩⟩
  | some path =>
    refine (moved_ends hE job path dir w).mono fun h x w' hends => ⟨hends.1, hends.2.1, ?_⟩
    exact hends.2.2.imp (fun h => ⟨h.1, h.2.1, trivial⟩) fun h => ⟨h.1, fun h' => h.2 ⟨h'.1, hfile path hpath⟩⟩

theorem moveFailedFile_ends (storage : StorageSettings) (job : Job) (w : World) :
    Ensures E (MoveEnds job True w) (moveFailedFile storage job) w := by
  unfold moveFailedFile
  cases truthy job.attachmentStoragePath with
  | none => exact ensures_ret ⟨rfl, rfl, .inl ⟨rfl, movesHold_of_clean clean_nil, trivial⟩⟩
  | some path =>
    have hlook : Ensures E (fun h x w' => w' = w ∧ ((x = .ok (w.files.find? path).isSome ∧ Clean h) ∨
        (∃ e, x = .error e) ∧ ¬ MovesHold h)) (fileExists path) w := by
      refine ensures_observe ⟨rfl, .inl ⟨rfl, clean_step _ _⟩⟩ fun e _ => ⟨rfl, .inr ⟨⟨e, rfl⟩, fun hheld => ?_⟩⟩
      have hfault := hheld _ (List.mem_singleton_self _) (.inr rfl)
      cases hfault
    refine Ensures.bind hlook (fun h found w₁ hfound => ?_) fun h e w₁ hfound => ?_
    · obtain ⟨rfl, ⟨hfound, hclean⟩ | ⟨⟨e, h⟩, -⟩⟩ := hfound
      · obtain rfl := Except.ok.inj hfound
        split_ifs with hthere
        · refine (moved_ends hE job path storage.failed w₁).mono fun h' x w' hends => ⟨hends.1, hends.2.1, ?_⟩
          rcases hends.2.2 with ⟨hx, hheld, -⟩ | ⟨he, hfail⟩
          · exact .inl ⟨hx, movesHold_append.2 ⟨movesHold_of_clean hclean, hheld⟩, trivial⟩
          · exact .inr ⟨he, fun hheld => hfail ⟨(movesHold_append.1 hheld.1).2, hthere⟩⟩
        · exact ensures_ret ⟨rfl, rfl, .inl ⟨rfl, movesHold_append.2 ⟨movesHold_of_clean hclean,
            movesHold_of_clean clean_nil⟩, trivial⟩⟩
      · cases h
    · obtain ⟨rfl, ⟨h, -⟩ | ⟨-, hfail⟩⟩ := hfound
      · cases h
      · exact ⟨rfl, rfl, .inr ⟨⟨e, rfl⟩, fun hheld => hfail hheld.1⟩⟩

/-- How the `try` block ends: a job that it does not settle is PROCESSING, or a move has failed and it is COMPLETED. -/
def AttemptEnds (admin : AdminNotifier) (job : Job) (w : World) (h : WorldHistory) (x : Except Exc Unit) (w' : World) :
    Prop :=
  (x = .ok () ∧ JobSettled admin job w w' ∧ MovesHold h) ∨ (∃ e, x = .error e) ∧ w'.outbox = w.outbox ∧
    ((statusOf w' job.jobId = some .processing ∧ MovesHold h) ∨
      statusOf w' job.jobId = some .completed ∧ ¬ MovesHold h)

omit hE in
theorem AttemptEnds.after {admin : AdminNotifier} {job : Job} {w w₁ w' : World} {h₁ h : WorldHistory}
    {x : Except Exc Unit} (hends : AttemptEnds admin job w₁ h x w') (hw : Untouched w w₁) (hheld : MovesHold h₁) :
    AttemptEnds admin job w (h₁ ++ h) x w' := by
  have hiff : MovesHold (h₁ ++ h) ↔ MovesHold h := by rw [movesHold_append, and_iff_right hheld]
  rw [AttemptEnds, hiff, ← hw.2.1]
  exact hends.imp_left fun hended => ⟨hended.1, hended.2.1.congr hw.2.1 rfl rfl, hended.2.2⟩

theorem complete_ends (admin : AdminNotifier) (storage : StorageSettings) (job : Job) (group : GroupSummary)
    (s : Submitted) {w : World} (hallowed : Allowed w job.jobId .completed) (hfile : FileThere job w) :
    Ensures E (AttemptEnds admin job w) (complete out storage job group s) w := by
  refine Returns.then (update_holds hE job.jobId (List.cons_ne_nil _ _) w) fun h₁ _ w₁ hclean₁ hw₁ => ?_
  have hallowed₁ : Allowed w₁ job.jobId .completed := by
    rw [Allowed, hw₁, statusOf_writeJob]
    exact hallowed
  refine Returns.then (setStatus_holds hE out hallowed₁ []) fun h₂ _ w₂ hclean₂ hw₂ => ?_
  have hstatus₂ := hw₂.status hallowed₁
  obtain ⟨stamps, n, -, rfl⟩ := hw₂
  subst hw₁
  have hheld₂ : MovesHold (h₁ ++ h₂) := movesHold_of_clean (hclean₁.append hclean₂)
  refine Ensures.bind (moveStored_ends hE job storage.completed hfile) (fun h₃ _ w₃ hw₃ => ?_) fun h₃ e w₃ hw₃ => ?_
  · obtain ⟨hstatus₃, houtbox₃, ⟨-, hheld₃, -⟩ | ⟨⟨e, h⟩, -⟩⟩ := hw₃
    · refine Ensures.mono (mail_holds hE out _ _ _ _ w₃)
        fun h₄ x w₄ ⟨hclean₄, _, hx, m, hsent, hmail⟩ => .inl ⟨hx, ?_, ?_⟩
      · refine EndedWith.settled ⟨?_, m, [], ?_, hmail, nofun⟩ (.inl rfl)
        · rw [statusOf, hsent.jobs, ← statusOf, hstatus₃, hstatus₂]
        · rw [hsent.outbox, houtbox₃]
          rfl
      · rw [← List.append_assoc, ← List.append_assoc]
        exact movesHold_append.2 ⟨movesHold_append.2 ⟨hheld₂, hheld₃⟩, movesHold_of_clean hclean₄⟩
    · cases h
  · obtain ⟨hstatus₃, houtbox₃, ⟨h, -⟩ | ⟨-, hfail⟩⟩ := hw₃
    · cases h
    · refine .inr ⟨⟨e, rfl⟩, houtbox₃, .inr ⟨hstatus₃.trans hstatus₂, fun hheld => hfail ⟨?_, trivial⟩⟩⟩
      exact (movesHold_append.1 (movesHold_append.1 hheld).2).2

variable [PyChars]

theorem attempt_ends (worker : JobWorker) (job : Job) {w : World}
    (hstatus : statusOf w job.jobId = some .processing) (hfile : FileThere job w) :
    Ensures E (AttemptEnds worker.admin job w) (attempt out worker job) w := by
  refine Ensures.bind (aside_ensures (groupsOf_always coversCalls_aside worker.diarisation job) w)
    (fun h₁ found w₁ hw₁ => ?_) fun h₁ e w₁ hw₁ => .inr ⟨⟨e, rfl⟩, hw₁.1.2.1, .inl ⟨?_, hw₁.2⟩⟩
  · obtain ⟨huntouched, hheld⟩ := hw₁
    have hstatus₁ : statusOf w₁ job.jobId = some .processing := (huntouched.status job.jobId).trans hstatus
    suffices hrest : Ensures E (AttemptEnds worker.admin job w₁) _ w₁ from
      hrest.mono fun h x w' hends => hends.after huntouched hheld
    have hask : Ensures E (AttemptEnds worker.admin job w₁) (askForGroup out job found.2 "this transcript") w₁ := by
      refine Ensures.mono (askForGroup_holds hE out worker.admin job found.2 _ ⟨_, hstatus₁, by decide⟩)
        fun h x w' ⟨hclean, _, hx, hended⟩ => .inl ⟨hx, ?_, movesHold_of_clean hclean⟩
      exact hended.settled (.inr (.inr rfl))
    cases matchGroup job.groupHint found.2 with
    | noMatch => exact hask
    | ambiguous candidates => exact hask
    | matched group =>
      have hsubmit := submit_always coversCalls_aside out ⟨⟨nofun, nofun⟩, fun _ => ⟨rfl, rfl, rfl⟩⟩ worker.diarisation
        job found.1 group
      refine Ensures.bind (aside_ensures hsubmit w₁) (fun h₂ s w₂ hw₂ => ?_) fun h₂ e w₂ hw₂ =>
        .inr ⟨⟨e, rfl⟩, hw₂.1.2.1, .inl ⟨?_, hw₂.2⟩⟩
      · have hallowed : Allowed w₂ job.jobId .completed := ⟨_, (hw₂.1.status _).trans hstatus₁, by decide⟩
        have hfile₂ : FileThere job w₂ := hw₂.1.fileThere (huntouched.fileThere hfile)
        exact (complete_ends hE out worker.admin worker.storage job group s hallowed hfile₂).mono fun h x w' hends =>
          hends.after hw₂.1 hw₂.2
      · rw [hw₂.1.status, hstatus₁]
  · rw [hw₁.1.status, hstatus]

omit [PyChars] in
theorem handleExecuteFailure_ends (worker : JobWorker) (job : Job) (reason : Text) {w : World}
    (hstatus : statusOf w job.jobId = some .processing) :
    Ensures E (fun h _ w' => (JobSettled worker.admin job w w' ∧ MovesHold h) ∨ w'.outbox = w.outbox ∧ ¬ MovesHold h)
      (handleExecuteFailure out worker job reason) w := by
  have hallowed : Allowed w job.jobId .failed := ⟨_, hstatus, by decide⟩
  refine Returns.then (setStatus_holds hE out hallowed _) fun h₁ _ w₁ hclean₁ hw₁ => ?_
  have hstatus₁ := hw₁.status hallowed
  obtain ⟨stamps, n, -, rfl⟩ := hw₁
  have hheld₁ := movesHold_of_clean hclean₁
  refine Ensures.bind (moveFailedFile_ends hE worker.storage job _) (fun h₂ _ w₂ hw₂ => ?_) fun h₂ e w₂ hw₂ => ?_
  · obtain ⟨hstatus₂, houtbox₂, ⟨-, hheld₂, -⟩ | ⟨⟨e, h⟩, -⟩⟩ := hw₂
    · refine Ensures.mono (reportFailure_holds hE out worker.admin job _ _ _ _ w₂)
        fun h₃ x w₃ ⟨hclean₃, _, _, m, alerts, hsent, hmail, halerts⟩ => .inl ⟨?_, ?_⟩
      · refine EndedWith.settled ⟨?_, m, alerts, ?_, hmail, halerts⟩ (.inr (.inl rfl))
        · rw [statusOf, hsent.jobs, ← statusOf, hstatus₂, hstatus₁]
        · rw [hsent.outbox, houtbox₂]
          rfl
      · exact movesHold_append.2 ⟨hheld₁, movesHold_append.2 ⟨hheld₂, movesHold_of_clean hclean₃⟩⟩
    · cases h
  · obtain ⟨-, houtbox₂, ⟨h, -⟩ | ⟨-, hfail⟩⟩ := hw₂
    · cases h
    · exact .inr ⟨houtbox₂, fun hheld => hfail ⟨(movesHold_append.1 hheld).2, trivial⟩⟩

theorem guarded_ends (worker : JobWorker) (job : Job) {w : World}
    (hstatus : statusOf w job.jobId = some .processing) (hfile : FileThere job w) :
    Ensures E (fun h _ w' => (JobSettled worker.admin job w w' ∧ MovesHold h) ∨ w'.outbox = w.outbox ∧ ¬ MovesHold h)
      (Prog.tryCatch (attempt out worker job) fun e => handleExecuteFailure out worker job (failureReason e)) w := by
  refine Ensures.tryCatch (attempt_ends hE out worker job hstatus hfile) (fun h a w' hends => ?_)
    fun h₁ e w₁ hends => ?_
  · rcases hends with ⟨-, hsettled⟩ | ⟨⟨e, h⟩, -⟩
    · exact .inl hsettled
    · cases h
  · rcases hends with ⟨h, -⟩ | ⟨-, houtbox, ⟨hstatus₁, hheld⟩ | ⟨hstatus₁, hfail⟩⟩
    · cases h
    · refine (handleExecuteFailure_ends hE out worker job (failureReason e) hstatus₁).mono fun h₂ x w₂ hw₂ => ?_
      rw [movesHold_append, and_iff_right hheld, ← houtbox]
      exact hw₂.imp_left fun hended => ⟨hended.1.congr houtbox rfl rfl, hended.2⟩
    · -- a COMPLETED job cannot fail any more
      have hrefused : ¬ Allowed w₁ job.jobId .failed := by
        rintro ⟨current, hcurrent, hallowed⟩
        obtain rfl := Option.some.inj (hstatus₁.symm.trans hcurrent)
        exact absurd hallowed (by decide)
      refine Ensures.bind (setStatus_refuses out hrefused _) (fun _ _ w₂ hw₂ => ?_) fun h₂ e w₂ hw₂ => ?_
      · obtain ⟨⟨e, h⟩, -⟩ := hw₂
        cases h
      · obtain ⟨-, n, rfl⟩ := hw₂
        exact .inr ⟨houtbox, fun hheld => hfail (movesHold_append.1 hheld).1⟩

theorem execute_ends (worker : JobWorker) (job : Job) {w : World} (hrow : w.jobs.find? job.jobId = some job)
    (hqueued : job.status = .queued) :
    Ensures E (fun h _ w' => (JobSettled worker.admin job w w' ∧ FileThere job w ∧ MovesHold h) ∨
        w'.outbox = w.outbox ∧ ¬ (FileThere job w ∧ MovesHold h))
      (execute out worker job) w := by
  have hallowed : Allowed w job.jobId .processing :=
    ⟨.queued, by rw [statusOf, hrow, Option.map_some, hqueued], by decide⟩
  refine Returns.then (setStatus_holds hE out hallowed []) fun h₁ _ w₁ hclean₁ hw₁ => ?_
  have hstatus₁ := hw₁.status hallowed
  have hrow₁ : ∃ row, w₁.jobs.find? job.jobId = some row ∧ row.senderEmail = job.senderEmail := by
    obtain ⟨stamps, n, -, rfl⟩ := hw₁
    refine ⟨_, ?_, Job.setAll_senderEmail { job with status := .processing } stamps⟩
    rw [World.writeStatus, World.modifyJob, Table.find?_modify, if_pos rfl]
    exact congrArg (Option.map _) hrow
  obtain ⟨row, hrow₁, hsender⟩ := hrow₁
  have hsame : w₁.outbox = w.outbox ∧ (FileThere job w₁ ↔ FileThere job w) := by
    obtain ⟨stamps, n, -, rfl⟩ := hw₁
    exact ⟨rfl, Iff.rfl⟩
  obtain ⟨houtbox₁, hfile₁⟩ := hsame
  refine Ensures.bind (refreshed_ends hE worker job hrow₁ hsender) (fun h₂ found w₂ hw₂ => ?_) fun h₂ e w₂ hw₂ => ?_
  · obtain ⟨hstatus₂, houtbox₂, ⟨current, hx, hid, hsender, hcurrent, hheld₂, hfile₂⟩ | ⟨⟨e, h⟩, -⟩⟩ := hw₂
    · obtain rfl := Except.ok.inj hx
      have hprocessing : statusOf w₂ current.jobId = some .processing := by rw [hid, hstatus₂, hstatus₁]
      refine (guarded_ends hE out worker current hprocessing hcurrent).mono fun h₃ x w₃ hends => ?_
      rw [movesHold_append, movesHold_append, and_iff_right (movesHold_of_clean hclean₁), and_iff_right hheld₂,
        and_iff_right (hfile₁.1 hfile₂), ← houtbox₁, ← houtbox₂]
      exact hends.imp_left fun hended => ⟨hended.1.congr (houtbox₂.trans houtbox₁) hid hsender, hended.2⟩
    · cases h
  · obtain ⟨-, houtbox₂, ⟨current, h, -⟩ | ⟨-, hfail⟩⟩ := hw₂
    · cases h
    · refine .inr ⟨houtbox₂.trans houtbox₁, fun h => hfail ⟨(movesHold_append.1 h.2).2, hfile₁.2 h.1⟩⟩

theorem execute_counted (worker : JobWorker) (job : Job) :
    Records E (AlertsCounted out worker.admin .backendSubmissionFailure) (execute out worker job) := by
  have hmail : ∀ (job : Job) (m : OutboxMessage), MailTo job.senderEmail (some job.jobId) [] m → m.jobId ≠ none :=
    fun job m hm => hm.job ▸ nofun
  refine Records.bind alertsCounted_trans (unalerting_counted (setStatus_always covers_unalerting out trivial _ _))
    fun _ => Records.bind alertsCounted_trans
      (unalerting_counted (refreshed_always covers_unalerting job trivial worker)) fun current => ?_
  cases current with
  | none => exact unalerting_counted trivial
  | some current =>
    refine Records.tryCatch alertsCounted_trans (unalerting_counted ?_) fun e => ?_
    · exact attempt_mails covers_unalerting out current trivial coversCalls_unalerting worker (hmail current)
    · refine Records.bind alertsCounted_trans (unalerting_counted ?_) fun _ => ?_
      · exact setStatus_always covers_unalerting out trivial _ _
      · exact Records.bind alertsCounted_trans
          (unalerting_counted (moveFailedFile_always covers_unalerting current trivial _)) fun _ =>
            reportFailure_counted hE out worker.admin current _ _ _ _

omit hE in
/-- **A queued job ends with one mail to its sender exactly if its file is there, no move and no existence check of it
fails, and the sender is not the admin to whom an alert is due**, whatever the backend does and whatever else fails
outside the database. -/
theorem settled_iff {worker : JobWorker} {job : Job} {w w' : World} {h : WorldHistory} {x : Except Exc Unit}
    (hrow : w.jobs.find? job.jobId = some job) (hqueued : job.status = .queued)
    (hexec : Exec Surroundings (execute out worker job) w h x w') :
    SettledOnce job w w' ↔ FileThere job w ∧ MovesHold h ∧ (truthy worker.admin.adminEmail ≠ some job.senderEmail ∨
      ∀ t ∈ h, t.label = .selectAlerts → worker.admin.due out .backendSubmissionFailure t.state = false) := by
  have hcounted := execute_counted holding_surroundings out worker job w h x w' hexec
  rcases execute_ends holding_surroundings out worker job hrow hqueued h x w' hexec with
    ⟨hsettled, hfile, hheld⟩ | ⟨houtbox, hfail⟩
  · rw [hsettled.once_iff hcounted, timesDue_eq_zero_iff, and_iff_right hfile, and_iff_right hheld]
  · refine iff_of_false (fun hsettled => ?_) fun h => hfail ⟨h.1, h.2.1⟩
    obtain ⟨new, hnew, hmail⟩ := hsettled.mail
    rw [houtbox, List.self_eq_append_right] at hnew
    subst hnew
    cases hmail

end SubmitTranscript

end

/-! ### A file that cannot be moved -/

namespace SubmitTranscript
attribute [local instance] asciiChars

theorem transcriptWorld_row : transcriptWorld.jobs.find? transcriptJob.jobId = some transcriptJob := rfl

/-- The worker executes it, in a group that it finds. -/
def executeTranscript : M Unit := execute .plain (smallWorker [⟨7, "Team A"⟩]) transcriptJob

/-- Nothing fails, and the admin is somebody else. -/
theorem settled_calm : ∃ h x w', Exec Surroundings executeTranscript transcriptWorld h x w' ∧
    SettledOnce transcriptJob transcriptWorld w' := by
  obtain ⟨h, hexec, hclean⟩ := exec_run (E := Surroundings) (fun _ _ => trivial) executeTranscript transcriptWorld
  have hfile : FileThere transcriptJob transcriptWorld := by
    intro path hpath
    rw [← Option.some.inj (truthy_eq_some.1 hpath).1]
    rfl
  have hadmin : truthy (smallWorker [⟨7, "Team A"⟩]).admin.adminEmail ≠ some transcriptJob.senderEmail := by decide
  exact ⟨h, _, _, hexec,
    (settled_iff .plain transcriptWorld_row rfl hexec).2 ⟨hfile, movesHold_of_clean hclean, .inl hadmin⟩⟩

def noSpace : Exc := ⟨.osError, "[Errno 28] No space left on device"⟩

/-- The file of the completed job cannot be moved: the failure is not handled either, and no mail is sent. -/
theorem completed_unmailed : ∃ h x w', Exec Surroundings executeTranscript transcriptWorld h x w' ∧
    statusOf w' transcriptJob.jobId = some .completed ∧ w'.outbox.rows = [] ∧
    ¬ SettledOnce transcriptJob transcriptWorld w' := by
  let script : List (Option Exc) := List.replicate 16 none ++ [some noSpace]
  have hfaults : ∀ t ∈ (play script executeTranscript transcriptWorld).1,
      t.fault.isSome = true → t.label.ofStore = false := by
    decide +kernel
  have hexec := exec_play (E := Surroundings) (fun _ _ => trivial) script executeTranscript transcriptWorld
    fun t ht e he => hfaults t ht (Option.isSome_of_eq_some he)
  have hrows : (play script executeTranscript transcriptWorld).2.2.outbox.rows = [] := by decide +kernel
  refine ⟨_, _, _, hexec, by decide +kernel, hrows, fun hsettled => ?_⟩
  obtain ⟨new, hnew, hmail⟩ := hsettled.mail
  rw [(List.append_eq_nil_iff.1 (hnew.symm.trans hrows)).2] at hmail
  cases hmail

end SubmitTranscript

end GroupAssessmentAgent
