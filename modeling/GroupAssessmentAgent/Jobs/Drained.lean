import GroupAssessmentAgent.Jobs.FilesKept
import GroupAssessmentAgent.Jobs.SubmissionEnds
import GroupAssessmentAgent.Jobs.WorkerPlaces

/-!
# The queue drains

Whatever the mail thread and the worker have done before, a pass of the worker leaves no job in the queue: where the
stores hold and no file operation on a stored transcript raises, each job that was QUEUED is COMPLETED, FAILED or waits
for an answer, and one mail about it has gone to its sender (`queue_drained`). The backends and the model may do what
they like.

A pass needs more than a queued row: the file of a transcript must be where its row says, and the worker must have a
handler for the operation. Both hold between the calls of every run, of transcripts and questions alike.
-/

namespace GroupAssessmentAgent
open Prog

/-! ### Operations -/

/-- The worker has a handler for every job. -/
def AllExecutable (w : World) : Prop := ∀ i job, w.jobs.find? i = some job → JobWorker.Executes job

/-- A step that adds no other jobs. -/
def KeepsExecutable (_ : Stmt) (f : World → World) : Prop := ∀ w, AllExecutable w → AllExecutable (f w)

theorem keepsExecutable_of_jobs {l : Stmt} {f : World → World} (hf : ∀ w, (f w).jobs = w.jobs) :
    KeepsExecutable l f := by
  intro w hw i job hjob
  rw [hf] at hjob
  exact hw i job hjob

theorem keepsExecutable_modify {l : Stmt} (jobId : Text) {f : Job → Job} (hf : ∀ j, (f j).jobId = j.jobId)
    (hoperation : ∀ j, (f j).operation = j.operation) : KeepsExecutable l fun w => w.modifyJob jobId f hf := by
  intro w hw i job hjob
  simp only [World.modifyJob, Table.find?_modify] at hjob
  split_ifs at hjob
  · obtain ⟨row, hrow, rfl⟩ := Option.map_eq_some_iff.1 hjob
    rw [JobWorker.Executes, hoperation]
    exact hw i row hrow
  · exact hw i job hjob

theorem setAll_operation (j : Job) (fields : List JobField) : (j.setAll fields).operation = j.operation :=
  Job.setAll_keeps (fun v _ j => by cases v <;> rfl) j

theorem covers_keepsExecutable : Covers KeepsExecutable (fun _ => True) fun _ => True where
  look _ _ := keepsExecutable_of_jobs fun _ => rfl
  ask _ := keepsExecutable_of_jobs fun _ => rfl
  tick := keepsExecutable_of_jobs fun _ => rfl
  job jobId fields _ := keepsExecutable_modify jobId _ fun j => setAll_operation j fields
  status jobId _ new fields _ _ :=
    keepsExecutable_modify jobId _ fun j => setAll_operation { j with status := new } fields
  outbox _ _ _ := keepsExecutable_of_jobs fun _ => rfl
  put _ _ := keepsExecutable_of_jobs fun _ => rfl
  delete _ _ := keepsExecutable_of_jobs fun _ => rfl
  alert _ := keepsExecutable_of_jobs fun _ => rfl
  files l f _ hf := keepsExecutable_of_jobs fun w => by
    obtain ⟨t, n, hw⟩ := hf w
    rw [hw]

theorem coversNewJobs_keepsExecutable : CoversNewJobs KeepsExecutable JobWorker.Executes := by
  intro source row f hrow hf w hw i job hjob
  rcases hf w with hsame | ⟨jobId, t, hinsert, hadded⟩
  · rw [hsame] at hjob
    exact hw i job hjob
  · rw [hadded] at hjob
    have hfind := Table.find?_insert? hinsert i
    rw [hjob] at hfind
    split_ifs at hfind
    · rw [Option.some.inj hfind]
      exact hrow jobId
    · exact hw i job hfind.symm

theorem coversCalls_keepsExecutable : CoversCalls KeepsExecutable := fun _ => keepsExecutable_of_jobs fun _ => rfl

theorem coversModel_keepsExecutable : CoversModel KeepsExecutable :=
  ⟨keepsExecutable_of_jobs fun _ => rfl, keepsExecutable_of_jobs fun _ => rfl⟩

theorem coversMarks_keepsExecutable : CoversMarks KeepsExecutable fun _ => True := by
  have hwrites : ∀ l messageId f, WritesProcessed messageId f → KeepsExecutable l f := fun l messageId f hf =>
    keepsExecutable_of_jobs fun w => by
      obtain ⟨t, hw, -⟩ := hf w
      rw [hw]
  exact { insert := fun messageId f _ hf => hwrites _ messageId f hf
          update := fun messageId f _ hf => hwrites _ messageId f hf
          mark := fun _ => keepsExecutable_of_jobs fun _ => rfl }

section
variable [PyChars] (out : Outside)

theorem submitAccept_executable (cmd : ValidatedCommand) (req : Request) (storage : StorageSettings)
    (attachments : List Attachment) (userId : Nat) (sourceMessageId : Text) (receivedAt : Datetime) :
    Always KeepsExecutable
      (SubmitTranscript.accept out cmd req storage attachments userId sourceMessageId receivedAt) := by
  unfold SubmitTranscript.accept
  split
  · trivial
  · split
    · trivial
    · refine Always.bind (createJob_always covers_keepsExecutable out coversNewJobs_keepsExecutable _ _ _ _ _
        fun createdAt jobId => .inl ?_) fun job => ?_
      · exact setAll_operation _ _
      · refine (createdJobId_always job).bind fun jobId => ?_
        exact acceptCreated_always covers_keepsExecutable out cmd req (fun _ _ _ => trivial) trivial storage receivedAt _ _

omit [PyChars] in
theorem assessAccept_executable (cmd : ValidatedCommand) (req : Request) (userId : Nat) (sourceMessageId : Text) :
    Always KeepsExecutable (AssessQuery.accept out cmd req userId sourceMessageId) := by
  refine Always.bind (createJob_always covers_keepsExecutable out coversNewJobs_keepsExecutable _ _ _ _ _
    fun createdAt jobId => .inr ?_) fun job => ?_
  · exact setAll_operation _ _
  · refine (createdJobId_always job).bind fun jobId => ?_
    refine (setStatus_always covers_keepsExecutable out trivial _ _).bind fun _ => ?_
    refine (setStatus_always covers_keepsExecutable out trivial _ _).bind fun _ => ?_
    exact (mail_always covers_keepsExecutable out req _ _ _).bind fun _ => trivial

theorem continueClarification_executable (msg : EmailMessage) (senderEmail jobId : Text) :
    Always KeepsExecutable (EmailProcessingPipeline.continueClarification out msg senderEmail jobId) := by
  have hreply : ∀ mail outcome about, Always KeepsExecutable (do
      EmailProcessingPipeline.replyTo out msg senderEmail mail (some jobId)
      EmailProcessingPipeline.conclude out msg outcome about (some "clarification")
      return true) := fun mail outcome about =>
    replyAndConclude_always covers_keepsExecutable out coversMarks_keepsExecutable msg trivial _ _ _ _ _ _
      fun _ _ _ => trivial
  refine Always.bind (always_observe (covers_keepsExecutable.look _ rfl) _) fun pending => ?_
  cases pending with
  | none => trivial
  | some pending =>
    simp only
    split
    · refine (getOwned_always covers_keepsExecutable _ _).bind fun job => ?_
      split_ifs
      · trivial
      · refine (update_always covers_keepsExecutable trivial _).bind fun _ => ?_
        refine (setStatus_always covers_keepsExecutable out trivial _ _).bind fun _ => ?_
        exact (delete_always covers_keepsExecutable trivial).bind fun _ => hreply _ _ _
    · exact hreply _ _ _

theorem processJob_executable (worker : JobWorker) (job : Job) : Always KeepsExecutable (worker.processJob out job) := by
  refine Always.tryCatch ?_ fun _ => trivial
  unfold JobWorker.executeJob
  split_ifs
  · exact SubmitTranscript.execute_always covers_keepsExecutable coversCalls_keepsExecutable out worker job
  · exact AssessQuery.execute_always covers_keepsExecutable coversCalls_keepsExecutable coversModel_keepsExecutable out
      worker job
  · trivial

end

/-! ### Questions -/

section
variable [PyChars] {out : Outside} {c : FileState}

omit [PyChars] in
theorem coversModel_calm : CoversModel Calm :=
  ⟨.of_tables rfl fun _ => ⟨rfl, rfl, rfl⟩, .of_tables rfl fun _ => ⟨rfl, rfl, rfl⟩⟩

namespace AssessQuery

theorem execute_calm (worker : JobWorker) (job : Job) : Always Calm (execute out worker job) := by
  have hstatus : ∀ new, new ≠ .queued → Always Calm (JobStore.setStatus out job.jobId new []) := fun new hnew =>
    setStatus_calm out job.jobId hnew (List.forall_mem_nil _)
  have hfailure : ∀ reason, Always Calm (handleFailure out worker job reason) := by
    intro reason
    refine Always.bind ?_ fun _ => reportFailure_calm out worker.admin job _ _ _ _
    exact setStatus_calm out job.jobId (by decide) (List.forall_mem_singleton.2 fun _ => rfl)
  refine (hstatus .processing (by decide)).bind fun _ => Always.tryCatch ?_ fun e => hfailure _
  refine (groupsOf_always coversCalls_calm _ job).bind fun found => ?_
  cases matchGroup job.groupHint found.2 with
  | noMatch => exact askForGroup_calm out job _ _
  | ambiguous candidates => exact askForGroup_calm out job _ _
  | matched group =>
    refine (askTranscripts_always coversCalls_calm out coversModel_calm worker job _ group).bind fun transcripts => ?_
    refine (askRepository_always coversCalls_calm worker job group).bind fun repository => ?_
    unfold conclude
    simp only
    split_ifs
    · exact hfailure _
    · exact (hstatus .completed (by decide)).bind fun _ => mail_calm out _ _ _ _

omit [PyChars] in
theorem accept_rg (cmd : ValidatedCommand) (req : Request) (userId : Nat) (sourceMessageId : Text)
    (hc : FilesSettled out .mail c) : FileJudge out .mail (some []) (fun _ => FilesSettled out .mail)
      (accept out cmd req userId sourceMessageId) c := by
  have hcreate : FileJudge out .mail (some []) (fun _ => FilesSettled out .mail)
      (JobStore.createJob out req.senderEmail userId sourceMessageId "assess_query"
        [.groupHint cmd.groupHint, .transcriptFocus cmd.transcriptFocus, .githubFocus cmd.githubFocus,
          .trelloFocus cmd.trelloFocus]) c := by
    have hquiet : ∀ {l f}, Calm l f → Moves (recordFiles (some [])) (FilesSettled out .mail) (RelyFiled out .worker) l f := by
      intro l f hcalm c hc
      have hfiled := hcalm.filed (some []) hc.1
      have hsame := hcalm.same (some []) hc.1
      exact ⟨hsame.settled hfiled hc, fun _ => hsame.rely hfiled⟩
    refine (createJob_rg (E := StoresHold) (N := fun _ => FilesSettled out .mail) out relyFiled_refl settled_stable
      (fun _ => settled_stable) settled_stable (fun _ hc => hc) (fun _ _ hc => hc) (hquiet calm_tick)
      (fun _ => hquiet (calm_look rfl)) (fun _ _ _ h => h.2) (fun createdAt jobId jobs c hinsert hc => ?_)
      (fun c hc => ?_) hc).mono (fun _ _ h => h) fun _ _ h => h.1
    · obtain ⟨hnew, hrely⟩ := hc.insert [] sourceMessageId rfl rfl hinsert rfl
      exact ⟨hnew.settled, fun _ => hrely⟩
    · obtain ⟨hkeep, hrely⟩ := hc.refused (some []) sourceMessageId
      exact ⟨hkeep, fun _ => hrely⟩
  refine hcreate.then (fun job c hc => ?_) fun _ => id
  refine release_rg (Always.bind (createdJobId_always job) fun jobId => ?_) hc
  refine (setStatus_silent out jobId .validating).bind fun _ => (setStatus_silent out jobId .queued).bind fun _ => ?_
  exact ((mail_calm out req _ _ _).mono fun _ _ hf => hf.toSilent).bind fun _ => trivial

end AssessQuery

end

/-! ### How a question ends -/

theorem coversModel_aside : CoversModel Aside :=
  ⟨⟨⟨nofun, nofun⟩, fun _ => ⟨rfl, rfl, rfl⟩⟩, ⟨⟨nofun, nofun⟩, fun _ => ⟨rfl, rfl, rfl⟩⟩⟩

section
variable {E : Env Stmt World Exc} (hE : Holding E) (out : Outside) (worker : JobWorker) (job : Job)
include hE

namespace AssessQuery

theorem handleFailure_settles (reason : Text) {w : World} (hstatus : statusOf w job.jobId = some .processing) :
    Returns E (fun _ w' => JobSettled worker.admin job w w') (handleFailure out worker job reason) w := by
  have hallowed : Allowed w job.jobId .failed := ⟨_, hstatus, by decide⟩
  refine Returns.bind (setStatus_holds hE out hallowed _) fun _ w₁ hw₁ => ?_
  have hstatus₁ := hw₁.status hallowed
  obtain ⟨stamps, n, -, rfl⟩ := hw₁
  refine Returns.mono (reportFailure_holds hE out worker.admin job _ _ _ _ _) fun _ w' hw' => ?_
  obtain ⟨m, alerts, hsent, hmail, halerts⟩ := hw'
  refine EndedWith.settled ⟨?_, m, alerts, hsent.outbox, hmail, halerts⟩ (.inr (.inl rfl))
  rw [statusOf, hsent.jobs, ← statusOf, hstatus₁]

theorem conclude_settles (group : GroupSummary) (transcripts repository : SourceAnswer) {w : World}
    (hstatus : statusOf w job.jobId = some .processing) :
    Returns E (fun _ w' => JobSettled worker.admin job w w') (conclude out worker job group transcripts repository)
      w := by
  unfold conclude
  simp only
  split_ifs
  · exact handleFailure_settles hE out worker job _ hstatus
  · have hallowed : Allowed w job.jobId .completed := ⟨_, hstatus, by decide⟩
    refine Returns.bind (setStatus_holds hE out hallowed []) fun _ w₁ hw₁ => ?_
    have hstatus₁ := hw₁.status hallowed
    obtain ⟨stamps, n, -, rfl⟩ := hw₁
    refine Returns.mono (mail_holds hE out _ _ _ _ _) fun _ w' hw' => ?_
    obtain ⟨m, hsent, hmail⟩ := hw'
    refine EndedWith.settled ⟨?_, m, [], hsent.outbox, hmail, nofun⟩ (.inl rfl)
    rw [statusOf, hsent.jobs, ← statusOf, hstatus₁]

/-- The `try` block settles the job, or it raises and has done nothing to it. -/
def AttemptEnds (w : World) (x : Except Exc Unit) (w' : World) : Prop :=
  (x = .ok () ∧ JobSettled worker.admin job w w') ∨ (∃ e, x = .error e) ∧ Untouched w w'

variable [PyChars]

theorem attempt_settles {w : World} (hstatus : statusOf w job.jobId = some .processing) :
    Ensures E (fun _ x w' => AttemptEnds worker job w x w') (attempt out worker job) w := by
  have haside : ∀ {α : Type} {p : M α}, Always Aside p → ∀ {w₀ w₁ : World}, Untouched w₀ w₁ →
      Ensures E (fun _ _ w' => Untouched w₀ w') p w₁ := fun hp w₀ w₁ h =>
    (aside_ensures hp w₁).mono fun _ _ w' hw' =>
      ⟨hw'.1.1.trans h.1, hw'.1.2.1.trans h.2.1, hw'.1.2.2.trans h.2.2⟩
  have hends : ∀ {p : M Unit} {w₁ : World}, Untouched w w₁ →
      Returns E (fun _ w' => JobSettled worker.admin job w₁ w') p w₁ →
        Ensures E (fun _ x w' => AttemptEnds worker job w x w') p w₁ := fun h hp =>
    Ensures.mono hp fun _ x w' ⟨_, _, hx, hsettled⟩ => .inl ⟨hx, hsettled.congr h.2.1 rfl rfl⟩
  refine Ensures.bind (haside (groupsOf_always coversCalls_aside worker.diarisation job) ⟨rfl, rfl, rfl⟩)
    (fun _ found w₁ hw₁ => ?_) fun _ e w₁ hw₁ => .inr ⟨⟨e, rfl⟩, hw₁⟩
  have hask : Ensures E (fun _ x w' => AttemptEnds worker job w x w') (askForGroup out job found.2 "this question")
      w₁ := by
    have hallowed : Allowed w₁ job.jobId .needsClarification := ⟨_, (hw₁.status _).trans hstatus, by decide⟩
    exact hends hw₁ ((askForGroup_holds hE out worker.admin job found.2 _ hallowed).mono fun _ w' hended =>
      hended.settled (.inr (.inr rfl)))
  cases matchGroup job.groupHint found.2 with
  | noMatch => exact hask
  | ambiguous candidates => exact hask
  | matched group =>
    refine Ensures.bind (haside (askTranscripts_always coversCalls_aside out coversModel_aside worker job _ group) hw₁)
      (fun _ transcripts w₂ hw₂ => ?_) fun _ e w₂ hw₂ => .inr ⟨⟨e, rfl⟩, hw₂⟩
    refine Ensures.bind (haside (askRepository_always coversCalls_aside worker job group) hw₂)
      (fun _ repository w₃ hw₃ => ?_) fun _ e w₃ hw₃ => .inr ⟨⟨e, rfl⟩, hw₃⟩
    exact hends hw₃ (conclude_settles hE out worker job group _ _ ((hw₃.status _).trans hstatus))

/-- A question needs no file, so nothing but the database can keep it from its end. -/
theorem execute_settles {w : World} (hrow : w.jobs.find? job.jobId = some job) (hqueued : job.status = .queued) :
    Ensures E (fun _ _ w' => JobSettled worker.admin job w w') (execute out worker job) w := by
  have hallowed : Allowed w job.jobId .processing :=
    ⟨.queued, by rw [statusOf, hrow, Option.map_some, hqueued], by decide⟩
  refine Returns.then (setStatus_holds hE out hallowed []) fun _ _ w₁ _ hw₁ => ?_
  have hstatus₁ := hw₁.status hallowed
  have houtbox₁ : w₁.outbox = w.outbox := by
    obtain ⟨stamps, n, -, rfl⟩ := hw₁
    rfl
  refine Ensures.tryCatch (attempt_settles hE out worker job hstatus₁) (fun _ a w₂ hw₂ => ?_) fun _ e w₂ hw₂ => ?_
  · rcases hw₂ with ⟨-, hsettled⟩ | ⟨⟨e, h⟩, -⟩
    · exact hsettled.congr houtbox₁ rfl rfl
    · cases h
  · rcases hw₂ with ⟨h, -⟩ | ⟨-, huntouched⟩
    · cases h
    · have hstatus₂ := (huntouched.status job.jobId).trans hstatus₁
      refine Ensures.mono (handleFailure_settles hE out worker job (failureReason e) hstatus₂) fun _ x w' hw' => ?_
      obtain ⟨-, -, -, hsettled⟩ := hw'
      exact hsettled.congr (huntouched.2.1.trans houtbox₁) rfl rfl

end AssessQuery

end

/-! ### Runs -/

section
variable [PyChars] (out : Outside)

/-- The next call of a thread: any call of the mail thread that makes or changes jobs, and the worker's work on any row
that was QUEUED at some time. -/
inductive QueueCall : Thread → Prog Stmt FileState Exc Unit → FileState → Prop
  | mail {p c} : FileCall out .mail p c → QueueCall .mail p c
  | ask (cmd req userId sourceMessageId c) : QueueCall .mail (watch (recordFiles (some [])) (do
      let _ ← AssessQuery.accept out cmd req userId sourceMessageId)) c
  | process (worker : JobWorker) {job : Job} {c : FileState} : job ∈ c.2.listed →
      QueueCall .worker (watch (recordFiles none) (worker.processJob out job)) c

/-- A run of the two threads, from a world that no call has touched. -/
abbrev QueueRun (w : World) (d : (Thread → Prog Stmt FileState Exc Unit) × FileState) : Prop :=
  RoundSteps (StoresHold.watched FileHistory) (QueueCall out) (fun _ => ret (), w, {}) d

variable {out}

theorem processJob_rg (worker : JobWorker) {job : Job} {c : FileState} (hc : HoldsRow out job c) :
    FileJudge out .worker none (fun _ => FilesSettled out .worker) (worker.processJob out job) c := by
  refine rg_watch_tryCatch relyFiled_refl (M := fun _ => FilesSettled out .worker) ?_ (fun _ _ hc => hc) fun e c hc =>
    FileJudge.done known_settled () hc
  unfold JobWorker.executeJob
  split_ifs
  · exact SubmitTranscript.execute_rg worker hc
  · exact known_settled.calm (AssessQuery.execute_calm worker job) hc.settled
  · exact FileJudge.done known_settled () hc.settled

variable (hnames : FreshNames out)
include hnames

theorem queueRounds : RoundSpec (StoresHold.watched FileHistory) (QueueCall out) (RelyFiled out)
    (fun t => RelyFiled out t.other) (FilesSettled out) where
  refl _ := relyFiled_refl
  trans _ _ _ _ := relyFiled_trans
  others := (fileRounds hnames).others
  called t p c hp hc := by
    cases hp with
    | mail hcall => exact fileCall_rg hnames hcall hc
    | ask cmd req userId source =>
      exact (AssessQuery.accept_rg cmd req userId source hc).then (fun _ c hc => .done known_settled () hc) fun _ => id
    | @process worker job _ hlisted =>
      obtain ⟨hthere, hpath⟩ := hc.1.listed job hlisted
      exact processJob_rg worker ⟨hc, ⟨job, hlisted, rfl⟩, hthere, hpath⟩

variable {w : World} (hjobs : w.jobs.rows = []) {d : (Thread → Prog Stmt FileState Exc Unit) × FileState}
  (hrun : QueueRun out w d)
include hjobs hrun

theorem queueRun_settled (hfiles : w.files.rows = []) (hidle : ∀ t, (d.1 t).Ended) (t : Thread) :
    FilesSettled out t d.2 := by
  have hstart : ∀ t, FilesSettled out t (w, {}) := filesSettled_idle hnames hjobs hfiles .refl fun _ => trivial
  exact (queueRounds hnames).idle hrun (fun t c' hcc' => settled_stable _ c' hcc' (hstart t)) hidle t

omit hnames in
theorem queueRun_executable : AllExecutable d.2.1 := by
  have hwatched : ∀ (content : Option Bytes) {p : M Unit}, Always KeepsExecutable p →
      Always (fun _ f => ∀ c : FileState, AllExecutable c.1 → AllExecutable (f c).1) (watch (recordFiles content) p) :=
    fun content p hp => always_watched hp fun _ _ hf c => hf c.1
  refine RoundSteps.always (A := fun _ f => ∀ c : FileState, AllExecutable c.1 → AllExecutable (f c).1) ?_
    (I := fun c => AllExecutable c.1) (fun _ _ hf c hc => hf c hc) hrun (fun _ => trivial) ?_
  · intro t p c hp
    cases hp with
    | mail hcall =>
      cases hcall with
      | accept cmd req storage attachments userId source receivedAt =>
        exact hwatched _ ((submitAccept_executable out cmd req storage attachments userId source receivedAt).bind
          fun _ => trivial)
      | continueClarification msg senderEmail jobId =>
        exact hwatched _ ((continueClarification_executable out msg senderEmail jobId).bind fun _ => trivial)
      | cancel cmd req =>
        exact hwatched _ ((cancel_always covers_keepsExecutable out cmd req (fun _ _ _ => trivial)
          fun _ => trivial).bind fun _ => trivial)
    | ask cmd req userId source =>
      exact hwatched _ ((assessAccept_executable out cmd req userId source).bind fun _ => trivial)
    | process worker _ => exact hwatched _ (processJob_executable out worker _)
  · intro i job hjob
    rw [Table.find?, hjobs] at hjob
    cases hjob

end

/-! ### One job of the queue -/

theorem covers_row (i : Text) : Covers (fun _ f => ∀ w, (f w).jobs.find? i = w.jobs.find? i) (· ≠ i) fun _ => True where
  look _ _ _ := rfl
  ask _ _ := rfl
  tick _ := rfl
  job _ _ hid w := by
    simp only [World.writeJob, World.modifyJob, Table.find?_modify, if_neg (Ne.symm hid)]
  status _ _ _ _ hid _ w := by
    simp only [World.writeStatus, World.modifyJob, Table.find?_modify, if_neg (Ne.symm hid)]
  outbox _ _ _ _ := rfl
  put _ _ _ := rfl
  delete _ _ _ := rfl
  alert _ _ := rfl
  files l f _ hf w := by
    obtain ⟨t, n, hw⟩ := hf w
    rw [hw]

section
variable {E : Env Stmt World Exc} (out : Outside) (worker : JobWorker) (job : Job)

theorem SubmitTranscript.refreshed_named (w : World) :
    Ensures E (fun _ x _ => ∀ current, x = .ok (some current) → current.jobId = job.jobId) (refreshed worker job) w := by
  unfold refreshed
  cases truthy job.attachmentStoragePath with
  | none =>
    refine ensures_ret fun current hx => ?_
    rw [← Option.some.inj (Except.ok.inj hx)]
  | some path =>
    have hany : ∀ {α : Type} (p : M α) (w : World), Ensures E (fun _ _ _ => True) p w := fun _ _ _ _ _ _ => trivial
    refine Ensures.bind (hany _ w) (fun _ moved w₁ _ => ?_) fun _ e _ _ current hx => by cases hx
    refine Ensures.bind (hany _ w₁) (fun _ _ w₂ _ => ?_) fun _ e _ _ current hx => by cases hx
    exact ensures_observe (fun current hx => Table.find?_key (Except.ok.inj hx)) fun e _ current hx => by cases hx

variable [PyChars]

theorem SubmitTranscript.execute_row {i : Text} (hid : job.jobId ≠ i) (w : World) :
    Ensures E (fun _ _ w' => w'.jobs.find? i = w.jobs.find? i) (execute out worker job) w := by
  have hkeeps : ∀ {α : Type} {p : M α}, Keeps (fun w : World => w.jobs.find? i) p → ∀ {w₁ : World},
      w₁.jobs.find? i = w.jobs.find? i → Ensures E (fun _ _ w' => w'.jobs.find? i = w.jobs.find? i) p w₁ :=
    fun hp w₁ h => (hp.ensures w₁).mono fun _ _ _ hw' => hw'.trans h
  refine Ensures.bind (hkeeps (setStatus_always (covers_row i) out hid _ _) rfl) (fun _ _ w₁ hw₁ => ?_)
    fun _ _ _ hw' => hw'
  refine Ensures.bind ((hkeeps (refreshed_always (covers_row i) job hid worker) hw₁).and
    (refreshed_named worker job w₁)) (fun _ current w₂ hw₂ => ?_) fun _ _ _ hw' => hw'.1
  obtain ⟨hw₂, hnamed⟩ := hw₂
  cases current with
  | none => exact ensures_raise hw₂
  | some current =>
    have hcurrent : current.jobId ≠ i := hnamed current rfl ▸ hid
    have hattempt := attempt_mails (covers_row i) out current hcurrent (fun _ _ => rfl) worker fun _ _ => trivial
    refine Ensures.tryCatch (hkeeps hattempt hw₂) (fun _ _ _ hw' => hw') fun _ e w₃ hw₃ => ?_
    exact hkeeps (handleExecuteFailure_always (covers_row i) out current hcurrent worker _) hw₃

theorem executeJob_row {i : Text} (hid : job.jobId ≠ i) (w : World) :
    Ensures E (fun _ _ w' => w'.jobs.find? i = w.jobs.find? i) (worker.executeJob out job) w := by
  unfold JobWorker.executeJob
  split_ifs
  · exact SubmitTranscript.execute_row out worker job hid w
  · have hquestion := AssessQuery.execute_mails (covers_row i) out job hid (fun _ _ => rfl)
      ⟨fun _ => rfl, fun _ => rfl⟩ worker (jobMails_all worker.admin job)
    exact Keeps.ensures hquestion w
  · exact ensures_ret rfl

end

theorem holding_storesHold : Holding StoresHold := fun _ _ _ h => h.1

section
variable [PyChars] {out : Outside} {w w' : World} {a : FileHistory} {h : WorldHistory}

omit [PyChars] in
theorem FileJudge.ends {α : Type} {t : Thread} {content : Option Bytes} {Q : Except Exc α → FileState → Prop} {p : M α}
    {x : Except Exc α} (hp : FileJudge out t content Q p (w, a)) (hexec : Exec StoresHold p w h x w') :
    ∃ a', Q x (w', a') := by
  obtain ⟨a', hwatched⟩ := watch_steps (δ := recordFiles content) hexec.steps a
  rw [watch_ofExcept] at hwatched
  obtain ⟨hend, -⟩ := RG.steps (I := fun _ => True) relyFiled_refl (fun _ _ _ _ => trivial) hp trivial hwatched
  refine ⟨a', ?_⟩
  cases x with
  | ok a => exact hend _ (relyFiled_refl _)
  | error e => exact hend _ (relyFiled_refl _)

section
variable {job : Job} (hc : FilesSettled out .worker (w, a)) (hrow : w.jobs.find? job.jobId = some job)
  (hqueued : job.status = .queued)
include hc hrow hqueued

omit [PyChars] in
theorem holdsRow_of_queued : HoldsRow out job (w, a) := by
  have hstatus : statusOf w job.jobId = some .queued := by rw [statusOf, hrow, Option.map_some, hqueued]
  refine ⟨hc, hc.1.queued _ hstatus, ?_, fun p hp => ⟨p, ?_, rfl⟩⟩
  · rw [HasJob, hrow]
    rfl
  · rw [pathOf, hrow]
    exact hp

omit [PyChars] in
theorem fileThere_of_queued : FileThere job w := by
  intro path hpath
  have hholds := holdsRow_of_queued hc hrow hqueued
  have hnamed : pathOf w job.jobId = some path := by
    rw [pathOf, hrow]
    exact (truthy_eq_some.1 hpath).1
  obtain ⟨bytes, -, hfile⟩ := hc.2 _ hholds.owns path hnamed
  obtain ⟨f, hf, -⟩ := Option.map_eq_some_iff.1 hfile
  rw [hf]
  rfl

/-- The work on a job settles it, and leaves everything in order for the next one. -/
theorem processJob_settles (worker : JobWorker) (hexecutes : JobWorker.Executes job) {x : Except Exc Unit}
    (hexec : Exec StoresHold (worker.processJob out job) w h x w') :
    x = .ok () ∧ (MovesHold h → JobSettled worker.admin job w w') ∧
      (∀ i, job.jobId ≠ i → w'.jobs.find? i = w.jobs.find? i) ∧ ∃ a', FilesSettled out .worker (w', a') := by
  have hfile := fileThere_of_queued hc hrow hqueued
  have hjob : Ensures StoresHold (fun h _ w' => (MovesHold h → JobSettled worker.admin job w w') ∧
      ∀ i, job.jobId ≠ i → w'.jobs.find? i = w.jobs.find? i) (worker.executeJob out job) w := by
    refine Ensures.and ?_ fun h x w' hexec i hid => executeJob_row out worker job hid w h x w' hexec
    unfold JobWorker.executeJob
    split_ifs with hsubmit hask
    · refine (SubmitTranscript.execute_ends holding_storesHold out worker job hrow hqueued).mono
        fun h x w' hends hheld => ?_
      rcases hends with hsettled | hfail
      · exact hsettled.1
      · exact absurd ⟨hfile, hheld⟩ hfail.2
    · exact (AssessQuery.execute_settles holding_storesHold out worker job hrow hqueued).mono
        fun _ _ _ hsettled _ => hsettled
    · exact absurd hexecutes (not_or.2 ⟨hsubmit, hask⟩)
  have hall : Ensures StoresHold (fun h x w' => x = .ok () ∧ (MovesHold h → JobSettled worker.admin job w w') ∧
      ∀ i, job.jobId ≠ i → w'.jobs.find? i = w.jobs.find? i) (worker.processJob out job) w := by
    refine Ensures.tryCatch hjob (fun h _ w' hends => ⟨rfl, hends⟩) fun h e w' hends => ensures_ret ?_
    rw [List.append_nil]
    exact ⟨rfl, hends⟩
  obtain ⟨hx, hsettled, hothers⟩ := hall h x w' hexec
  exact ⟨hx, hsettled, hothers, (processJob_rg worker (holdsRow_of_queued hc hrow hqueued)).ends hexec⟩

end

/-! ### A pass -/

/-- From `w` to `w'` each of these jobs has come to its end or waits for an answer, the other rows are as they were, and
the new mails about jobs are one for each of them, to its sender and in their order. All others alert the admin. -/
structure Served (admin : AdminNotifier) (jobs : List Job) (w w' : World) : Prop where
  status : ∀ job ∈ jobs, ∃ s, statusOf w' job.jobId = some s ∧ (s = .completed ∨ s = .failed ∨ s = .needsClarification)
  others : ∀ i, i ∉ jobs.map Job.jobId → w'.jobs.find? i = w.jobs.find? i
  mails : ∃ new, w'.outbox.rows = w.outbox.rows ++ new ∧
    (new.filterMap fun m => m.jobId.map fun jobId => (jobId, m.toEmail)) =
      jobs.map (fun job => (job.jobId, job.senderEmail)) ∧
    ∀ m ∈ new, m.jobId = none → AlertMail admin m

omit [PyChars] in
theorem Served.nil (admin : AdminNotifier) (w : World) : Served admin [] w w :=
  ⟨List.forall_mem_nil _, fun _ _ => rfl, [], (List.append_nil _).symm, rfl, List.forall_mem_nil _⟩

omit [PyChars] in
theorem Served.cons {admin : AdminNotifier} {job : Job} {jobs : List Job} {w₁ : World}
    (hnotin : job.jobId ∉ jobs.map Job.jobId) (hsettled : JobSettled admin job w w₁)
    (hothers : ∀ i, job.jobId ≠ i → w₁.jobs.find? i = w.jobs.find? i) (hserved : Served admin jobs w₁ w') :
    Served admin (job :: jobs) w w' := by
  obtain ⟨hstatus, m, alerts, hrows, hsender, hid, halerts⟩ := hsettled
  refine ⟨List.forall_mem_cons.2 ⟨?_, hserved.status⟩, fun i hi => ?_, ?_⟩
  · rwa [statusOf, hserved.others _ hnotin, ← statusOf]
  · rw [List.map_cons, List.mem_cons, not_or] at hi
    rw [hserved.others i hi.2, hothers i (Ne.symm hi.1)]
  · obtain ⟨new, hnew, habout, hadmin⟩ := hserved.mails
    have hquiet : alerts.filterMap (fun m => m.jobId.map fun jobId => (jobId, m.toEmail)) = [] := by
      refine List.filterMap_eq_nil_iff.2 fun alert halert => ?_
      rw [(halerts alert halert).2]
      rfl
    refine ⟨m :: alerts ++ new, by rw [hnew, hrows, List.append_assoc], ?_, fun m' hm' hnone => ?_⟩
    · rw [List.filterMap_append, habout, List.filterMap_cons, hid, hsender, Option.map_some, hquiet]
      rfl
    · rcases List.mem_append.1 hm' with hfirst | hrest
      · rcases List.mem_cons.1 hfirst with rfl | halert
        · cases hid.symm.trans hnone
        · exact halerts m' halert
      · exact hadmin m' hrest hnone

theorem processAll_serves (worker : JobWorker) {jobs : List Job} (hnodup : (jobs.map Job.jobId).Nodup)
    (hexecutes : ∀ job ∈ jobs, JobWorker.Executes job) (hc : FilesSettled out .worker (w, a))
    (hrows : ∀ job ∈ jobs, w.jobs.find? job.jobId = some job ∧ job.status = .queued) {x : Except Exc Unit}
    (hexec : Exec StoresHold (worker.processAll out jobs) w h x w') (hheld : MovesHold h) :
    x = .ok () ∧ Served worker.admin jobs w w' := by
  induction jobs generalizing w a h with
  | nil =>
    cases hexec
    exact ⟨rfl, .nil _ _⟩
  | cons job jobs ih =>
    obtain ⟨hnotin, hnodup⟩ := List.nodup_cons.1 hnodup
    obtain ⟨hrow, hqueued⟩ := hrows job List.mem_cons_self
    obtain ⟨hexecutesJob, hexecutes⟩ := List.forall_mem_cons.1 hexecutes
    rcases hexec.bind_inv with ⟨_, h₁, w₁, h₂, hfirst, hrest, rfl⟩ | ⟨e, rfl, hfirst⟩
    · obtain ⟨hheld₁, hheld₂⟩ := movesHold_append.1 hheld
      obtain ⟨-, hsettled, hothers, a₁, hc₁⟩ := processJob_settles hc hrow hqueued worker hexecutesJob hfirst
      have hrows₁ : ∀ other ∈ jobs, w₁.jobs.find? other.jobId = some other ∧ other.status = .queued := by
        intro other hother
        rw [hothers _ fun hid => hnotin (hid ▸ List.mem_map_of_mem hother)]
        exact hrows other (List.mem_cons_of_mem _ hother)
      obtain ⟨hx, hserved⟩ := ih hnodup hexecutes hc₁ hrows₁ hrest hheld₂
      exact ⟨hx, hserved.cons hnotin (hsettled hheld₁) hothers⟩
    · cases (processJob_settles hc hrow hqueued worker hexecutesJob hfirst).1

omit [PyChars] in
theorem Served.drained {admin : AdminNotifier} {jobs : List Job} (hserved : Served admin jobs w w')
    (hall : ∀ job ∈ queuedRows w, job ∈ jobs) : queuedRows w' = [] := by
  refine List.eq_nil_iff_forall_not_mem.2 fun row hrow => ?_
  obtain ⟨hmem, hqueued⟩ := List.mem_filter.1 hrow
  have hfind := Table.find?_of_mem hmem
  have hstatus := of_decide_eq_true hqueued
  by_cases hin : row.jobId ∈ jobs.map Job.jobId
  · obtain ⟨job, hjob, hid⟩ := List.mem_map.1 hin
    obtain ⟨s, hs, hends⟩ := hserved.status job hjob
    rw [hid, statusOf, hfind, Option.map_some, hstatus] at hs
    rcases hends with rfl | rfl | rfl <;> cases hs
  · have hold : row ∈ queuedRows w := by
      rw [hserved.others _ hin] at hfind
      exact List.mem_filter.2 ⟨Table.find?_mem hfind, hqueued⟩
    exact hin (List.mem_map_of_mem (hall row hold))

/-- **The queue drains.** Between the calls of any run, a pass of the worker in which no move and no existence check of
a file raises leaves no job QUEUED: each has ended or waits for an answer, and its sender has one mail about it. -/
theorem queue_drained (hnames : FreshNames out) {start : World} (hjobs : start.jobs.rows = [])
    (hfiles : start.files.rows = []) {d : (Thread → Prog Stmt FileState Exc Unit) × FileState}
    (hrun : QueueRun out start d) (hidle : ∀ t, (d.1 t).Ended) (worker : JobWorker) {x : Except Exc Nat}
    (hexec : Exec StoresHold (worker.runOnce out) d.2.1 h x w') (hheld : MovesHold h) :
    x = .ok (queuedRows d.2.1).length ∧ queuedRows w' = [] ∧
      Served worker.admin (orderBy Job.createdAt (queuedRows d.2.1)) d.2.1 w' := by
  have hsettled := queueRun_settled hnames hjobs hrun hfiles hidle .worker
  have hexecutes := queueRun_executable hjobs hrun
  have hperm : (orderBy Job.createdAt (queuedRows d.2.1)).Perm (queuedRows d.2.1) := List.perm_insertionSort _ _
  have hlist : Returns StoresHold (fun jobs w₁ => jobs = orderBy Job.createdAt (queuedRows d.2.1) ∧ w₁ = d.2.1)
      JobStore.listQueued d.2.1 := store_holds holding_storesHold rfl ⟨rfl, rfl⟩
  have hrows : ∀ job ∈ orderBy Job.createdAt (queuedRows d.2.1),
      d.2.1.jobs.find? job.jobId = some job ∧ job.status = .queued := by
    intro job hjob
    obtain ⟨hmem, hqueued⟩ := List.mem_filter.1 (hperm.mem_iff.1 hjob)
    exact ⟨Table.find?_of_mem hmem, of_decide_eq_true hqueued⟩
  have hnodup : ((orderBy Job.createdAt (queuedRows d.2.1)).map Job.jobId).Nodup :=
    (hperm.map _).nodup_iff.2 ((List.filter_sublist.map _).nodup d.2.1.jobs.nodup)
  have hpass : Ensures StoresHold (fun h x w' => MovesHold h → x = .ok (queuedRows d.2.1).length ∧
      Served worker.admin (orderBy Job.createdAt (queuedRows d.2.1)) d.2.1 w') (worker.runOnce out) d.2.1 := by
    refine Returns.then hlist fun h₁ jobs w₁ hclean₁ hw₁ => ?_
    obtain ⟨rfl, rfl⟩ := hw₁
    have hall : Ensures StoresHold (fun h x w' => MovesHold h → x = .ok () ∧
        Served worker.admin (orderBy Job.createdAt (queuedRows d.2.1)) d.2.1 w')
        (worker.processAll out (orderBy Job.createdAt (queuedRows d.2.1))) d.2.1 := fun h x w' hexec hheld =>
      processAll_serves worker hnodup (fun job hjob => hexecutes _ _ (hrows job hjob).1) hsettled hrows hexec hheld
    refine Ensures.bind hall (fun h₂ _ w₂ hends => ensures_ret fun hheld => ?_) fun h₂ e w₂ hends hheld => ?_
    · rw [List.append_nil] at hheld
      exact ⟨congrArg Except.ok hperm.length_eq, (hends (movesHold_append.1 hheld).2).2⟩
    · cases (hends (movesHold_append.1 hheld).2).1
  obtain ⟨hx, hserved⟩ := hpass h x w' hexec hheld
  exact ⟨hx, hserved.drained fun job hjob => hperm.mem_iff.2 hjob, hserved⟩

end

section
attribute [local instance] asciiChars

/-- The mail thread accepts a question. -/
def askTests : Prog Stmt FileState Exc Unit :=
  watch (recordFiles (some [])) (do
    let _ ← AssessQuery.accept slashless testsQuestion aliceRequest 12 "<2@uni.ac.uk>")

/-- A transcript and a question wait, and a pass submits the one and says of the other that nothing answers it. -/
theorem queue_drained_team : ∃ d h w', QueueRun slashless {} d ∧
    Exec StoresHold ((smallWorker [⟨7, "Team A"⟩]).runOnce slashless) d.2.1 h (.ok 2) w' ∧
    w'.jobs.rows.map Job.status = [.completed, .failed] ∧ queuedRows w' = [] ∧
    Served (smallWorker []).admin (orderBy Job.createdAt (queuedRows d.2.1)) d.2.1 w' := by
  have hcalm : ∀ l c, (StoresHold.watched FileHistory).allowed l c := fun _ _ => trivial
  have hidle : ∀ t, ((fun _ => ret () : Thread → Prog Stmt FileState Exc Unit) t).Ended := fun _ => trivial
  have hfirst := ended_update hidle .mail (acceptTeam.run ({}, {})).1
  have haccept : QueueRun slashless {} _ := .run hcalm .refl (p := acceptTeam) (hidle .mail) (.mail (.accept ..))
  have hrun : QueueRun slashless {} _ := .run hcalm haccept (p := askTests) (hfirst .mail) (.ask ..)
  have hended := ended_update hfirst .mail (askTests.run (acceptTeam.run ({}, {})).2).1
  obtain ⟨h, hexec, hclean⟩ := exec_run (E := StoresHold) (fun _ _ => trivial)
    ((smallWorker [⟨7, "Team A"⟩]).runOnce slashless) (askTests.run (acceptTeam.run ({}, {})).2).2.1
  have hdrained := queue_drained freshNames_slashless rfl rfl hrun hended _ hexec (movesHold_of_clean hclean)
  have htwo : (queuedRows (askTests.run (acceptTeam.run ({}, {})).2).2.1).length = 2 := by decide +kernel
  rw [show _ = Except.ok 2 from hdrained.1.trans (congrArg Except.ok htwo)] at hexec
  exact ⟨_, h, _, hrun, hexec, by decide +kernel, hdrained.2⟩

end

end GroupAssessmentAgent
