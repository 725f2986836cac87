import GroupAssessmentAgent.Jobs.StatusRace
import GroupAssessmentAgent.Jobs.Worker
import GroupAssessmentAgent.Lib.History
import GroupAssessmentAgent.Pipeline.Frame

/-!
# The course of a job

A call of `accept` or `execute` takes one job from status to status. Everything else it does is `Quiet`: it touches
neither a status nor a question. `JobCourse` is what a judgement has to know of the few statements that are not quiet.
Then a call that returns has left its job in a status that no call is at work in, whatever it met on its way
(`submitAccept_course`, `assessAccept_course`, `execute_course`).
-/

namespace GroupAssessmentAgent
open Prog

/-- The statuses of a job between two statements of a call. -/
def JobState.AtWork (s : JobState) : Prop := s = .received ∨ s = .validating ∨ s = .processing

instance (s : JobState) : Decidable s.AtWork := inferInstanceAs (Decidable (_ ∨ _ ∨ _))

/-! ### What the handlers consist of -/

/-- The calls of the backends are covered. -/
def CoversCalls (A : Stmt → (World → World) → Prop) : Prop :=
  ∀ call, A (.backend call) fun w => { w with backendCalls := w.backendCalls + 1 }

section
variable {A : Stmt → (World → World) → Prop} (hcalls : CoversCalls A)
include hcalls

theorem callBackend_always {α : Type} (call : BackendCall) (answer : Nat → Except Exc α) :
    Always A (callBackend call answer) :=
  always_atomic (hcalls call)

theorem groupsOf_always (d : DiarisationClient) (job : Job) : Always A (groupsOf d job) := by
  refine Always.bind (callBackend_always hcalls _ _) fun token => ?_
  exact Always.bind (callBackend_always hcalls _ _) fun groups => trivial

section
variable (out : Outside)

namespace SubmitTranscript

theorem addAttendees_always (d : DiarisationClient) (token : Text) (groupId meetingId : Nat)
    (resolved : List (Text × Option Nat)) : Always A (addAttendees d token groupId meetingId resolved) := by
  induction resolved with
  | nil => trivial
  | cons entry rest ih =>
    obtain ⟨name, member⟩ := entry
    cases member with
    | none => exact ih.bind fun _ => trivial
    | some memberId => exact Always.bind (callBackend_always hcalls _ _) fun _ => ih.bind fun _ => trivial

theorem attendeesOf_always (d : DiarisationClient) (token : Text) (groupId meetingId : Nat) (speakers : List Text) :
    Always A (attendeesOf d token groupId meetingId speakers) := by
  unfold attendeesOf
  split_ifs
  · trivial
  · exact (callBackend_always hcalls _ _).bind fun resolved => addAttendees_always hcalls d token _ _ resolved

omit hcalls in
theorem storedContent_always (hread : A .readFile id) (job : Job) : Always A (storedContent job) := by
  unfold storedContent
  cases job.attachmentStoragePath with
  | none => trivial
  | some path => exact always_observeE hread _

theorem submit_always (hread : A .readFile id) (d : DiarisationClient) (job : Job) (token : Text)
    (group : GroupSummary) : Always A (submit out d job token group) := by
  refine (always_ofExcept _).bind fun _ => (callBackend_always hcalls _ _).bind fun meetingId => ?_
  refine (storedContent_always hread job).bind fun _ => (callBackend_always hcalls _ _).bind fun _ => ?_
  exact (attendeesOf_always hcalls d token _ meetingId _).bind fun _ => trivial

end SubmitTranscript

namespace AssessQuery

theorem askTranscripts_always (hmodel : CoversModel A) (worker : JobWorker) (job : Job) (token : Text)
    (group : GroupSummary) : Always A (askTranscripts out worker job token group) := by
  have hanswer : ∀ question chunks, Always A (synthesizeTranscriptAnswer out question chunks) := by
    intro question chunks
    unfold synthesizeTranscriptAnswer
    split_ifs
    · trivial
    · exact (generateText_always out hmodel _ _).bind fun _ => trivial
  unfold askTranscripts
  cases truthy job.transcriptFocus with
  | none => trivial
  | some focus =>
    refine (catching_always _ ((callBackend_always hcalls _ _).bind fun chunks => hanswer focus chunks)).bind
      fun answer => ?_
    cases answer <;> trivial

theorem askRepository_always (worker : JobWorker) (job : Job) (group : GroupSummary) :
    Always A (askRepository worker job group) := by
  unfold askRepository
  split_ifs
  · trivial
  · refine (catching_always _ ((callBackend_always hcalls _ _).bind fun repo => ?_)).bind fun answer => ?_
    · cases repo with
      | none => trivial
      | some repo => exact (callBackend_always hcalls _ _).bind fun _ => trivial
    · rcases answer with _ | _ | _ <;> trivial

end AssessQuery

end

end

section
variable {A : Stmt → (World → World) → Prop} {J : Text → Prop} {T : OutboxMessage → Prop} (hA : Covers A J T)
  (out : Outside)
include hA

theorem job_always (jobId : Text) : Always A (JobStore.get jobId) := always_observe (hA.look _ rfl) _

/-- The mails that the work on a job may lead to: to its sender, and to the admin. -/
structure JobMails (admin : AdminNotifier) (job : Job) (T : OutboxMessage → Prop) : Prop where
  sender : ∀ m, MailTo job.senderEmail (some job.jobId) [] m → T m
  admin : ∀ m : OutboxMessage, some m.toEmail = truthy admin.adminEmail → m.attachments = [] → m.jobId = none → T m

theorem reportFailure_mails (admin : AdminNotifier) (job : Job) (hmails : JobMails admin job T) (userReason : Text)
    (category : AdminCategory) (summary reason : Text) :
    Always A (reportFailure out admin job userReason category summary reason) :=
  (request_mails hA out _ _ _ _ hmails.sender).bind fun _ =>
    (alert_always hA out admin _ _ _ hmails.admin).bind fun _ => trivial

section
variable (job : Job) (hjob : J job.jobId)
include hjob

theorem askForGroup_mails (hmail : ∀ m, MailTo job.senderEmail (some job.jobId) [] m → T m)
    (groups : List GroupSummary) (subject : Text) : Always A (askForGroup out job groups subject) :=
  (setStatus_always hA out hjob _ _).bind fun _ =>
    (put_always hA out hjob _ _ _).bind fun _ => request_mails hA out _ _ _ _ hmail

namespace SubmitTranscript

omit out in
theorem moved_always (path dir : Text) : Always A (do
    let moved ← moveTo path dir
    JobStore.update job.jobId [.attachmentStoragePath (some moved)]) :=
  (moveTo_always hA path dir).bind fun _ => update_always hA hjob _

omit out in
theorem moveStored_always (dir : Text) : Always A (moveStored job dir) := by
  unfold moveStored
  cases truthy job.attachmentStoragePath with
  | none => trivial
  | some path => exact moved_always hA job hjob path dir

omit out in
theorem moveFailedFile_always (storage : StorageSettings) : Always A (moveFailedFile storage job) := by
  unfold moveFailedFile
  cases truthy job.attachmentStoragePath with
  | none => trivial
  | some path =>
    refine (fileExists_always hA path).bind fun found => ?_
    split_ifs
    · exact moved_always hA job hjob path storage.failed
    · trivial

theorem handleExecuteFailure_mails (worker : JobWorker) (hmails : JobMails worker.admin job T) (reason : Text) :
    Always A (handleExecuteFailure out worker job reason) :=
  (setStatus_always hA out hjob _ _).bind fun _ => (moveFailedFile_always hA job hjob _).bind fun _ =>
    reportFailure_mails hA out _ _ hmails _ _ _ _

theorem complete_mails (hmail : ∀ m, MailTo job.senderEmail (some job.jobId) [] m → T m) (storage : StorageSettings)
    (group : GroupSummary) (s : Submitted) : Always A (complete out storage job group s) :=
  (update_always hA hjob _).bind fun _ => (setStatus_always hA out hjob _ _).bind fun _ =>
    (moveStored_always hA job hjob _).bind fun _ => request_mails hA out _ _ _ _ hmail

omit out in
theorem refreshed_always (worker : JobWorker) : Always A (refreshed worker job) := by
  unfold refreshed
  cases truthy job.attachmentStoragePath with
  | none => trivial
  | some path =>
    exact (moveTo_always hA _ _).bind fun _ => (update_always hA hjob _).bind fun _ => job_always hA _

theorem attempt_mails (hcalls : CoversCalls A) (worker : JobWorker)
    (hmail : ∀ m, MailTo job.senderEmail (some job.jobId) [] m → T m) [PyChars] :
    Always A (attempt out worker job) := by
  refine (groupsOf_always hcalls _ job).bind fun found => ?_
  cases matchGroup job.groupHint found.2 with
  | noMatch => exact askForGroup_mails hA out job hjob hmail _ _
  | ambiguous candidates => exact askForGroup_mails hA out job hjob hmail _ _
  | matched group =>
    exact (submit_always hcalls out (hA.look _ rfl) _ job _ group).bind fun _ =>
      complete_mails hA out job hjob hmail _ _ _

end SubmitTranscript

theorem AssessQuery.execute_mails [PyChars] (hcalls : CoversCalls A) (hmodel : CoversModel A) (worker : JobWorker)
    (hmails : JobMails worker.admin job T) : Always A (AssessQuery.execute out worker job) := by
  have hfailure : ∀ reason, Always A (AssessQuery.handleFailure out worker job reason) := fun reason =>
    (setStatus_always hA out hjob _ _).bind fun _ => reportFailure_mails hA out _ job hmails _ _ _ _
  refine (setStatus_always hA out hjob _ _).bind fun _ => Always.tryCatch ?_ fun e => hfailure _
  refine (groupsOf_always hcalls _ job).bind fun found => ?_
  cases matchGroup job.groupHint found.2 with
  | noMatch => exact askForGroup_mails hA out job hjob hmails.sender _ _
  | ambiguous candidates => exact askForGroup_mails hA out job hjob hmails.sender _ _
  | matched group =>
    refine (askTranscripts_always hcalls out hmodel worker job _ group).bind fun transcripts => ?_
    refine (askRepository_always hcalls worker job group).bind fun repository => ?_
    unfold AssessQuery.conclude
    simp only
    split_ifs
    · exact hfailure _
    · exact (setStatus_always hA out hjob _ _).bind fun _ => request_mails hA out _ _ _ _ hmails.sender

end

end

section
variable {A : Stmt → (World → World) → Prop} {J : Text → Prop} (hA : Covers A J fun _ => True) (out : Outside)
include hA

theorem mail_always (req : Request) (mail : Rendered) (jobId : Option Text) (paths : List Text) :
    Always A (req.enqueue out mail jobId paths) :=
  request_mails hA out req mail jobId paths fun _ _ => trivial

omit hA in
theorem jobMails_all (admin : AdminNotifier) (job : Job) : JobMails admin job fun _ => True :=
  ⟨fun _ _ => trivial, fun _ _ _ _ => trivial⟩

theorem reportFailure_always (admin : AdminNotifier) (job : Job) (userReason : Text) (category : AdminCategory)
    (summary reason : Text) : Always A (reportFailure out admin job userReason category summary reason) :=
  reportFailure_mails hA out admin job (jobMails_all admin job) userReason category summary reason

section
variable (job : Job) (hjob : J job.jobId)
include hjob

theorem askForGroup_always (groups : List GroupSummary) (subject : Text) :
    Always A (askForGroup out job groups subject) :=
  askForGroup_mails hA out job hjob (fun _ _ => trivial) groups subject

namespace SubmitTranscript

theorem handleExecuteFailure_always (worker : JobWorker) (reason : Text) :
    Always A (handleExecuteFailure out worker job reason) :=
  handleExecuteFailure_mails hA out job hjob worker (jobMails_all worker.admin job) reason

theorem complete_always (storage : StorageSettings) (group : GroupSummary) (s : Submitted) :
    Always A (complete out storage job group s) :=
  complete_mails hA out job hjob (fun _ _ => trivial) storage group s

end SubmitTranscript

end

end

/-! ### A whole pass of the worker -/

section
variable [PyChars] {A : Stmt → (World → World) → Prop} (hA : Covers A (fun _ => True) fun _ => True)
  (hcalls : CoversCalls A) (hmodel : CoversModel A) (out : Outside) (worker : JobWorker)
include hA hcalls

theorem SubmitTranscript.execute_always (job : Job) : Always A (execute out worker job) := by
  refine (setStatus_always hA out trivial _ _).bind fun _ => (refreshed_always hA job trivial worker).bind fun job => ?_
  cases job with
  | none => trivial
  | some job =>
    exact Always.tryCatch (attempt_mails hA out job trivial hcalls worker fun _ _ => trivial) fun e =>
      handleExecuteFailure_always hA out job trivial worker _

include hmodel

theorem AssessQuery.execute_always (job : Job) : Always A (execute out worker job) :=
  execute_mails hA out job trivial hcalls hmodel worker (jobMails_all worker.admin job)

theorem runOnce_always : Always A (worker.runOnce out) := by
  have hjob : ∀ job, Always A (worker.executeJob out job) := by
    intro job
    unfold JobWorker.executeJob
    split_ifs
    · exact SubmitTranscript.execute_always hA hcalls out worker job
    · exact AssessQuery.execute_always hA hcalls hmodel out worker job
    · trivial
  have hall : ∀ jobs, Always A (worker.processAll out jobs) := by
    intro jobs
    induction jobs with
    | nil => trivial
    | cons job jobs ih => exact (Always.tryCatch (hjob job) fun _ => always_ret ()).bind fun _ => ih
  exact Always.bind (always_observe (hA.look _ rfl) _) fun jobs => (hall jobs).bind fun _ => always_ret _

end

/-! ### Quiet statements -/

/-- The statements that write a status. -/
def Stmt.writesStatus : Stmt → Bool
  | .insertJob _ | .updateStatus .. => true
  | _ => false

/-- A step that moves no job, and opens or closes no question. -/
structure Quiet (l : Stmt) (f : World → World) : Prop where
  label : l.writesStatus = false
  status : ∀ w jobId, statusOf (f w) jobId = statusOf w jobId
  questions : ∀ w, (f w).pendingClarifications = w.pendingClarifications

theorem Quiet.of_tables {l : Stmt} {f : World → World} (hl : l.writesStatus = false)
    (hf : ∀ w, (f w).jobs = w.jobs ∧ (f w).pendingClarifications = w.pendingClarifications) : Quiet l f where
  label := hl
  status w jobId := by rw [statusOf, (hf w).1, statusOf]
  questions w := (hf w).2

theorem statusOf_insert {w : World} {row : Job} {t : Table Job.jobId} (h : w.jobs.insert? row = some t) (jobId : Text) :
    statusOf { w with jobs := t } jobId = if row.jobId = jobId then some row.status else statusOf w jobId := by
  have hfind := Table.find?_insert? h jobId
  rw [statusOf, statusOf, hfind]
  split_ifs <;> rfl

theorem covers_quiet : Covers Quiet (fun _ => False) fun _ => True where
  look l hl := .of_tables (by cases l <;> first | rfl | cases hl) fun _ => ⟨rfl, rfl⟩
  ask _ := .of_tables rfl fun _ => ⟨rfl, rfl⟩
  tick := .of_tables rfl fun _ => ⟨rfl, rfl⟩
  job _ _ h := h.elim
  status _ _ _ _ h := h.elim
  outbox _ _ _ := .of_tables rfl fun _ => ⟨rfl, rfl⟩
  put _ h := h.elim
  delete _ h := h.elim
  alert _ := .of_tables rfl fun _ => ⟨rfl, rfl⟩
  files l f hl hf := by
    refine .of_tables (by rcases hl with rfl | rfl <;> rfl) fun w => ?_
    obtain ⟨t, n, h⟩ := hf w
    rw [h]
    exact ⟨rfl, rfl⟩

theorem coversModel_quiet : CoversModel Quiet :=
  ⟨.of_tables rfl fun _ => ⟨rfl, rfl⟩, .of_tables rfl fun _ => ⟨rfl, rfl⟩⟩

theorem coversMarks_quiet : CoversMarks Quiet fun _ => True := by
  refine ⟨⟨fun _ f _ hf => .of_tables rfl fun w => ?_, fun _ f _ hf => .of_tables rfl fun w => ?_⟩, fun _ => ?_⟩
  · obtain ⟨t, h, _⟩ := hf w
    rw [h]
    exact ⟨rfl, rfl⟩
  · obtain ⟨t, h, _⟩ := hf w
    rw [h]
    exact ⟨rfl, rfl⟩
  · exact .of_tables rfl fun _ => ⟨rfl, rfl⟩

theorem update_quiet (jobId : Text) (fields : List JobField) : Always Quiet (JobStore.update jobId fields) := by
  unfold JobStore.update
  split_ifs
  · trivial
  · exact always_change ⟨rfl, fun w jobId' => statusOf_writeJob w jobId fields jobId', fun _ => rfl⟩

theorem coversCalls_quiet : CoversCalls Quiet := fun _ => .of_tables rfl fun _ => ⟨rfl, rfl⟩

theorem enqueue_quiet (out : Outside) (req : Request) (mail : Rendered) (jobId : Option Text) (paths : List Text) :
    Always Quiet (req.enqueue out mail jobId paths) :=
  request_always covers_quiet out req mail jobId paths fun _ _ _ => trivial

section
variable (out : Outside)

namespace SubmitTranscript

theorem moveTo_quiet (path dir jobId : Text) : Always Quiet (do
    let moved ← moveTo path dir
    JobStore.update jobId [.attachmentStoragePath (some moved)]) :=
  (moveTo_always covers_quiet path dir).bind fun _ => update_quiet _ _

theorem moveFailed_quiet (storage : StorageSettings) (jobId path : Text) :
    Always Quiet (moveFailed storage jobId path) := by
  refine (fileExists_always covers_quiet path).bind fun found => ?_
  split_ifs
  · exact moveTo_quiet _ _ _
  · trivial

theorem moveFailedFile_quiet (storage : StorageSettings) (job : Job) : Always Quiet (moveFailedFile storage job) := by
  unfold moveFailedFile
  cases truthy job.attachmentStoragePath with
  | none => trivial
  | some path => exact moveFailed_quiet _ _ _

theorem moveStored_quiet (job : Job) (dir : Text) : Always Quiet (moveStored job dir) := by
  unfold moveStored
  cases truthy job.attachmentStoragePath with
  | none => trivial
  | some path => exact moveTo_quiet _ _ _

end SubmitTranscript

theorem reportFailure_quiet (admin : AdminNotifier) (job : Job) (userReason : Text) (category : AdminCategory)
    (summary reason : Text) : Always Quiet (reportFailure out admin job userReason category summary reason) :=
  (enqueue_quiet out _ _ _ _).bind fun _ =>
    (alert_always covers_quiet out admin _ _ _ fun _ _ _ _ => trivial).bind fun _ => trivial

end

/-! ### `set_status` -/

section
variable {A : Type} {δ : Stmt → World → World → A → A} {E : Env Stmt World Exc} {R G : World × A → World × A → Prop}

/-- `set_status` from `P` to `D`, where `K current` is what holds between the SELECT of `current` and the UPDATE. The
UPDATE assigns the extra fields and the times. -/
theorem setStatus_rg (out : Outside) {jobId : Text} {new : JobState} (extra : List JobField) {P D : World × A → Prop}
    {K : JobState → World × A → Prop} (hrefl : ∀ c, R c c) (hP : Stable R P) (hK : ∀ s, Stable R (K s))
    (hD : Stable R D) (hback : ∀ s c, K s c → P c)
    (hlook : ∀ c, P c → G c (c.1, δ .selectJobs c.1 c.1 c.2) ∧ P (c.1, δ .selectJobs c.1 c.1 c.2) ∧
      ∀ current, statusOf c.1 jobId = some current → K current (c.1, δ .selectJobs c.1 c.1 c.2))
    (htick : ∀ s, Moves δ (K s) G .clock World.tick)
    (hwrite : ∀ current fields, (new = current ∨ new ∈ current.allowedTransitions) →
      (∀ v ∈ fields, v ∈ extra ∨ v.isStartedAt = true ∨ v.isCompletedAt = true) →
      ∀ c, K current c → G c (c.1.writeStatus jobId new fields,
          δ (.updateStatus jobId current new) c.1 (c.1.writeStatus jobId new fields) c.2) ∧
        D (c.1.writeStatus jobId new fields,
          δ (.updateStatus jobId current new) c.1 (c.1.writeStatus jobId new fields) c.2))
    {c : World × A} (hc : P c) :
    RG (E.watched A) R G (Ends D P) (watch δ (JobStore.setStatus out jobId new extra)) c := by
  have hends : ∀ x : Except Exc Unit, Stable R (Ends D P x) := hD.ends hP
  have hread : RG (E.watched A) R G
      (fun x c => P c ∧ ∀ current, x = .ok (some current) → K current c)
      (watch δ (observe .selectJobs fun w => (w.jobs.find? jobId).map Job.status)) c := by
    rw [watch_observe]
    refine rg_atomic hP (fun x c c' hcc' h => ⟨hP c c' hcc' h.1, fun s hs => hK s c c' hcc' (h.2 s hs)⟩)
      (fun c hc _ => ?_) (fun c e hc _ => ⟨hc, fun s hs => by cases hs⟩) hc
    obtain ⟨hG, hkeep, hcurrent⟩ := hlook c hc
    exact ⟨hG, hkeep, fun current h => hcurrent current (Except.ok.inj h)⟩
  refine rg_watch_bind hrefl hread (fun row c hc => ?_) fun _ c hc => hc.1
  cases row with
  | none => exact fun c' hcc' => hP c c' hcc' hc.1
  | some current =>
    have hcurrent := hc.2 current rfl
    have hstamp : ∀ (wanted : Prop) [Decidable wanted] column,
        (∀ now, (column now : JobField).isStartedAt = true ∨ (column now).isCompletedAt = true) → ∀ c, K current c →
          RG (E.watched A) R G (fun x c => K current c ∧
              ∀ fields, x = .ok fields → ∀ v ∈ fields, v.isStartedAt = true ∨ v.isCompletedAt = true)
            (watch δ (JobStore.stamp out wanted column)) c := by
      intro wanted _ column hcolumn c hc
      unfold JobStore.stamp
      split_ifs
      · have hclock : Always (Moves δ (K current) G) (utcnow out) := always_atomic (htick current)
        refine rg_watch_bind hrefl (hclock.moves (hK current) hc) (fun now c hc c' hcc' => ?_)
          fun _ c hc => ⟨hc, fun _ h => by cases h⟩
        refine ⟨hK current c c' hcc' hc, fun fields hfields => ?_⟩
        rw [← Except.ok.inj hfields]
        exact List.forall_mem_singleton.2 (hcolumn _)
      · refine fun c' hcc' => ⟨hK current c c' hcc' hc, fun fields hfields => ?_⟩
        rw [← Except.ok.inj hfields]
        exact List.forall_mem_nil _
    simp only
    split_ifs with hguard
    · exact fun c' hcc' => hP c c' hcc' hc.1
    · have hnew : new = current ∨ new ∈ current.allowedTransitions := by tauto
      refine rg_watch_bind hrefl (hstamp _ _ (fun _ => .inl rfl) c hcurrent) (fun started c hstarted => ?_)
        fun _ c hc => hback current c hc.1
      refine rg_watch_bind hrefl (hstamp _ _ (fun _ => .inr rfl) c hstarted.1) (fun completed c hcompleted => ?_)
        fun _ c hc => hback current c hc.1
      rw [watch_change]
      refine rg_change (hK current) hends (fun c hc _ => hwrite current _ hnew (fun v hv => ?_) c hc)
        (fun c _ hc _ => hback current c hc) hcompleted.1
      rcases List.mem_append.1 hv with hv | hv
      · exact (List.mem_append.1 hv).imp_right (hstarted.2 started rfl v)
      · exact .inr (hcompleted.2 completed rfl v hv)

end

/-! ### `create_job` -/

section
variable {A : Type} {δ : Stmt → World → World → A → A} {E : Env Stmt World Exc} {R G : World × A → World × A → Prop}
  {P Left : World × A → Prop} {N : Text → World × A → Prop}

/-- The INSERT of a job, from `P` to the `N` of the job. An id that is taken leaves `P`. -/
theorem insertNew_rg (hP : Stable R P) (hN : ∀ jobId, Stable R (N jobId)) (pre : Text) (attempt : Nat)
    {row : Text → Job} {sourceMessageId : Text}
    (hinsert : ∀ jobId t c, c.1.jobs.insert? (row jobId) = some t → P c →
      N jobId ({ c.1 with jobs := t }, δ (.insertJob sourceMessageId) c.1 { c.1 with jobs := t } c.2) ∧
        G c ({ c.1 with jobs := t }, δ (.insertJob sourceMessageId) c.1 { c.1 with jobs := t } c.2))
    (hrefused : ∀ c, P c → P (c.1, δ (.insertJob sourceMessageId) c.1 c.1 c.2) ∧
      G c (c.1, δ (.insertJob sourceMessageId) c.1 c.1 c.2)) {c : World × A} (hc : P c) :
    RG (E.watched A) R G (fun x c => (∀ e, x = .error e → P c) ∧ ∀ jobId, x = .ok jobId → N jobId c)
      (watch δ (JobStore.insertJob pre attempt row sourceMessageId)) c := by
  have hends : ∀ x : Except Exc Text, Stable R fun c =>
      (∀ e, x = .error e → P c) ∧ ∀ jobId, x = .ok jobId → N jobId c := fun x c c' hcc' h =>
    ⟨fun e he => hP c c' hcc' (h.1 e he), fun jobId hjob => hN jobId c c' hcc' (h.2 jobId hjob)⟩
  rw [JobStore.insertJob, watch_atomic]
  refine rg_atomic hP hends (fun c hc _ => ?_) (fun c e hc _ => ⟨fun _ _ => hc, fun _ h => by cases h⟩) hc
  simp only
  split
  · next t ht =>
    obtain ⟨hnew, hG⟩ := hinsert _ t c ht hc
    refine ⟨hG, fun _ h => (by cases h), fun jobId hjob => ?_⟩
    rw [← Except.ok.inj hjob]
    exact hnew
  · obtain ⟨hkeep, hG⟩ := hrefused c hc
    exact ⟨hG, fun _ _ => hkeep, fun _ h => by cases h⟩

theorem getJob_rg (hP : Stable R P) (hlook : Moves δ P G .selectJobs id) (jobId : Text) {c : World × A} (hc : P c) :
    RG (E.watched A) R G (fun x c => P c ∧ (∀ job, x = .ok (some job) → job.jobId = jobId) ∧
      ∀ e, x = .error e → ∃ w, E.fault .selectJobs w e) (watch δ (JobStore.get jobId)) c := by
  intro c' hcc'
  have hc' : P c' := hP c c' hcc' hc
  obtain ⟨hnext, hG⟩ := hlook c' hc'
  refine ⟨fun _ => ⟨hG, fun d hd => ⟨hP _ d hd hnext, fun job hjob => ?_, fun e he => by cases he⟩⟩, fun e he d hd =>
    ⟨hP _ d hd hc', fun job hjob => (by cases hjob), fun e' he' => ?_⟩⟩
  · exact Table.find?_key (Except.ok.inj hjob)
  · rw [← Except.error.inj he']
    exact ⟨c'.1, he⟩

section
variable {senderEmail : Text} {userId : Nat} {sourceMessageId operation : Text} {fields : List JobField}

/-- `create_job` from `P` to the `N` of the new job, or to `Left`. A collision leaves `P`, and the next round starts
afresh. -/
theorem createJob_rg (out : Outside) (hrefl : ∀ c, R c c) (hP : Stable R P) (hN : ∀ jobId, Stable R (N jobId))
    (hLeft : Stable R Left) (hbefore : ∀ c, P c → Left c) (hafter : ∀ jobId c, N jobId c → Left c)
    (htick : Moves δ P G .clock World.tick) (hlook : ∀ jobId, Moves δ (N jobId) G .selectJobs id)
    (hunique : ∀ l w e, E.fault l w e → e.kind ≠ .integrityError)
    (hinsert : ∀ createdAt jobId t c, c.1.jobs.insert?
        (JobStore.received senderEmail userId sourceMessageId operation fields createdAt jobId) = some t → P c →
      N jobId ({ c.1 with jobs := t }, δ (.insertJob sourceMessageId) c.1 { c.1 with jobs := t } c.2) ∧
        G c ({ c.1 with jobs := t }, δ (.insertJob sourceMessageId) c.1 { c.1 with jobs := t } c.2))
    (hrefused : ∀ c, P c → P (c.1, δ (.insertJob sourceMessageId) c.1 c.1 c.2) ∧
      G c (c.1, δ (.insertJob sourceMessageId) c.1 c.1 c.2))
    {c : World × A} (hc : P c) :
    RG (E.watched A) R G (fun x c => Left c ∧ ∀ job, x = .ok (some job) → N job.jobId c)
      (watch δ (JobStore.createJob out senderEmail userId sourceMessageId operation fields)) c := by
  have hends : ∀ x : Except Exc (Option Job), Stable R fun c => Left c ∧ ∀ job, x = .ok (some job) → N job.jobId c :=
    fun x c c' hcc' h => ⟨hLeft c c' hcc' h.1, fun job hjob => hN _ c c' hcc' (h.2 job hjob)⟩
  have herr : ∀ e c, P c → Left c ∧ ∀ job, (Except.error e : Except Exc (Option Job)) = .ok (some job) →
      N job.jobId c := fun e c hc => ⟨hbefore c hc, fun job h => by cases h⟩
  have hclock : ∀ c, P c → RG (E.watched A) R G (fun _ => P) (watch δ (utcnow out)) c := fun c hc =>
    Always.moves (always_atomic htick) hP hc
  refine rg_watch_bind hrefl (hclock c hc) (fun now c hc => ?_) herr
  suffices hrounds : ∀ rounds attempt c, P c →
      RG (E.watched A) R G (fun x c => Left c ∧ ∀ job, x = .ok (some job) → N job.jobId c)
        (watch δ (JobStore.createJobFrom out senderEmail userId sourceMessageId operation fields
          (JobStore.jobIdPrefix now.date) rounds attempt)) c from hrounds 10 0 c hc
  intro rounds
  induction rounds with
  | zero => exact fun _ c hc => rg_raise hends (herr _ c hc)
  | succ rounds ih =>
    intro attempt c hc
    refine rg_watch_bind hrefl (hclock c hc) (fun createdAt c hc => ?_) herr
    refine rg_watch_tryCatch hrefl (M := fun x c => (Left c ∧ ∀ job, x = .ok (some job) → N job.jobId c) ∧
      ∀ e, x = .error e → e.kind = .integrityError → P c) ?_ (fun _ _ h => h.1) fun e c h => ?_
    · refine rg_watch_bind hrefl (insertNew_rg hP hN _ _ (hinsert createdAt) hrefused hc) (fun jobId c hc => ?_)
        fun e c hc => ⟨herr e c (hc.1 e rfl), fun _ _ _ => hc.1 e rfl⟩
      refine (getJob_rg (hN jobId) (hlook jobId) jobId (hc.2 jobId rfl)).mono (fun _ _ h => h) fun x c hx =>
        ⟨⟨hafter jobId c hx.1, fun job hjob => ?_⟩, fun e he hkind => ?_⟩
      · rw [hx.2.1 job hjob]
        exact hx.1
      · obtain ⟨w, hfault⟩ := hx.2.2 e he
        exact absurd hkind (hunique _ w e hfault)
    · split_ifs with hkind
      · exact ih _ c (h.2 e rfl hkind)
      · exact rg_raise hends h.1

end

end

/-! ### What a judgement has to know -/

/-- The status that a call has last written, and the job it has written it for. -/
abbrev LastStatus := Option (Text × JobState)

section
variable {A : Type}

/-- `At last` is what holds once the call has written `last`, `Torn` where its work on the job may have failed, and
`Left` wherever it may raise. -/
structure JobCourse [PyChars] (out : Outside) (δ : Stmt → World → World → A → A) (E : Env Stmt World Exc)
    (R G : World × A → World × A → Prop) (At : LastStatus → World × A → Prop) (Torn : Text → World × A → Prop)
    (Left : World × A → Prop) : Prop where
  refl : ∀ c, R c c
  stable : ∀ last, Stable R (At last)
  stable_left : Stable R Left
  quiet : ∀ last l f, Quiet l f → Moves δ (At last) G l f
  /-- Only an INSERT raises an `IntegrityError`. -/
  unique : ∀ l w e, E.fault l w e → e.kind ≠ .integrityError
  insert : ∀ source (row : Job) t c, row.status = .received → c.1.jobs.insert? row = some t → At none c →
    At (some (row.jobId, .received)) ({ c.1 with jobs := t }, δ (.insertJob source) c.1 { c.1 with jobs := t } c.2) ∧
      G c ({ c.1 with jobs := t }, δ (.insertJob source) c.1 { c.1 with jobs := t } c.2)
  refused : ∀ source c, At none c →
    At none (c.1, δ (.insertJob source) c.1 c.1 c.2) ∧ G c (c.1, δ (.insertJob source) c.1 c.1 c.2)
  start : ∀ jobId c, At none c →
    RG (E.watched A) R G (Ends (At (some (jobId, .processing))) (At none))
      (watch δ (JobStore.setStatus out jobId .processing [])) c
  move : ∀ jobId s new extra c, s ≠ .needsClarification → new ≠ .needsClarification → At (some (jobId, s)) c →
    RG (E.watched A) R G (Ends (At (some (jobId, new))) (At (some (jobId, s))))
      (watch δ (JobStore.setStatus out jobId new extra)) c
  ask : ∀ (job : Job) groups subject c, At (some (job.jobId, .processing)) c →
    RG (E.watched A) R G (Ends (At (some (job.jobId, .needsClarification))) (Torn job.jobId))
      (watch δ (askForGroup out job groups subject)) c
  fail : ∀ jobId extra c, Torn jobId c →
    RG (E.watched A) R G (Ends (At (some (jobId, .failed))) Left)
      (watch δ (JobStore.setStatus out jobId .failed extra)) c
  torn : ∀ jobId s c, s ≠ .needsClarification → At (some (jobId, s)) c → Torn jobId c
  left : ∀ last c, At last c → Left c

variable {δ : Stmt → World → World → A → A} {E : Env Stmt World Exc} {R G : World × A → World × A → Prop}
  {At : LastStatus → World × A → Prop} {Torn : Text → World × A → Prop} {Left : World × A → Prop}

/-- The call has left its job, and no call is at work on it. -/
def Finished (At : LastStatus → World × A → Prop) (c : World × A) : Prop :=
  ∃ jobId s, ¬ JobState.AtWork s ∧ At (some (jobId, s)) c

namespace JobCourse
variable [PyChars] {out : Outside}

/-- The judgement of a program of the call. -/
abbrev Judges (_ : JobCourse out δ E R G At Torn Left) {α : Type} (Q : Except Exc α → World × A → Prop) (p : M α)
    (c : World × A) : Prop :=
  RG (E.watched A) R G Q (watch δ p) c

variable (H : JobCourse out δ E R G At Torn Left)
include H

theorem still {α : Type} {p : M α} (hp : Always Quiet p) {last : LastStatus} {c : World × A} (hc : At last c) :
    H.Judges (fun _ => At last) p c :=
  (hp.mono fun l f hf => H.quiet last l f hf).moves (H.stable last) hc

theorem getJob (jobId : Text) {last : LastStatus} {c : World × A} (hc : At last c) :
    H.Judges (fun x c => At last c ∧ ∀ job, x = .ok (some job) → job.jobId = jobId) (JobStore.get jobId) c :=
  (getJob_rg (H.stable last) (H.quiet last _ _ (covers_quiet.look _ rfl)) jobId hc).mono (fun _ _ h => h)
    fun _ _ h => ⟨h.1, h.2.1⟩

theorem bind {α β : Type} {Q : Except Exc β → World × A → Prop} {M' : Except Exc α → World × A → Prop} {p : M α}
    {g : α → M β} {c : World × A} (hp : H.Judges M' p c) (hok : ∀ a c, M' (.ok a) c → H.Judges Q (g a) c)
    (herr : ∀ e c, M' (.error e) c → Q (.error e) c) : H.Judges Q (p.bind g) c :=
  rg_watch_bind H.refl hp hok herr

theorem after {α β : Type} {Q B : World × A → Prop} {p : M α} (hp : Always Quiet p) {g : α → M β} {last : LastStatus}
    {c : World × A} (hc : At last c) (hok : ∀ a c, At last c → H.Judges (Ends Q B) (g a) c)
    (herr : ∀ c, At last c → B c) : H.Judges (Ends Q B) (p.bind g) c :=
  H.bind (H.still hp hc) hok fun _ => herr

theorem finish {α : Type} {B : World × A → Prop} {p : M α} (hp : Always Quiet p) {jobId : Text} {s : JobState}
    (hs : ¬ s.AtWork) {c : World × A} (hc : At (some (jobId, s)) c) (herr : ∀ c, At (some (jobId, s)) c → B c) :
    H.Judges (Ends (Finished At) B) p c := by
  refine (H.still hp hc).mono (fun _ _ h => h) fun x c hc => ?_
  cases x with
  | ok a => exact ⟨jobId, s, hs, hc⟩
  | error e => exact herr c hc

/-! ### Creating -/

theorem createJob_course (senderEmail : Text) (userId : Nat) (sourceMessageId operation : Text)
    (fields : List JobField) {c : World × A} (hc : At none c) :
    H.Judges (fun x c => Left c ∧ ∀ job, x = .ok (some job) → At (some (job.jobId, .received)) c)
      (JobStore.createJob out senderEmail userId sourceMessageId operation fields) c := by
  refine createJob_rg (N := fun jobId => At (some (jobId, .received))) out H.refl (H.stable none) (fun _ => H.stable _)
    H.stable_left (H.left none) (fun _ => H.left _) (H.quiet none _ _ covers_quiet.tick)
    (fun _ => H.quiet _ _ _ (covers_quiet.look _ rfl)) H.unique (fun createdAt jobId t c hinsert hc => ?_)
    (H.refused sourceMessageId) hc
  have hrow := H.insert sourceMessageId _ t c (Job.setAll_status _ fields) hinsert hc
  rwa [JobStore.received, Job.setAll_jobId] at hrow

/-! ### Accepting -/

theorem moved {jobId : Text} {s : JobState} (new : JobState) (extra : List JobField) (hs : s ≠ .needsClarification)
    (hnew : new ≠ .needsClarification) {α : Type} {Q B : World × A → Prop} {g : Unit → M α} {c : World × A}
    (hc : At (some (jobId, s)) c) (hok : ∀ c, At (some (jobId, new)) c → H.Judges (Ends Q B) (g ()) c)
    (herr : ∀ c, At (some (jobId, s)) c → B c) :
    H.Judges (Ends Q B) ((JobStore.setStatus out jobId new extra).bind g) c :=
  H.bind (H.move jobId s new extra c hs hnew hc) (fun _ => hok) fun _ => herr

section
variable (cmd : ValidatedCommand) (req : Request)

theorem created_course {α : Type} {c : World × A} (hc : At none c) (senderEmail : Text) (userId : Nat)
    (sourceMessageId operation : Text) (fields : List JobField) {g : Text → M α}
    (hg : ∀ jobId c, At (some (jobId, .received)) c → H.Judges (Ends (Finished At) Left) (g jobId) c) :
    H.Judges (Ends (Finished At) Left) ((JobStore.createJob out senderEmail userId sourceMessageId operation
      fields).bind fun job => (createdJobId job).bind g) c := by
  refine H.bind (H.createJob_course senderEmail userId sourceMessageId operation fields hc) (fun job c hc => ?_)
    fun _ _ hc => hc.1
  cases job with
  | none => exact fun c' hcc' => H.stable_left c c' hcc' hc.1
  | some job => exact hg job.jobId c (hc.2 job rfl)

theorem assessAccept_course (userId : Nat) (sourceMessageId : Text) {c : World × A} (hc : At none c) :
    H.Judges (Ends (Finished At) Left) (AssessQuery.accept out cmd req userId sourceMessageId) c := by
  refine H.created_course hc _ _ _ _ _ fun jobId c hc => ?_
  refine H.moved .validating [] (by decide) (by decide) hc (fun c hc => ?_) (H.left _)
  refine H.moved .queued [] (by decide) (by decide) hc (fun c hc => ?_) (H.left _)
  refine H.finish ?_ (by decide) hc (H.left _)
  exact (enqueue_quiet out req _ _ _).bind fun _ => trivial

theorem acceptParsed_course (jobId filename : Text) (receivedAt : Datetime) (vtt : ParsedVtt) {c : World × A}
    (hc : At (some (jobId, .validating)) c) : H.Judges (Ends (Finished At) Left)
      (SubmitTranscript.acceptParsed out cmd req jobId filename receivedAt vtt) c := by
  refine H.after (always_ofExcept _) hc (fun date c hc => ?_) (H.left _)
  refine H.after (update_quiet _ _) hc (fun _ c hc => ?_) (H.left _)
  refine H.moved .queued [] (by decide) (by decide) hc (fun c hc => ?_) (H.left _)
  refine H.finish ?_ (by decide) hc (H.left _)
  exact (enqueue_quiet out req _ _ _).bind fun _ => trivial

theorem acceptFailed_course (storage : StorageSettings) (jobId storedPath : Text) (e : Exc) {c : World × A}
    (hc : At (some (jobId, .validating)) c) : H.Judges (Ends (Finished At) Left)
      (SubmitTranscript.acceptFailed out req storage jobId storedPath e) c := by
  refine H.moved .failed _ (by decide) (by decide) hc (fun c hc => ?_) (H.left _)
  refine H.finish ?_ (by decide) hc (H.left _)
  have hmove := SubmitTranscript.moveFailed_quiet storage jobId storedPath
  exact (hmove.bind fun _ => enqueue_quiet out req _ _ _).bind fun _ => trivial

theorem submitAccept_course (storage : StorageSettings) (attachments : List Attachment) (userId : Nat)
    (sourceMessageId : Text) (receivedAt : Datetime) {c : World × A} (hc : At none c) :
    H.Judges (Ends (Finished At) Left)
      (SubmitTranscript.accept out cmd req storage attachments userId sourceMessageId receivedAt) c := by
  have hraise : ∀ e, H.Judges (Ends (Finished At) Left) (raise e : M HandlerOutcome) c :=
    fun e c' hcc' => H.stable_left c c' hcc' (H.left _ c hc)
  unfold SubmitTranscript.accept
  cases cmd.attachment with
  | none => exact hraise _
  | some chosen =>
    simp only
    cases attachments.find? fun a => a.filename = chosen.filename with
    | none => exact hraise _
    | some attachment =>
      refine H.created_course hc _ _ _ _ _ fun jobId c hc => ?_
      refine H.moved .validating [] (by decide) (by decide) hc (fun c hc => ?_) (H.left _)
      refine H.after (saveIncoming_always covers_quiet out _ _ _) hc (fun storedPath c hc => ?_) (H.left _)
      refine H.after (update_quiet _ _) hc (fun _ c hc => ?_) (H.left _)
      have hparse := catching_always [.vttParseError] (parseVtt_always covers_quiet out storedPath)
      refine H.after hparse hc (fun parsed c hc => ?_) (H.left _)
      cases parsed with
      | ok vtt => exact H.acceptParsed_course cmd req jobId _ _ vtt hc
      | error e => exact H.acceptFailed_course req storage jobId storedPath e hc

end

/-! ### Executing -/

section
variable (worker : JobWorker) (job : Job)

theorem ask_course (groups : List GroupSummary) (subject : Text) {c : World × A}
    (hc : At (some (job.jobId, .processing)) c) :
    H.Judges (Ends (Finished At) (Torn job.jobId)) (askForGroup out job groups subject) c := by
  refine (H.ask job groups subject c hc).mono (fun _ _ h => h) fun x c hc => ?_
  cases x with
  | ok _ => exact ⟨job.jobId, .needsClarification, by decide, hc⟩
  | error e => exact hc

theorem submitAttempt_course {c : World × A} (hc : At (some (job.jobId, .processing)) c) :
    H.Judges (Ends (Finished At) (Torn job.jobId)) (SubmitTranscript.attempt out worker job) c := by
  have htorn : ∀ c, At (some (job.jobId, .processing)) c → Torn job.jobId c := fun c => H.torn _ _ c (by decide)
  refine H.after (groupsOf_always coversCalls_quiet _ _) hc (fun found c hc => ?_) htorn
  cases matchGroup job.groupHint found.2 with
  | noMatch => exact H.ask_course job _ _ hc
  | ambiguous candidates => exact H.ask_course job _ _ hc
  | matched group =>
    refine H.after (SubmitTranscript.submit_always coversCalls_quiet out (covers_quiet.look _ rfl) _ _ _ _) hc
      (fun submitted c hc => ?_) htorn
    refine H.after (update_quiet _ _) hc (fun _ c hc => ?_) htorn
    refine H.moved .completed [] (by decide) (by decide) hc (fun c hc => ?_) htorn
    have hmove := SubmitTranscript.moveStored_quiet job worker.storage.completed
    exact H.finish (hmove.bind fun _ => enqueue_quiet out _ _ _ _) (by decide) hc fun c => H.torn _ _ c (by decide)

theorem refreshed_course {c : World × A} (hc : At (some (job.jobId, .processing)) c) :
    H.Judges (fun x c => At (some (job.jobId, .processing)) c ∧ ∀ current, x = .ok (some current) →
      current.jobId = job.jobId) (SubmitTranscript.refreshed worker job) c := by
  unfold SubmitTranscript.refreshed
  cases truthy job.attachmentStoragePath with
  | none =>
    refine fun c' hcc' => ⟨H.stable _ c c' hcc' hc, fun current hcurrent => ?_⟩
    rw [Option.some.inj (Except.ok.inj hcurrent)]
  | some path =>
    have herr : ∀ e c, At (some (job.jobId, .processing)) c → At (some (job.jobId, .processing)) c ∧
        ∀ current, (Except.error e : Except Exc (Option Job)) = .ok (some current) → current.jobId = job.jobId :=
      fun e c hc => ⟨hc, fun current h => by cases h⟩
    refine H.bind (H.still (moveTo_always covers_quiet _ _) hc) (fun moved c hc => ?_) herr
    refine H.bind (H.still (update_quiet _ _) hc) (fun _ c hc => ?_) herr
    exact H.getJob job.jobId hc

theorem submitExecute_course {c : World × A} (hc : At none c) :
    H.Judges (Ends (Finished At) Left) (SubmitTranscript.execute out worker job) c := by
  refine H.bind (H.start job.jobId c hc) (fun _ c hc => ?_) fun _ c => H.left _ c
  refine H.bind (H.refreshed_course worker job hc) (fun current c hc => ?_) fun _ c hc => H.left _ c hc.1
  cases current with
  | none => exact fun c' hcc' => H.stable_left c c' hcc' (H.left _ c hc.1)
  | some current =>
    have hat : At (some (current.jobId, .processing)) c := by
      rw [hc.2 current rfl]
      exact hc.1
    refine rg_watch_tryCatch H.refl (H.submitAttempt_course worker current hat) (fun _ c hc => hc) fun e c hc => ?_
    refine H.bind (H.fail current.jobId _ c hc) (fun _ c hc => ?_) fun _ c hc => hc
    have hmove := SubmitTranscript.moveFailedFile_quiet worker.storage current
    exact H.finish (hmove.bind fun _ => reportFailure_quiet out _ _ _ _ _ _) (by decide) hc (H.left _)

theorem assessConclude_course (group : GroupSummary) (transcripts repository : AssessQuery.SourceAnswer) {c : World × A}
    (hc : At (some (job.jobId, .processing)) c) : H.Judges (Ends (Finished At) (Torn job.jobId))
      (AssessQuery.conclude out worker job group transcripts repository) c := by
  have htorn : ∀ s c, s ≠ .needsClarification → At (some (job.jobId, s)) c → Torn job.jobId c :=
    fun s c => H.torn _ s c
  unfold AssessQuery.conclude
  simp only
  split_ifs
  · refine H.moved .failed _ (by decide) (by decide) hc (fun c hc => ?_) fun c => htorn _ c (by decide)
    exact H.finish (reportFailure_quiet out _ _ _ _ _ _) (by decide) hc fun c => htorn _ c (by decide)
  · refine H.moved .completed [] (by decide) (by decide) hc (fun c hc => ?_) fun c => htorn _ c (by decide)
    exact H.finish (enqueue_quiet out _ _ _ _) (by decide) hc fun c => htorn _ c (by decide)

theorem assessAttempt_course {c : World × A} (hc : At (some (job.jobId, .processing)) c) :
    H.Judges (Ends (Finished At) (Torn job.jobId)) (AssessQuery.attempt out worker job) c := by
  have htorn : ∀ c, At (some (job.jobId, .processing)) c → Torn job.jobId c := fun c => H.torn _ _ c (by decide)
  refine H.after (groupsOf_always coversCalls_quiet _ _) hc (fun found c hc => ?_) htorn
  cases matchGroup job.groupHint found.2 with
  | noMatch => exact H.ask_course job _ _ hc
  | ambiguous candidates => exact H.ask_course job _ _ hc
  | matched group =>
    refine H.after (AssessQuery.askTranscripts_always coversCalls_quiet out coversModel_quiet _ _ _ _) hc
      (fun transcripts c hc => ?_) htorn
    refine H.after (AssessQuery.askRepository_always coversCalls_quiet _ _ _) hc (fun repository c hc => ?_) htorn
    exact H.assessConclude_course worker job group transcripts repository hc

theorem assessExecute_course {c : World × A} (hc : At none c) :
    H.Judges (Ends (Finished At) Left) (AssessQuery.execute out worker job) c := by
  refine H.bind (H.start job.jobId c hc) (fun _ c hc => ?_) fun _ c => H.left _ c
  refine rg_watch_tryCatch H.refl (H.assessAttempt_course worker job hc) (fun _ c hc => hc) fun e c hc => ?_
  refine H.bind (H.fail job.jobId _ c hc) (fun _ c hc => ?_) fun _ c hc => hc
  exact H.finish (reportFailure_quiet out _ _ _ _ _ _) (by decide) hc (H.left _)

end

end JobCourse

end

end GroupAssessmentAgent
