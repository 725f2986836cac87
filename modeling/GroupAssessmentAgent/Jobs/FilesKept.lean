import GroupAssessmentAgent.Jobs.Executions
import GroupAssessmentAgent.Jobs.StoredFiles

/-!
# Row and file agree between calls

The calls of the two threads, statement by statement, inside the judgements of `StoredFiles`. All of `execute` keeps
what it knows of its job (`HoldsJob`): a move and the UPDATE after it lead back to it. `accept` creates a job, stores
its file and names it, and hands it over when it is in step. `files_agree` puts the calls together.
-/

namespace GroupAssessmentAgent
open Prog

/-- The judgement of a program of the thread, in a call that has received `content`. -/
abbrev FileJudge (out : Outside) (t : Thread) (content : Option Bytes) {α : Type} (Q : Except Exc α → FileState → Prop)
    (p : M α) (c : FileState) : Prop :=
  RG (StoresHold.watched FileHistory) (RelyFiled out t) (RelyFiled out t.other) Q (watch (recordFiles content) p) c

section
variable {out : Outside} {t : Thread} {content : Option Bytes} {α β : Type} {P Q : FileState → Prop} {c : FileState}

theorem FileJudge.then {p : M α} {g : α → M β} (hp : FileJudge out t content (fun _ => P) p c)
    (hg : ∀ a c, P c → FileJudge out t content (fun _ => Q) (g a) c) (hPQ : ∀ c, P c → Q c) :
    FileJudge out t content (fun _ => Q) (p.bind g) c :=
  rg_watch_bind relyFiled_refl hp hg fun _ => hPQ

theorem FileJudge.done (hP : KnownFile out t P) (a : α) (hc : P c) :
    FileJudge out t content (fun _ => P) (ret a : M α) c :=
  rg_ret (fun _ => hP.stable) hc

theorem FileJudge.weaken {p : M α} (hp : FileJudge out t content (fun _ => P) p c) (hPQ : ∀ c, P c → Q c) :
    FileJudge out t content (fun _ => Q) p c :=
  hp.mono (fun _ _ h => h) fun _ => hPQ

theorem KnownFile.calm (hP : KnownFile out t P) {p : M α} (hp : Always Calm p) (hc : P c) :
    FileJudge out t content (fun _ => P) p c := by
  have hmoves : Always (Moves (recordFiles content) P (RelyFiled out t.other)) p := hp.mono fun l f hf c hc =>
    ⟨hP.same c _ (hf.same content (hP.filed c hc)) (hf.filed content (hP.filed c hc)) hc,
      fun hfiled => (hf.same content hfiled).rely (hf.filed content hfiled)⟩
  exact hmoves.moves hP.stable hc

/-- The mail thread may queue its jobs while they are in step. -/
theorem release_rg {p : M α} (hp : Always Silent p) (hc : FilesSettled out .mail c) :
    FileJudge out .mail content (fun _ => FilesSettled out .mail) p c := by
  have hmoves : Always (Moves (recordFiles content) (FilesSettled out .mail) (RelyFiled out .worker)) p :=
    hp.mono fun l f hf c hc => ⟨(hf.release content hc).1, fun _ => (hf.release content hc).2⟩
  exact hmoves.moves settled_stable hc

end

/-! ### Calm statements -/

theorem Calm.of_tables {l : Stmt} {f : World → World} (hl : l.addsJob = false)
    (hf : ∀ w, (f w).jobs = w.jobs ∧ (f w).files = w.files ∧ (f w).uuids = w.uuids) : Calm l f where
  label := hl
  files w := (hf w).2.1
  uuids w := (hf w).2.2
  path w i := by rw [pathOf, (hf w).1, pathOf]
  there w i hi := by rwa [HasJob, (hf w).1]
  queued w i hi := by rwa [statusOf, (hf w).1] at hi

theorem calm_look {l : Stmt} (hl : l.looks = true) : Calm l id :=
  .of_tables (by cases l <;> first | rfl | cases hl) fun _ => ⟨rfl, rfl, rfl⟩

theorem calm_tick : Calm .clock World.tick := .of_tables rfl fun _ => ⟨rfl, rfl, rfl⟩

theorem coversCalls_calm : CoversCalls Calm := fun _ => .of_tables rfl fun _ => ⟨rfl, rfl, rfl⟩

/-- An assignment to another column than that of the path. -/
def JobField.KeepsPath (v : JobField) : Prop := ∀ j : Job, (j.set v).attachmentStoragePath = j.attachmentStoragePath

theorem JobField.IsStamp.keepsPath {v : JobField} (hv : v.IsStamp) : v.KeepsPath := by
  cases v <;> first | exact fun _ => rfl | simp [IsStamp, isStartedAt, isCompletedAt] at hv

theorem setAll_keepsPath {fields : List JobField} (hfields : ∀ v ∈ fields, v.KeepsPath) (j : Job) :
    (j.setAll fields).attachmentStoragePath = j.attachmentStoragePath :=
  Job.setAll_keeps hfields j

theorem silent_modify {l : Stmt} (hl : l.addsJob = false) (jobId : Text) {f : Job → Job}
    (hf : ∀ j, (f j).jobId = j.jobId) (hpath : ∀ j, (f j).attachmentStoragePath = j.attachmentStoragePath) :
    Silent l fun w => w.modifyJob jobId f hf where
  label := hl
  files _ := rfl
  uuids _ := rfl
  path w i := by
    simp only [pathOf, World.modifyJob, Table.find?_modify]
    split_ifs
    · cases w.jobs.find? i with
      | none => rfl
      | some j => exact hpath j
    · rfl
  there w i := (hasJob_modify w jobId f hf i).2

theorem update_calm (jobId : Text) {fields : List JobField} (hfields : ∀ v ∈ fields, v.KeepsPath) :
    Always Calm (JobStore.update jobId fields) := by
  unfold JobStore.update
  split_ifs
  · trivial
  · refine always_change ⟨silent_modify rfl jobId _ (setAll_keepsPath hfields), fun w i hi => ?_⟩
    exact (statusOf_writeJob w jobId fields i).symm.trans hi

section
variable (out : Outside)

theorem silent_writeStatus (jobId : Text) (current new : JobState) {fields : List JobField}
    (hfields : ∀ v ∈ fields, v.KeepsPath) :
    Silent (.updateStatus jobId current new) fun w => w.writeStatus jobId new fields :=
  silent_modify rfl jobId _ fun _ => setAll_keepsPath hfields _

theorem setStatus_silent (jobId : Text) (new : JobState) : Always Silent (JobStore.setStatus out jobId new []) :=
  setStatus_steps out (fun _ hv => hv.keepsPath) (calm_look rfl).toSilent calm_tick.toSilent (List.forall_mem_nil _)
    fun current _ hfields => silent_writeStatus jobId current new hfields

theorem setStatus_calm (jobId : Text) {new : JobState} (hnew : new ≠ .queued) {extra : List JobField}
    (hextra : ∀ v ∈ extra, v.KeepsPath) : Always Calm (JobStore.setStatus out jobId new extra) := by
  refine setStatus_steps out (fun _ hv => hv.keepsPath) (calm_look rfl) calm_tick hextra fun current fields hfields =>
    ⟨silent_writeStatus jobId current new hfields, fun w i hi => ?_⟩
  rw [statusOf_writeStatus] at hi
  split_ifs at hi
  · obtain ⟨_, _, hqueued⟩ := Option.map_eq_some_iff.1 hi
    exact absurd hqueued hnew
  · exact hi

theorem utcnow_calm : Always Calm (utcnow out) := always_atomic calm_tick

theorem enqueue_calm (toEmail subject bodyText : Text) (jobId : Option Text) (attachments : List Text)
    (inReplyTo references : Option Text) :
    Always Calm (Outbox.enqueue out toEmail subject bodyText jobId attachments inReplyTo references) :=
  (utcnow_calm out).bind fun _ => always_atomic (.of_tables rfl fun _ => ⟨rfl, rfl, rfl⟩)

theorem mail_calm (req : Request) (mail : Rendered) (jobId : Option Text) (paths : List Text) :
    Always Calm (req.enqueue out mail jobId paths) :=
  (enqueue_calm out _ _ _ _ _ _ _).bind fun _ => trivial

theorem alert_calm (n : AdminNotifier) (category : AdminCategory) (summary : Text) (detail : List (Text × Text)) :
    Always Calm (n.alert out category summary detail) := by
  unfold AdminNotifier.alert
  cases truthy n.adminEmail with
  | none => trivial
  | some adminEmail =>
    have hdue : Always Calm (n.shouldSend out category) := by
      refine Always.bind (always_observe (.of_tables rfl fun _ => ⟨rfl, rfl, rfl⟩) _) fun row => ?_
      cases row with
      | none => trivial
      | some row => exact (utcnow_calm out).bind fun _ => trivial
    refine hdue.bind fun due => ?_
    split_ifs
    · refine (enqueue_calm out _ _ _ _ _ _ _).bind fun _ => Always.bind ?_ fun _ => trivial
      exact (utcnow_calm out).bind fun _ => always_change (.of_tables rfl fun _ => ⟨rfl, rfl, rfl⟩)
    · trivial

theorem reportFailure_calm (admin : AdminNotifier) (job : Job) (userReason : Text) (category : AdminCategory)
    (summary reason : Text) : Always Calm (reportFailure out admin job userReason category summary reason) :=
  (mail_calm out _ _ _ _).bind fun _ => (alert_calm out admin _ _ _).bind fun _ => trivial

theorem askForGroup_calm (job : Job) (groups : List GroupSummary) (subject : Text) :
    Always Calm (askForGroup out job groups subject) := by
  refine (setStatus_calm out job.jobId (by decide) (List.forall_mem_nil _)).bind fun _ =>
    Always.bind ?_ fun _ => mail_calm out _ _ _ _
  exact (utcnow_calm out).bind fun _ => always_change (.of_tables rfl fun _ => ⟨rfl, rfl, rfl⟩)

theorem parseVtt_calm [PyChars] (path : Text) : Always Calm (parseVtt out path) :=
  (always_observeE (calm_look rfl) _).bind fun _ => (always_ofExcept _).bind fun _ => always_ofExcept _

theorem conclude_calm (msg : EmailMessage) (outcome : Text) (jobId operation : Option Text) :
    Always Calm (EmailProcessingPipeline.conclude out msg outcome jobId operation) := by
  refine Always.bind ((utcnow_calm out).bind fun _ => always_change (.of_tables rfl fun _ => ?_)) fun _ =>
    always_change (.of_tables rfl fun _ => ?_)
  · exact ⟨rfl, rfl, rfl⟩
  · exact ⟨rfl, rfl, rfl⟩

end

/-! ### A move and the name of the file -/

section
variable {out : Outside} {t : Thread} {content : Option Bytes} {jobId : Text} {c : FileState}

theorem HoldsJob.rename {p q : Text} (h : HoldsJob out t jobId (some p) c) (hname : pathName p = pathName q) :
    HoldsJob out t jobId (some q) c := by
  obtain ⟨r, hr, hrp⟩ := h.path p rfl
  refine ⟨h.settled, h.owns, h.there, fun q' hq' => ⟨r, hr, ?_⟩⟩
  rw [← Option.some.inj hq', ← hname, hrp]

theorem place_rg {q : Text} (hc : Placed out t jobId q c) :
    FileJudge out t content (fun _ => HoldsJob out t jobId (some q))
      (JobStore.update jobId [.attachmentStoragePath (some q)]) c := by
  rw [FileJudge, JobStore.update, if_neg (List.cons_ne_nil _ _), watch_change]
  refine rg_change (Placed.stable jobId q) (fun _ => (known_holdsJob jobId _).stable) (fun c hc _ => ?_)
    (fun c e _ he => ?_) hc
  · obtain ⟨hnext, hrely⟩ := hc.place content rfl
    exact ⟨fun _ => hrely, hnext⟩
  · cases he.1

theorem moveTo_rg {path : Text} (dir : Text) (hc : HoldsJob out t jobId (some path) c) :
    FileJudge out t content (fun x c =>
        (∀ dest, x = .ok dest → pathName dest = pathName path ∧ Placed out t jobId dest c) ∧
          ∀ e, x = .error e → HoldsJob out t jobId (some path) c)
      (moveTo path dir) c := by
  have hknown : KnownFile out t (HoldsJob out t jobId (some path)) := known_holdsJob jobId _
  have hends : ∀ x : Except Exc Text, Stable (RelyFiled out t) fun c =>
      (∀ dest, x = .ok dest → pathName dest = pathName path ∧ Placed out t jobId dest c) ∧
        ∀ e, x = .error e → HoldsJob out t jobId (some path) c := fun x c c' hcc' h =>
    ⟨fun dest hx => ⟨(h.1 dest hx).1, Placed.stable _ _ c c' hcc' (h.1 dest hx).2⟩,
      fun e hx => hknown.stable c c' hcc' (h.2 e hx)⟩
  rw [FileJudge, moveTo, watch_atomic]
  refine rg_atomic hknown.stable hends (fun c hc _ => ?_)
    (fun c e hc _ => ⟨fun _ hx => (by cases hx), fun _ _ => hc⟩) hc
  simp only
  split
  · next f hfind =>
    have hdest : pathName (joinPath dir (pathName path)) = pathName path := pathName_joinPath dir (slash_pathName path)
    obtain ⟨hplaced, hrely⟩ := hc.move hfind content hdest rfl
    refine ⟨fun _ => hrely, fun dest hx => ?_, fun _ hx => by cases hx⟩
    rw [← Except.ok.inj hx]
    exact ⟨hdest, hplaced⟩
  · have hcalm : Calm .moveFile id := .of_tables rfl fun _ => ⟨rfl, rfl, rfl⟩
    have hfiled' := hcalm.filed content hc.settled.1
    have hsame := hcalm.same content hc.settled.1
    exact ⟨fun _ => hsame.rely hfiled', fun _ hx => (by cases hx), fun _ _ => hknown.same c _ hsame hfiled' hc⟩

theorem relocate_rg {path : Text} (dir : Text) (hc : HoldsJob out t jobId (some path) c) :
    FileJudge out t content (fun _ => HoldsJob out t jobId (some path)) (do
      let moved ← moveTo path dir
      JobStore.update jobId [.attachmentStoragePath (some moved)]) c := by
  refine rg_watch_bind relyFiled_refl (moveTo_rg dir hc) (fun moved c hc => ?_) fun e c hc => hc.2 e rfl
  obtain ⟨hname, hplaced⟩ := hc.1 moved rfl
  exact (place_rg hplaced).weaken fun c hc => hc.rename hname

theorem moveFailed_rg (storage : StorageSettings) {path : Text} (hc : HoldsJob out t jobId (some path) c) :
    FileJudge out t content (fun _ => HoldsJob out t jobId (some path))
      (SubmitTranscript.moveFailed storage jobId path) c := by
  have hknown : KnownFile out t (HoldsJob out t jobId (some path)) := known_holdsJob jobId _
  refine (hknown.calm (always_observe (calm_look rfl) _) hc).then (fun found c hc => ?_) fun _ => id
  split_ifs
  · exact relocate_rg storage.failed hc
  · exact .done hknown () hc

end

/-! ### Executing -/

section
variable [PyChars] {out : Outside} {content : Option Bytes} (worker : JobWorker) {job : Job} {c : FileState}

/-- What the worker knows of the job whose row it has. -/
abbrev HoldsRow (out : Outside) (job : Job) : FileState → Prop :=
  HoldsJob out .worker job.jobId job.attachmentStoragePath

omit [PyChars] in
theorem known_holdsRow : KnownFile out .worker (HoldsRow out job) := known_holdsJob _ _

namespace SubmitTranscript

omit [PyChars] in
theorem holdsRow_path {path : Text} (hpath : truthy job.attachmentStoragePath = some path) (c : FileState) :
    HoldsRow out job c ↔ HoldsJob out .worker job.jobId (some path) c := by
  rw [HoldsRow, (truthy_eq_some.1 hpath).1]

omit [PyChars] in
theorem moveStored_rg (dir : Text) (hc : HoldsRow out job c) :
    FileJudge out .worker content (fun _ => HoldsRow out job) (moveStored job dir) c := by
  unfold moveStored
  cases hpath : truthy job.attachmentStoragePath with
  | none => exact .done known_holdsRow () hc
  | some path => exact (relocate_rg dir ((holdsRow_path hpath c).1 hc)).weaken fun c => (holdsRow_path hpath c).2

omit [PyChars] in
theorem moveFailedFile_rg (storage : StorageSettings) (hc : HoldsRow out job c) :
    FileJudge out .worker content (fun _ => HoldsRow out job) (moveFailedFile storage job) c := by
  unfold moveFailedFile
  cases hpath : truthy job.attachmentStoragePath with
  | none => exact .done known_holdsRow () hc
  | some path => exact (moveFailed_rg storage ((holdsRow_path hpath c).1 hc)).weaken fun c => (holdsRow_path hpath c).2

omit [PyChars] in
theorem refreshed_rg (hc : HoldsRow out job c) : FileJudge out .worker content
    (fun x c => FilesSettled out .worker c ∧ ∀ current, x = .ok (some current) → HoldsRow out current c)
    (refreshed worker job) c := by
  unfold refreshed
  cases hpath : truthy job.attachmentStoragePath with
  | none =>
    refine fun c' hcc' => ⟨(known_holdsRow.stable c c' hcc' hc).settled, fun current hx => ?_⟩
    rw [← Option.some.inj (Except.ok.inj hx)]
    exact known_holdsRow.stable c c' hcc' hc
  | some path =>
    have hstep : FileJudge out .worker content _ _ c :=
      relocate_rg worker.storage.processing ((holdsRow_path hpath c).1 hc)
    simp only [bind_eq, ← bind_assoc] at hstep ⊢
    refine rg_watch_bind relyFiled_refl hstep (fun _ c hc => ?_) fun _ _ hc => ⟨hc.settled, fun _ hx => by cases hx⟩
    have hknown : KnownFile out .worker (HoldsJob out .worker job.jobId (some path)) := known_holdsJob _ _
    have hends : ∀ x : Except Exc (Option Job), Stable (RelyFiled out .worker) fun c =>
        FilesSettled out .worker c ∧ ∀ current, x = .ok (some current) → HoldsRow out current c := fun x c c' hcc' h =>
      ⟨settled_stable c c' hcc' h.1, fun current hx => known_holdsRow.stable c c' hcc' (h.2 current hx)⟩
    rw [JobStore.get, watch_observe]
    refine rg_atomic hknown.stable hends (fun c hc _ => ?_) (fun c e hc _ => ⟨hc.settled, fun _ hx => by cases hx⟩) hc
    have hcalm : Calm .selectJobs id := calm_look rfl
    have hfiled' := hcalm.filed content hc.settled.1
    have hsame := hcalm.same content hc.settled.1
    have hnext := hknown.same c _ hsame hfiled' hc
    refine ⟨fun _ => hsame.rely hfiled', hnext.settled, fun current hx => ?_⟩
    have hfind : c.1.jobs.find? job.jobId = some current := Except.ok.inj hx
    have hid : current.jobId = job.jobId := Table.find?_key hfind
    refine ⟨hnext.settled, hid ▸ hnext.owns, hid ▸ hnext.there, fun p hp => ⟨p, ?_, rfl⟩⟩
    rw [pathOf, hid]
    exact (congrArg (Option.bind · Job.attachmentStoragePath) hfind).trans hp

omit [PyChars] in
theorem complete_rg (storage : StorageSettings) (group : GroupSummary) (s : Submitted) (hc : HoldsRow out job c) :
    FileJudge out .worker content (fun _ => HoldsRow out job) (complete out storage job group s) c := by
  have hcolumns : Always Calm (JobStore.update job.jobId [.resolvedGroupId (some group.id),
      .resolvedGroupName (some group.name), .backendMeetingId (some s.meetingId), .backendRawFileId (some s.rawFileId),
      .resolvedAttendees s.resolvedAttendees, .unresolvedSpeakers s.unresolvedSpeakers]) :=
    update_calm _ (by simp [JobField.KeepsPath, Job.set])
  refine (known_holdsRow.calm hcolumns hc).then (fun _ c hc => ?_) fun _ => id
  refine (known_holdsRow.calm (setStatus_calm out _ (by decide) (List.forall_mem_nil _)) hc).then (fun _ c hc => ?_)
    fun _ => id
  refine (moveStored_rg storage.completed hc).then (fun _ c hc => ?_) fun _ => id
  exact known_holdsRow.calm (mail_calm out _ _ _ _) hc

theorem attempt_rg (hc : HoldsRow out job c) :
    FileJudge out .worker content (fun _ => HoldsRow out job) (attempt out worker job) c := by
  refine (known_holdsRow.calm (groupsOf_always coversCalls_calm _ job) hc).then (fun found c hc => ?_) fun _ => id
  cases matchGroup job.groupHint found.2 with
  | noMatch => exact known_holdsRow.calm (askForGroup_calm out job _ _) hc
  | ambiguous candidates => exact known_holdsRow.calm (askForGroup_calm out job _ _) hc
  | matched group =>
    have hsubmit := submit_always coversCalls_calm out (calm_look rfl) worker.diarisation job found.1 group
    exact (known_holdsRow.calm hsubmit hc).then (fun s c hc => complete_rg worker.storage group s hc) fun _ => id

omit [PyChars] in
theorem handleExecuteFailure_rg (reason : Text) (hc : HoldsRow out job c) :
    FileJudge out .worker content (fun _ => HoldsRow out job) (handleExecuteFailure out worker job reason) c := by
  have hfailed : Always Calm (JobStore.setStatus out job.jobId .failed [.error (some reason)]) :=
    setStatus_calm out _ (by decide) (List.forall_mem_singleton.2 fun _ => rfl)
  refine (known_holdsRow.calm hfailed hc).then (fun _ c hc => ?_) fun _ => id
  refine (moveFailedFile_rg worker.storage hc).then (fun _ c hc => ?_) fun _ => id
  exact known_holdsRow.calm (reportFailure_calm out _ _ _ _ _ _) hc

theorem execute_rg (hc : HoldsRow out job c) :
    FileJudge out .worker content (fun _ => FilesSettled out .worker) (execute out worker job) c := by
  have hprocessing : Always Calm (JobStore.setStatus out job.jobId .processing []) :=
    setStatus_calm out _ (by decide) (List.forall_mem_nil _)
  refine rg_watch_bind relyFiled_refl (known_holdsRow.calm hprocessing hc)
    (fun _ c hc => ?_) fun _ _ hc => hc.settled
  refine rg_watch_bind relyFiled_refl (refreshed_rg worker hc) (fun current c hc => ?_) fun _ _ hc => hc.1
  cases current with
  | none => exact rg_raise (fun _ => settled_stable) hc.1
  | some current =>
    refine rg_watch_tryCatch relyFiled_refl (attempt_rg worker (hc.2 current rfl)) (fun _ _ hc => hc.settled)
      fun e c hc => ?_
    exact (handleExecuteFailure_rg worker _ hc).weaken fun _ hc => hc.settled

end SubmitTranscript

end

/-! ### Accepting -/

section
variable {out : Outside} (hnames : FreshNames out) {jobId : Text} {bytes : Bytes} {c : FileState}
include hnames

theorem saveIncoming_rg (name dir : Text) (hc : NewJob out jobId bytes c) :
    FileJudge out .mail (some bytes) (fun x c => (∀ path, x = .ok path → Placed out .mail jobId path c) ∧
      ∀ e, x = .error e → NewJob out jobId bytes c) (saveIncoming out bytes name dir) c := by
  have hends : ∀ x : Except Exc Text, Stable (RelyFiled out .mail) fun c =>
      (∀ path, x = .ok path → Placed out .mail jobId path c) ∧ ∀ e, x = .error e → NewJob out jobId bytes c :=
    fun x c c' hcc' h => ⟨fun path hx => Placed.stable _ _ c c' hcc' (h.1 path hx),
      fun e hx => (known_newJob jobId bytes).stable c c' hcc' (h.2 e hx)⟩
  rw [FileJudge, saveIncoming, watch_atomic]
  refine rg_atomic (known_newJob jobId bytes).stable hends (fun c hc _ => ?_)
    (fun c e hc _ => ⟨fun _ hx => (by cases hx), fun _ _ => hc⟩) hc
  have hsafe : '/' ∉ orText (out.secureFilename name) "attachment" := by
    unfold orText
    split_ifs
    · decide
    · exact hnames.safe name
  obtain ⟨hplaced, hrely⟩ := hc.save hnames (some bytes) dir hsafe rfl rfl
  refine ⟨fun _ => hrely, fun path hx => ?_, fun _ hx => by cases hx⟩
  rw [← Except.ok.inj hx]
  exact hplaced

omit hnames in
theorem createJob_files {content : Option Bytes} (hcontent : content = some bytes) (senderEmail : Text) (userId : Nat)
    (sourceMessageId : Text) (groupHint filename : Option Text) (hc : FilesSettled out .mail c) :
    FileJudge out .mail content
      (fun x c => FilesSettled out .mail c ∧ ∀ job, x = .ok (some job) → NewJob out job.jobId bytes c)
      (JobStore.createJob out senderEmail userId sourceMessageId "submit_transcript"
        [.groupHint groupHint, .attachmentFilename filename]) c := by
  have hlook : ∀ jobId,
      Moves (recordFiles content) (NewJob out jobId bytes) (RelyFiled out .worker) .selectJobs id := by
    intro jobId c hc
    have hcalm : Calm .selectJobs id := calm_look rfl
    have hsame := hcalm.same content hc.settled.1
    have hfiled' := hcalm.filed content hc.settled.1
    exact ⟨(known_newJob jobId bytes).same c _ hsame hfiled' hc, fun _ => hsame.rely hfiled'⟩
  refine createJob_rg (E := StoresHold) (N := fun jobId => NewJob out jobId bytes) out relyFiled_refl settled_stable
    (fun jobId => (known_newJob jobId bytes).stable) settled_stable (fun _ hc => hc) (fun _ _ hc => hc.settled)
    (fun c hc => ?_) hlook (fun _ _ _ h => h.2) (fun createdAt jobId jobs c hinsert hc => ?_) (fun c hc => ?_) hc
  · have hcalm := calm_tick
    have hsame := hcalm.same content hc.1
    exact ⟨hsame.settled (hcalm.filed content hc.1) hc, fun _ => hsame.rely (hcalm.filed content hc.1)⟩
  · obtain ⟨hnew, hrely⟩ := hc.insert bytes sourceMessageId rfl rfl hinsert rfl
    rw [hcontent]
    exact ⟨hnew, fun _ => hrely⟩
  · obtain ⟨hkeep, hrely⟩ := hc.refused content sourceMessageId
    exact ⟨hkeep, fun _ => hrely⟩

section
variable [PyChars] (cmd : ValidatedCommand) (req : Request)

omit hnames in
omit [PyChars] in
theorem acceptParsed_rg {content : Option Bytes} (filename : Text) (receivedAt : Datetime) (vtt : ParsedVtt)
    (hc : FilesSettled out .mail c) : FileJudge out .mail content (fun _ => FilesSettled out .mail)
      (SubmitTranscript.acceptParsed out cmd req jobId filename receivedAt vtt) c := by
  have hcolumns : ∀ date : Datetime × Text, Always Calm (JobStore.update jobId
      [.speakers vtt.speakers, .meetingDate (some date.1), .meetingDateSource (some date.2)]) :=
    fun date => update_calm _ (by simp [JobField.KeepsPath, Job.set])
  refine release_rg (Always.bind (always_ofExcept _) fun date => ?_) hc
  refine Always.bind ((hcolumns date).mono fun _ _ hf => hf.toSilent) fun _ => ?_
  refine (setStatus_silent out jobId .queued).bind fun _ => ?_
  exact ((mail_calm out req _ _ _).mono fun _ _ hf => hf.toSilent).bind fun _ => trivial

omit hnames in
omit [PyChars] in
theorem acceptFailed_rg {content : Option Bytes} (storage : StorageSettings) {path : Text} (e : Exc)
    (hc : HoldsJob out .mail jobId (some path) c) : FileJudge out .mail content (fun _ => FilesSettled out .mail)
      (SubmitTranscript.acceptFailed out req storage jobId path e) c := by
  have hknown : KnownFile out .mail (HoldsJob out .mail jobId (some path)) := known_holdsJob jobId _
  have hfailed : Always Calm (JobStore.setStatus out jobId .failed [.error (some e.message)]) :=
    setStatus_calm out _ (by decide) (List.forall_mem_singleton.2 fun _ => rfl)
  refine (hknown.calm hfailed hc).then (fun _ c hc => ?_) fun _ hc => hc.settled
  have hmove : FileJudge out .mail content (fun _ => HoldsJob out .mail jobId (some path))
      (SubmitTranscript.failAndMove out req storage jobId path e.message) c :=
    (moveFailed_rg storage hc).then (fun _ c hc => hknown.calm (mail_calm out req _ _ _) hc) fun _ => id
  exact hmove.then (fun _ c hc => (FileJudge.done hknown _ hc).weaken fun _ hc => hc.settled) fun _ hc => hc.settled

theorem acceptCreated_rg (storage : StorageSettings) (receivedAt : Datetime) (attachment : Attachment) (filename : Text)
    (hc : NewJob out jobId attachment.content c) :
    FileJudge out .mail (some attachment.content) (fun _ => FilesSettled out .mail)
      (SubmitTranscript.acceptCreated out cmd req storage receivedAt attachment filename jobId) c := by
  refine ((known_newJob jobId _).calm (setStatus_calm out _ (by decide) (List.forall_mem_nil _)) hc).then
    (fun _ c hc => ?_) fun _ hc => hc.settled
  refine rg_watch_bind relyFiled_refl (saveIncoming_rg hnames attachment.filename storage.incoming hc)
    (fun storedPath c hc => ?_) fun e c hc => (hc.2 e rfl).settled
  refine (place_rg (hc.1 storedPath rfl)).then (fun _ c hc => ?_) fun _ hc => hc.settled
  have hparse := catching_always [.vttParseError] (parseVtt_calm out storedPath)
  refine ((known_holdsJob jobId _).calm hparse hc).then (fun parsed c hc => ?_) fun _ hc => hc.settled
  cases parsed with
  | ok vtt => exact acceptParsed_rg cmd req filename receivedAt vtt hc.settled
  | error e => exact acceptFailed_rg req storage e hc

/-- The bytes of the attachment that the command names. -/
def receivedBytes (attachments : List Attachment) : Option Bytes :=
  cmd.attachment.bind fun chosen => (attachments.find? fun a => a.filename = chosen.filename).map Attachment.content

theorem accept_rg (storage : StorageSettings) (attachments : List Attachment) (userId : Nat) (sourceMessageId : Text)
    (receivedAt : Datetime) (hc : FilesSettled out .mail c) :
    FileJudge out .mail (receivedBytes cmd attachments) (fun _ => FilesSettled out .mail)
      (SubmitTranscript.accept out cmd req storage attachments userId sourceMessageId receivedAt) c := by
  unfold SubmitTranscript.accept
  cases hchosen : cmd.attachment with
  | none => exact rg_raise (fun _ => settled_stable) hc
  | some chosen =>
    simp only
    cases hfound : attachments.find? fun a => a.filename = chosen.filename with
    | none => exact rg_raise (fun _ => settled_stable) hc
    | some attachment =>
      have hbytes : receivedBytes cmd attachments = some attachment.content := by
        rw [receivedBytes, hchosen, Option.bind_some, hfound, Option.map_some]
      rw [hbytes]
      refine rg_watch_bind relyFiled_refl (createJob_files rfl _ _ _ _ _ hc) (fun job c hc => ?_) fun _ _ hc => hc.1
      cases job with
      | none => exact rg_raise (fun _ => settled_stable) hc.1
      | some job => exact acceptCreated_rg hnames cmd req storage receivedAt attachment _ (hc.2 job rfl)

end

end

/-! ### The other calls of the mail thread -/

section
variable [PyChars] (out : Outside)

theorem cancel_calm (cmd : ValidatedCommand) (req : Request) : Always Calm (CancelHandler.handle out cmd req) := by
  have hnamed : Always Calm (namedJob cmd req) := by
    unfold namedJob
    cases cmd.jobId with
    | some jobId => exact always_observe (calm_look rfl) _
    | none => trivial
  have howned : Always Calm (ownedJob cmd req) := by
    refine hnamed.bind fun job => ?_
    cases job <;> trivial
  refine howned.bind fun job => ?_
  split_ifs
  · refine (setStatus_calm out _ (by decide) (List.forall_mem_nil _)).bind fun _ => ?_
    exact (mail_calm out req _ _ _).bind fun _ => trivial
  · exact (mail_calm out req _ _ _).bind fun _ => trivial

theorem continueClarification_silent (msg : EmailMessage) (senderEmail jobId : Text) :
    Always Silent (EmailProcessingPipeline.continueClarification out msg senderEmail jobId) := by
  have hcalm : ∀ {α : Type} {p : M α}, Always Calm p → Always Silent p := fun hp => hp.mono fun _ _ hf => hf.toSilent
  have hreply : ∀ mail, Always Silent (EmailProcessingPipeline.replyTo out msg senderEmail mail (some jobId)) :=
    fun mail => hcalm ((enqueue_calm out _ _ _ _ _ _ _).bind fun _ => trivial)
  have hconclude : ∀ outcome jobId, Always Silent (EmailProcessingPipeline.conclude out msg outcome jobId
      (some "clarification")) := fun outcome jobId => hcalm (conclude_calm out msg _ _ _)
  refine Always.bind (hcalm (always_observe (calm_look rfl) _)) fun pending => ?_
  cases pending with
  | none => trivial
  | some pending =>
    simp only
    split
    · refine Always.bind (hcalm (always_observe (calm_look rfl) _)) fun job => ?_
      split_ifs
      · trivial
      · refine (hcalm (update_calm _ (by simp [JobField.KeepsPath, Job.set]))).bind fun _ => ?_
        refine (setStatus_silent out jobId .queued).bind fun _ => ?_
        refine Always.bind (hcalm (always_change (.of_tables rfl fun _ => ⟨rfl, rfl, rfl⟩))) fun _ => ?_
        exact (hreply _).bind fun _ => (hconclude _ _).bind fun _ => trivial
    · exact (hreply _).bind fun _ => (hconclude _ _).bind fun _ => trivial

end

/-! ### Runs -/

section
variable [PyChars] (out : Outside)

/-- The next call of a thread, beside what it records: any call of the mail thread, and `execute` on any row that was
QUEUED at some time. -/
inductive FileCall : Thread → Prog Stmt FileState Exc Unit → FileState → Prop
  | accept (cmd req storage attachments userId sourceMessageId receivedAt c) :
      FileCall .mail (watch (recordFiles (receivedBytes cmd attachments)) (do
        let _ ← SubmitTranscript.accept out cmd req storage attachments userId sourceMessageId receivedAt)) c
  | continueClarification (msg senderEmail jobId c) : FileCall .mail (watch (recordFiles none) (do
      let _ ← EmailProcessingPipeline.continueClarification out msg senderEmail jobId)) c
  | cancel (cmd req c) : FileCall .mail (watch (recordFiles none) (do
      let _ ← CancelHandler.handle out cmd req)) c
  | execute (worker) {job : Job} {c : FileState} : job ∈ c.2.listed →
      FileCall .worker (watch (recordFiles none) (SubmitTranscript.execute out worker job)) c

/-- A run of the two threads, from a world that no call has touched. -/
abbrev FileRun (w : World) (d : (Thread → Prog Stmt FileState Exc Unit) × FileState) : Prop :=
  RoundSteps (StoresHold.watched FileHistory) (FileCall out) (fun _ => ret (), w, {}) d

variable {out} (hnames : FreshNames out)
include hnames

theorem fileCall_rg {t : Thread} {p : Prog Stmt FileState Exc Unit} {c : FileState} (hp : FileCall out t p c)
    (hc : FilesSettled out t c) :
    RG (StoresHold.watched FileHistory) (RelyFiled out t) (RelyFiled out t.other) (fun _ => FilesSettled out t) p
      c := by
  cases hp with
  | accept cmd req storage attachments userId source receivedAt =>
    exact (accept_rg hnames cmd req storage attachments userId source receivedAt hc).then
      (fun _ c hc => .done known_settled () hc) fun _ => id
  | continueClarification msg senderEmail jobId =>
    exact (release_rg (continueClarification_silent out msg senderEmail jobId) hc).then
      (fun _ c hc => .done known_settled () hc) fun _ => id
  | cancel cmd req =>
    exact (known_settled.calm (cancel_calm out cmd req) hc).then (fun _ c hc => .done known_settled () hc) fun _ => id
  | @execute worker job _ hlisted =>
    obtain ⟨hthere, hpath⟩ := hc.1.listed job hlisted
    exact SubmitTranscript.execute_rg worker ⟨hc, ⟨job, hlisted, rfl⟩, hthere, hpath⟩

theorem fileRounds : RoundSpec (StoresHold.watched FileHistory) (FileCall out) (RelyFiled out)
    (fun t => RelyFiled out t.other) (FilesSettled out) where
  refl _ := relyFiled_refl
  trans _ _ _ _ := relyFiled_trans
  others t u htu c c' h := by
    cases t <;> cases u <;> first | exact h | exact absurd rfl htu
  called _ _ _ := fileCall_rg hnames

theorem filesSettled_idle {w : World} (hjobs : w.jobs.rows = []) (hfiles : w.files.rows = [])
    {d : (Thread → Prog Stmt FileState Exc Unit) × FileState} (hrun : FileRun out w d) (hidle : ∀ t, (d.1 t).Ended)
    (t : Thread) : FilesSettled out t d.2 := by
  have hfind : ∀ i, w.jobs.find? i = none := fun i => by rw [Table.find?, hjobs]; rfl
  have hpath : ∀ i p, pathOf w i ≠ some p := fun i p => by simp [pathOf, hfind]
  have hat : ∀ p, fileAt w p = none := fun p => by rw [fileAt, Table.find?, hfiles]; rfl
  have hstart : ∀ t, FilesSettled out t (w, {}) := by
    refine fun t => ⟨⟨fun p _ hp => ?_, fun p hp => ?_, fun i _ p _ hp => absurd hp (hpath i p),
      fun i p hp => absurd hp (hpath i p), fun i hi => ?_, fun _ h => by cases h⟩,
      fun i _ p hp => absurd hp (hpath i p)⟩
    · rw [hat] at hp
      cases hp
    · rw [hat] at hp
      cases hp
    · rw [statusOf, hfind] at hi
      cases hi
  exact (fileRounds hnames).idle hrun (fun t c' hcc' => settled_stable _ c' hcc' (hstart t)) hidle t

/-- **Row and file agree.** Where no call is running, every row that names a file names one that holds what was received
for its job, and no two rows name the same. -/
theorem files_agree {w : World} (hjobs : w.jobs.rows = []) (hfiles : w.files.rows = [])
    {d : (Thread → Prog Stmt FileState Exc Unit) × FileState} (hrun : FileRun out w d) (hidle : ∀ t, (d.1 t).Ended) :
    (∀ job ∈ d.2.1.jobs.rows, ∀ path, job.attachmentStoragePath = some path →
      ∃ bytes, d.2.2.received job.jobId = some bytes ∧ fileAt d.2.1 path = some bytes) ∧
    ∀ job ∈ d.2.1.jobs.rows, ∀ other ∈ d.2.1.jobs.rows, ∀ path, job.attachmentStoragePath = some path →
      other.attachmentStoragePath = some path → job = other := by
  have hsettled := filesSettled_idle hnames hjobs hfiles hrun hidle
  have hrow : ∀ job ∈ d.2.1.jobs.rows, pathOf d.2.1 job.jobId = job.attachmentStoragePath := fun job hjob => by
    rw [pathOf, Table.find?_of_mem hjob, Option.bind_some]
  refine ⟨fun job hjob path hp => ?_, fun job hjob other hother path hp hp' => ?_⟩
  · rw [← hrow job hjob] at hp
    by_cases hi : Released d.2 job.jobId
    · exact (hsettled .worker).2 _ hi path hp
    · exact (hsettled .mail).2 _ hi path hp
  · rw [← hrow job hjob] at hp
    rw [← hrow other hother] at hp'
    have hid := (hsettled .mail).1.job _ _ path path hp hp' rfl
    exact List.inj_on_of_nodup_map d.2.1.jobs.nodup hjob hother hid

end

/-! ### A transcript on its way -/

section
attribute [local instance] asciiChars

/-- The outside for the run, where no name has a slash. -/
def slashless : Outside := { Outside.plain with secureFilename := fun name => name.filter (· != '/') }

theorem freshNames_slashless : FreshNames slashless where
  unique m n h := by
    have hdigits : Nat.ofDigitChars 10 (natText m) 0 = Nat.ofDigitChars 10 (natText n) 0 :=
      congrArg (fun s => Nat.ofDigitChars 10 s 0) h
    rwa [natText, natText, Nat.ofDigitChars_ten_toDigits, Nat.ofDigitChars_ten_toDigits] at hdigits
  plain n := by
    constructor
    · exact fun h => absurd (natText_isDigit h) (by decide)
    · exact fun h => absurd (natText_isDigit h) (by decide)
  safe name h := by simpa using (List.mem_filter.1 h).2

/-- A transcript of one cue. -/
def teamVtt : Attachment where
  filename := "team.vtt"
  contentType := "text/vtt"
  content := "WEBVTT\n\n00:00:00.000 --> 00:00:01.000\nAlice: hello\n".toList.map fun c => c.toNat.toUInt8

def submitTeam : ValidatedCommand := { operation := .submitTranscript, attachment := some teamVtt.meta }

/-- The mail thread accepts it. -/
def acceptTeam : Prog Stmt FileState Exc Unit :=
  watch (recordFiles (receivedBytes submitTeam [teamVtt])) (do
    let _ ← SubmitTranscript.accept slashless submitTeam aliceRequest (smallWorker []).storage [teamVtt] 12
      "<1@uni.ac.uk>" "2026-08-11T00:00:00+00:00")

/-- Its job, as the worker finds it. -/
def teamJob : Job :=
  { jobId := "DIAR-2026-0811-0001", senderEmail := "alice@uni.ac.uk", backendUserId := 12,
    sourceMessageId := "<1@uni.ac.uk>", operation := "submit_transcript", status := .queued,
    attachmentFilename := some "team.vtt", attachmentStoragePath := some "in/0_team.vtt",
    meetingDate := some "2026-08-11T00:00:00+00:00", meetingDateSource := some "received_timestamp",
    speakers := ["Alice"], createdAt := 1786406400000001 }

/-- The worker executes it. -/
def executeTeam : Prog Stmt FileState Exc Unit :=
  watch (recordFiles none) (SubmitTranscript.execute slashless (smallWorker [⟨7, "Team A"⟩]) teamJob)

/-- The transcript is accepted and submitted, and its file is in the last directory. -/
theorem files_agree_team : ∃ d, FileRun slashless {} d ∧
    d.2.1.jobs.rows.map Job.attachmentStoragePath = [some "done/0_team.vtt".toList] ∧
    ∀ job ∈ d.2.1.jobs.rows, ∀ path, job.attachmentStoragePath = some path →
      ∃ bytes, d.2.2.received job.jobId = some bytes ∧ fileAt d.2.1 path = some bytes := by
  have hlisted : teamJob ∈ (acceptTeam.run ({}, {})).2.2.listed := by decide +kernel
  have hcalm : ∀ l c, (StoresHold.watched FileHistory).allowed l c := fun _ _ => trivial
  have hidle : ∀ t, ((fun _ => ret () : Thread → Prog Stmt FileState Exc Unit) t).Ended := fun _ => trivial
  have hfirst := ended_update hidle .mail (acceptTeam.run ({}, {})).1
  have haccept : FileRun slashless {} _ := .run hcalm .refl (p := acceptTeam) (hidle .mail) (.accept ..)
  have hrun : FileRun slashless {} _ := .run hcalm haccept (p := executeTeam) (hfirst .worker) (.execute _ hlisted)
  have hagree := files_agree freshNames_slashless rfl rfl hrun (ended_update hfirst .worker _)
  exact ⟨_, hrun, by decide +kernel, hagree.1⟩

end

end GroupAssessmentAgent
