import GroupAssessmentAgent.Jobs.FilesKept

/-!
# What is uploaded

The worker reads the file of a job from the path in the row it holds, while the mail thread accepts other transcripts and
files are moved from stage to stage. A second history variable keeps what was uploaded for which job. In every state of
every run the bytes that were uploaded for a job are those that were received for it (`uploads_intact`).
-/

namespace GroupAssessmentAgent
open Prog

/-- A file that was sent to the backend. -/
structure Upload where
  jobId : Text
  filename : Option Text
  content : Bytes
  deriving DecidableEq

/-- The file that a statement sends to the backend. -/
def Stmt.upload? : Stmt → Option (Option Text × Bytes)
  | .backend (.uploadFile _ _ _ filename content) => some (filename, content)
  | _ => none

/-- One more statement of a call, and the job that it is made for. -/
def recordUploads (jobId : Option Text) (l : Stmt) (_ _ : FileState) (uploads : List Upload) : List Upload :=
  match jobId, l.upload? with
  | some jobId, some (filename, content) => uploads ++ [⟨jobId, filename, content⟩]
  | _, _ => uploads

abbrev UploadState := FileState × List Upload

/-- Everything that was uploaded had been received for its job. -/
def Intact (c : UploadState) : Prop :=
  ∀ u ∈ c.2, Released c.1 u.jobId ∧ c.1.2.received u.jobId = some u.content

/-- The same, in a state in which names are as they should be. -/
def IntactFiled (out : Outside) (c : UploadState) : Prop := Filed out c.1 ∧ Intact c

/-- What a thread does: what the other one relies on, and no upload of other bytes. -/
def MovesIntact (out : Outside) (t : Thread) (c c' : UploadState) : Prop :=
  RelyFiled out t.other c.1 c'.1 ∧ (IntactFiled out c → IntactFiled out c')

/-- A step that adds no job and uploads nothing. -/
def UploadsNothing (l : Stmt) (_ : World → World) : Prop := l.addsJob = false ∧ l.upload? = none

theorem covers_uploadsNothing : Covers UploadsNothing (fun _ => True) fun _ => True where
  look l hl := by cases l <;> first | exact ⟨rfl, rfl⟩ | cases hl
  ask _ := ⟨rfl, rfl⟩
  tick := ⟨rfl, rfl⟩
  job _ _ _ := ⟨rfl, rfl⟩
  status _ _ _ _ _ _ := ⟨rfl, rfl⟩
  outbox _ _ _ := ⟨rfl, rfl⟩
  put _ _ := ⟨rfl, rfl⟩
  delete _ _ := ⟨rfl, rfl⟩
  alert _ := ⟨rfl, rfl⟩
  files l f hl _ := by rcases hl with rfl | rfl <;> exact ⟨rfl, rfl⟩

/-- What was uploaded stays intact while its jobs stay released, with what was received for them. -/
theorem Intact.mono {c c' : UploadState} (h : Intact c) (huploads : c'.2 = c.2)
    (hreleased : ∀ i, Released c.1 i → Released c'.1 i)
    (hreceived : ∀ i, Released c.1 i → c'.1.2.received i = c.1.2.received i) : Intact c' := by
  intro u hu
  rw [huploads] at hu
  obtain ⟨hjob, hcontent⟩ := h u hu
  exact ⟨hreleased _ hjob, (hreceived _ hjob).trans hcontent⟩

/-- The judgement of a program of the worker, in a call of `execute` for the job. -/
abbrev UploadJudge (out : Outside) (jobId : Text) {α : Type} (Q : Except Exc α → FileState → Prop) (p : M α)
    (c : UploadState) : Prop :=
  RG ((StoresHold.watched FileHistory).watched (List Upload)) (fun c c' => RelyFiled out .worker c.1 c'.1)
    (MovesIntact out .worker) (fun x c => Q x c.1) (watch (recordUploads (some jobId)) (watch (recordFiles none) p)) c

section
variable {out : Outside} {jobId : Text} {α β : Type} {P Q : FileState → Prop} {c : UploadState}

theorem uploadsNothing_rg (jobId : Text) {Q : Except Exc α → FileState → Prop} {p : M α} (hquiet : Always UploadsNothing p)
    (hp : FileJudge out .worker none Q p c.1) : UploadJudge out jobId Q p c := by
  have hlabels : Always (fun l (f : FileState → FileState) => l.upload? = none ∧ ∀ s, (f s).2.received = s.2.received)
      (watch (recordFiles none) p) :=
    always_watched hquiet fun l f hl => ⟨hl.2, fun s => receivedFor_other hl.1 _ _ _⟩
  refine (rg_watched hp hlabels c.2).mono (fun c c' hstep => ?_) fun _ _ h => h
  obtain ⟨hrely, l, f, ⟨hupload, hreceived⟩, rfl⟩ := hstep
  refine ⟨hrely, fun hc => ?_⟩
  have h := hrely hc.1
  refine ⟨h.filed, hc.2.mono ?_ h.released fun i _ => congrFun (hreceived c.1) i⟩
  simp only [recordUploads, hupload]

theorem UploadJudge.bind {Q : Except Exc β → FileState → Prop} {N : Except Exc α → FileState → Prop} {p : M α}
    {g : α → M β} (hp : UploadJudge out jobId N p c) (hok : ∀ a c, N (.ok a) c.1 → UploadJudge out jobId Q (g a) c)
    (herr : ∀ e c, N (.error e) c → Q (.error e) c) : UploadJudge out jobId Q (p.bind g) c := by
  rw [UploadJudge, watch_bind]
  exact rg_watch_bind (fun c => relyFiled_refl c.1) hp hok fun e c => herr e c.1

theorem UploadJudge.tryCatch {Q N : Except Exc α → FileState → Prop} {p : M α} {g : Exc → M α}
    (hp : UploadJudge out jobId N p c) (hok : ∀ a c, N (.ok a) c → Q (.ok a) c)
    (herr : ∀ e c, N (.error e) c.1 → UploadJudge out jobId Q (g e) c) :
    UploadJudge out jobId Q (p.tryCatch g) c := by
  rw [UploadJudge, watch_tryCatch]
  exact rg_watch_tryCatch (fun c => relyFiled_refl c.1) hp (fun a c => hok a c.1) herr

end

/-! ### Executing -/

namespace SubmitTranscript

section
variable {out : Outside} (worker : JobWorker) {job : Job} {c : UploadState}

theorem storedContent_rg {s : FileState} (hs : HoldsRow out job s) : FileJudge out .worker none
    (fun x s => HoldsRow out job s ∧ ∀ bytes, x = .ok bytes → s.2.received job.jobId = some bytes)
    (storedContent job) s := by
  have hends : ∀ x : Except Exc Bytes, Stable (RelyFiled out .worker) fun s =>
      HoldsRow out job s ∧ ∀ bytes, x = .ok bytes → s.2.received job.jobId = some bytes := fun x s s' hss' h =>
    ⟨known_holdsRow.stable s s' hss' h.1,
      fun bytes hx => ((hss' h.1.settled.1).job _ h.1.owns).2.2.trans (h.2 bytes hx)⟩
  unfold storedContent
  cases hpath : job.attachmentStoragePath with
  | none => exact rg_raise hends ⟨hs, fun _ hx => by cases hx⟩
  | some path =>
    simp only
    rw [FileJudge, readBytes, watch_observeE]
    refine rg_atomic known_holdsRow.stable hends (fun s hs _ => ?_) (fun s e hs _ => ⟨hs, fun _ hx => by cases hx⟩) hs
    have hcalm : Calm .readFile id := calm_look rfl
    have hfiled := hcalm.filed none hs.settled.1
    have hsame := hcalm.same none hs.settled.1
    refine ⟨fun _ => hsame.rely hfiled, known_holdsRow.same s _ hsame hfiled hs, fun bytes hx => ?_⟩
    obtain ⟨q, hq, hname⟩ := hs.path path hpath
    obtain ⟨received, hreceived, hcontent⟩ := hs.settled.2 job.jobId hs.owns q hq
    simp only at hx
    split at hx
    · next f hfind =>
      -- the file that is read has the name of the file of the job
      have hat : fileAt s.1 path = some f.content := fileAt_isSome hfind
      obtain rfl : q = path := hs.settled.1.file q path (by rw [hcontent]; rfl) (by rw [hat]; rfl) hname
      have hbytes : received = bytes := Option.some.inj ((hcontent.symm.trans hat).trans (congrArg some (Except.ok.inj hx)))
      exact (congrFun hsame.received _).trans (hbytes ▸ hreceived)
    · cases hx

theorem uploadFile_rg {α : Type} (token : Text) (groupId meetingId : Nat) {content : Bytes}
    (answer : Nat → Except Exc α) (hc : HoldsRow out job c.1)
    (hcontent : c.1.2.received job.jobId = some content) :
    UploadJudge out job.jobId (fun _ => HoldsRow out job)
      (callBackend (.uploadFile token groupId meetingId job.attachmentFilename content) answer) c := by
  have hknown : Stable (fun c c' : UploadState => RelyFiled out .worker c.1 c'.1)
      fun c => HoldsRow out job c.1 ∧ c.1.2.received job.jobId = some content := fun c c' hcc' h =>
    ⟨known_holdsRow.stable c.1 c'.1 hcc' h.1, ((hcc' h.1.settled.1).job _ h.1.owns).2.2.trans h.2⟩
  rw [UploadJudge, callBackend, watch_atomic, watch_atomic]
  refine rg_atomic hknown (fun _ c c' hcc' hc => known_holdsRow.stable c.1 c'.1 hcc' hc) (fun c hc _ => ?_)
    (fun c e hc _ => hc.1) ⟨hc, hcontent⟩
  have hcalm : Calm (.backend (.uploadFile token groupId meetingId job.attachmentFilename content)) _ :=
    coversCalls_calm _
  have hfiled := hcalm.filed none hc.1.settled.1
  have hsame := hcalm.same none hc.1.settled.1
  refine ⟨⟨fun _ => hsame.rely hfiled, fun hintact => ⟨hfiled, fun u hu => ?_⟩⟩,
    known_holdsRow.same c.1 _ hsame hfiled hc.1⟩
  rcases List.mem_append.1 hu with hold | hnew
  · obtain ⟨hjob, hu⟩ := hintact.2 u hold
    exact ⟨(hsame.released _).2 hjob, (congrFun hsame.received _).trans hu⟩
  · obtain rfl := List.mem_singleton.1 hnew
    exact ⟨(hsame.released _).2 hc.1.owns, (congrFun hsame.received _).trans hc.2⟩

theorem groupsOf_uploadsNothing (d : DiarisationClient) (job : Job) : Always UploadsNothing (groupsOf d job) :=
  Always.bind (always_atomic ⟨rfl, rfl⟩) fun _ => Always.bind (always_atomic ⟨rfl, rfl⟩) fun _ => trivial

theorem attendeesOf_uploadsNothing (d : DiarisationClient) (token : Text) (groupId meetingId : Nat)
    (speakers : List Text) : Always UploadsNothing (attendeesOf d token groupId meetingId speakers) := by
  have hadd : ∀ resolved, Always UploadsNothing (addAttendees d token groupId meetingId resolved) := by
    intro resolved
    induction resolved with
    | nil => trivial
    | cons entry rest ih =>
      obtain ⟨name, member⟩ := entry
      cases member with
      | none => exact ih.bind fun _ => trivial
      | some memberId => exact Always.bind (always_atomic ⟨rfl, rfl⟩) fun _ => ih.bind fun _ => trivial
  unfold attendeesOf
  split_ifs
  · trivial
  · exact Always.bind (always_atomic ⟨rfl, rfl⟩) fun resolved => hadd resolved

theorem aside_rg {α : Type} {p : M α} (hnothing : Always UploadsNothing p) (hcalm : Always Calm p)
    (hc : HoldsRow out job c.1) : UploadJudge out job.jobId (fun _ => HoldsRow out job) p c :=
  uploadsNothing_rg _ hnothing (known_holdsRow.calm hcalm hc)

theorem submit_rg (token : Text) (group : GroupSummary) (hc : HoldsRow out job c.1) :
    UploadJudge out job.jobId (fun _ => HoldsRow out job) (submit out worker.diarisation job token group) c := by
  refine (aside_rg (always_ofExcept _) (always_ofExcept _) hc).bind (fun date c hc => ?_) fun _ _ hc => hc
  have hcreate : UploadJudge out job.jobId (fun _ => HoldsRow out job)
      (callBackend (.createMeeting token group.id date) fun n =>
        worker.diarisation.createMeeting n token group.id date) c :=
    aside_rg (always_atomic ⟨rfl, rfl⟩) (callBackend_always coversCalls_calm _ _) hc
  refine hcreate.bind (fun meetingId c hc => ?_) fun _ _ hc => hc
  have hread := uploadsNothing_rg job.jobId (storedContent_always (A := UploadsNothing) ⟨rfl, rfl⟩ job)
    (storedContent_rg hc)
  refine hread.bind (fun content c hc => ?_) fun _ _ hc => hc.1
  refine (uploadFile_rg token group.id meetingId _ hc.1 (hc.2 content rfl)).bind (fun _ c hc => ?_) fun _ _ hc => hc
  have hattendees := aside_rg (attendeesOf_uploadsNothing worker.diarisation token group.id meetingId job.speakers)
    (attendeesOf_always coversCalls_calm _ _ _ _ _) hc
  exact hattendees.bind (fun _ c hc => aside_rg trivial trivial hc) fun _ _ hc => hc

variable [PyChars]

theorem attempt_uploads (hc : HoldsRow out job c.1) :
    UploadJudge out job.jobId (fun _ => HoldsRow out job) (attempt out worker job) c := by
  have hgroups := aside_rg (groupsOf_uploadsNothing worker.diarisation job) (groupsOf_always coversCalls_calm _ job) hc
  refine hgroups.bind (fun found c hc => ?_) fun _ _ hc => hc
  have hask : UploadJudge out job.jobId (fun _ => HoldsRow out job) (askForGroup out job found.2 "this transcript") c :=
    aside_rg (askForGroup_always covers_uploadsNothing out job trivial _ _) (askForGroup_calm out job _ _) hc
  cases matchGroup job.groupHint found.2 with
  | noMatch => exact hask
  | ambiguous candidates => exact hask
  | matched group =>
    refine (submit_rg worker found.1 group hc).bind (fun s c hc => ?_) fun _ _ hc => hc
    exact uploadsNothing_rg _ (complete_always covers_uploadsNothing out job trivial worker.storage group s)
      (complete_rg worker.storage group s hc)

omit [PyChars] in
theorem refreshed_id (s : FileState) : RG (StoresHold.watched FileHistory) (RelyFiled out .worker) (fun _ _ => True)
    (fun x _ => ∀ current, x = .ok (some current) → current.jobId = job.jobId)
    (watch (recordFiles none) (refreshed worker job)) s := by
  unfold refreshed
  cases truthy job.attachmentStoragePath with
  | none => exact fun _ _ current hx => by rw [← Option.some.inj (Except.ok.inj hx)]
  | some path =>
    have hmoved : Always (fun _ _ => True) (watch (recordFiles none) (do
        let moved ← moveTo path worker.storage.processing
        JobStore.update job.jobId [.attachmentStoragePath (some moved)])) :=
      always_watched (moved_always covers_uploadsNothing job trivial path _) fun _ _ _ => trivial
    simp only [bind_eq, ← bind_assoc] at hmoved ⊢
    refine rg_watch_bind relyFiled_refl (hmoved.rg (fun _ _ _ _ _ => trivial) s) (fun _ c _ => ?_) fun _ _ _ _ hx => by
      cases hx
    rw [JobStore.get, watch_observe]
    refine rg_atomic (P := fun _ => True) (fun _ _ _ h => h) (fun _ _ _ _ h => h)
      (fun c _ _ => ⟨trivial, fun current hx => ?_⟩) (fun _ _ _ _ _ hx => by cases hx) trivial
    exact Table.find?_key (Except.ok.inj hx)

theorem execute_uploads (hc : HoldsRow out job c.1) :
    UploadJudge out job.jobId (fun _ => FilesSettled out .worker) (execute out worker job) c := by
  have hcalm : Always Calm (JobStore.setStatus out job.jobId .processing []) :=
    setStatus_calm out _ (by decide) (List.forall_mem_nil _)
  have hprocessing := aside_rg (setStatus_always covers_uploadsNothing out trivial _ _) hcalm hc
  refine hprocessing.bind (fun _ c hc => ?_) fun _ _ hc => hc.settled
  have hrow := ((refreshed_rg worker hc).and (refreshed_id worker c.1)).mono (fun _ _ h => h.1) fun _ _ h => h
  have hrefreshed := uploadsNothing_rg job.jobId (refreshed_always covers_uploadsNothing job trivial worker) hrow
  refine hrefreshed.bind (fun current c hc => ?_) fun _ _ hc => hc.1.1
  cases current with
  | none => exact rg_raise (fun _ c c' hcc' => settled_stable c.1 c'.1 hcc') hc.1.1
  | some current =>
    have hid : current.jobId = job.jobId := hc.2 current rfl
    rw [← hid]
    refine (attempt_uploads worker (hc.1.2 current rfl)).tryCatch (fun _ _ hc => hc.settled) fun e c hc => ?_
    refine uploadsNothing_rg _ ?_ ((handleExecuteFailure_rg worker _ hc).weaken fun _ hc => hc.settled)
    exact handleExecuteFailure_always covers_uploadsNothing out current trivial worker _

end

end SubmitTranscript

/-! ### Runs -/

section
variable [PyChars] (out : Outside)

/-- The next call of a thread, beside what it uploads. -/
inductive UploadCall : Thread → Prog Stmt UploadState Exc Unit → UploadState → Prop
  | mail {p c} : FileCall out .mail p c.1 → UploadCall .mail (watch (recordUploads none) p) c
  | execute (worker) {job : Job} {c : UploadState} : job ∈ c.1.2.listed → UploadCall .worker
      (watch (recordUploads (some job.jobId)) (watch (recordFiles none) (SubmitTranscript.execute out worker job))) c

/-- A run of the two threads, from a world that no call has touched. -/
abbrev UploadRun (w : World) (d : (Thread → Prog Stmt UploadState Exc Unit) × UploadState) : Prop :=
  RoundSteps ((StoresHold.watched FileHistory).watched (List Upload)) (UploadCall out) (fun _ => ret (), (w, {}), []) d

variable {out} (hnames : FreshNames out)
include hnames

theorem uploadCall_rg {t : Thread} {p : Prog Stmt UploadState Exc Unit} {c : UploadState} (hp : UploadCall out t p c)
    (hc : FilesSettled out t c.1) :
    RG ((StoresHold.watched FileHistory).watched (List Upload)) (fun c c' => RelyFiled out t c.1 c'.1)
      (MovesIntact out t) (fun _ c => FilesSettled out t c.1) p c := by
  cases hp with
  | @mail p _ hcall =>
    have hsteps : Always (fun _ _ => True) p := always_any (fun _ _ => trivial) p
    refine (rg_watched (fileCall_rg hnames hcall hc) hsteps c.2).mono (fun c c' hstep => ?_) fun _ _ h => h
    obtain ⟨hrely, l, f, -, rfl⟩ := hstep
    refine ⟨hrely, fun hintact => ?_⟩
    have h := hrely hintact.1
    exact ⟨h.filed, hintact.2.mono rfl h.released fun i hi => (h.job i hi).2.2⟩
  | @execute worker job _ hlisted =>
    obtain ⟨hthere, hpath⟩ := hc.1.listed job hlisted
    exact SubmitTranscript.execute_uploads worker ⟨hc, ⟨job, hlisted, rfl⟩, hthere, hpath⟩

theorem uploadRounds : RoundSpec ((StoresHold.watched FileHistory).watched (List Upload)) (UploadCall out)
    (fun t c c' => RelyFiled out t c.1 c'.1) (MovesIntact out) (fun t c => FilesSettled out t c.1) where
  refl _ c := relyFiled_refl c.1
  trans _ _ _ _ := relyFiled_trans
  others t u htu c c' h := by
    cases t <;> cases u <;> first | exact h.1 | exact absurd rfl htu
  called _ _ _ := uploadCall_rg hnames

/-- **Uploads are what was received.** In every state of every run, whatever the two threads are at, each file that was
uploaded for a job has the bytes that were received for that job. -/
theorem uploads_intact {w : World} (hjobs : w.jobs.rows = []) (hfiles : w.files.rows = [])
    {d : (Thread → Prog Stmt UploadState Exc Unit) × UploadState} (hrun : UploadRun out w d) :
    ∀ u ∈ d.2.2, d.2.1.2.received u.jobId = some u.content := by
  have hstart : ∀ t, FilesSettled out t (w, {}) := filesSettled_idle hnames hjobs hfiles .refl fun _ => trivial
  have hintact : IntactFiled out d.2 := by
    refine (uploadRounds hnames).inv (fun _ _ _ h => h.2) hrun (fun t c' hcc' => ?_)
      ⟨(hstart .mail).1, fun _ hu => by cases hu⟩
    exact settled_stable _ _ hcc' (hstart t)
  exact fun u hu => (hintact.2 u hu).2

end

section
attribute [local instance] asciiChars

/-- The transcript of the team, beside what is uploaded. -/
def acceptTeamUpload : Prog Stmt UploadState Exc Unit := watch (recordUploads none) acceptTeam

def executeTeamUpload : Prog Stmt UploadState Exc Unit := watch (recordUploads (some teamJob.jobId)) executeTeam

/-- The transcript is accepted and uploaded. -/
theorem uploads_intact_team : ∃ d, UploadRun slashless {} d ∧
    d.2.2 = [⟨"DIAR-2026-0811-0001", some "team.vtt", teamVtt.content⟩] ∧
    ∀ u ∈ d.2.2, d.2.1.2.received u.jobId = some u.content := by
  have hlisted : teamJob ∈ (acceptTeamUpload.run (({}, {}), [])).2.1.2.listed := by decide +kernel
  have hcalm : ∀ l c, ((StoresHold.watched FileHistory).watched (List Upload)).allowed l c := fun _ _ => trivial
  have hidle : ∀ t, ((fun _ => ret () : Thread → Prog Stmt UploadState Exc Unit) t).Ended := fun _ => trivial
  have hfirst := ended_update hidle .mail (acceptTeamUpload.run (({}, {}), [])).1
  have haccept : UploadRun slashless {} _ :=
    .run hcalm .refl (p := acceptTeamUpload) (hidle .mail) (.mail (.accept ..))
  have hrun : UploadRun slashless {} _ :=
    .run hcalm haccept (p := executeTeamUpload) (hfirst .worker) (.execute _ hlisted)
  exact ⟨_, hrun, by decide +kernel, uploads_intact freshNames_slashless rfl rfl hrun⟩

end

end GroupAssessmentAgent
