import GroupAssessmentAgent.Jobs.GroupQuestion
import GroupAssessmentAgent.Jobs.Replies

/-!
# The jobs of the worker carry their replies

The worker's way from place to place, inside the judgements of `Replies`. The listed jobs are QUEUED and as their rows
are (`Listed`), the job in hand is PROCESSING (`InHand`), and then nothing that the mail thread does touches them. The
work on a job leaves its hint and its parent message alone, and ends in no status of a scheduled job (`WorksOn`), so the
rest of the list is as it was.
-/

namespace GroupAssessmentAgent
open Prog

/-- The jobs that are left are QUEUED, and what they carry is in their rows. -/
structure Listed (jobs : List Job) (c : ReplyState) : Prop where
  kept : RepliesKept c
  nodup : (jobs.map Job.jobId).Nodup
  rows : ∀ job ∈ jobs, statusOf c.1 job.jobId = some .queued ∧ carriedBy c.1 job.jobId = some job.carried

/-- A job other than those that are left is at work. -/
structure Taking (jobId : Text) (jobs : List Job) (c : ReplyState) : Prop extends Listed jobs c where
  fresh : jobId ∉ jobs.map Job.jobId

/-- It is PROCESSING, and what it carries is in its row. -/
structure InHand (job : Job) (jobs : List Job) (c : ReplyState) : Prop extends Taking job.jobId jobs c where
  status : statusOf c.1 job.jobId = some .processing
  carried : carriedBy c.1 job.jobId = some job.carried

/-- What the worker knows at a place. -/
def Held : WorkerPlace → ReplyState → Prop
  | .waiting jobs => Listed jobs
  | .begun job jobs => InHand job jobs
  | .working _ current jobs => InHand current jobs

theorem Listed.scheduled {jobs : List Job} {c : ReplyState} (h : Listed jobs c) {job : Job} (hjob : job ∈ jobs) :
    Scheduled c.1 job.jobId := .inl (h.rows job hjob).1

theorem InHand.scheduled {job : Job} {jobs : List Job} {c : ReplyState} (h : InHand job jobs c) :
    Scheduled c.1 job.jobId := .inr h.status

theorem Listed.tail {job : Job} {jobs : List Job} {c : ReplyState} (h : Listed (job :: jobs) c) :
    Taking job.jobId jobs c := by
  obtain ⟨hfresh, hnodup⟩ := List.nodup_cons.1 h.nodup
  exact ⟨⟨h.kept, hnodup, fun j hj => h.rows j (List.mem_cons_of_mem _ hj)⟩, hfresh⟩

theorem Listed.carries {jobs : List Job} {c : ReplyState} (h : Listed jobs c) {job : Job} (hjob : job ∈ jobs) :
    CarriesReply c job.jobId job.carried :=
  h.kept job.jobId (h.scheduled hjob) _ (h.rows job hjob).2

theorem InHand.carries {job : Job} {jobs : List Job} {c : ReplyState} (h : InHand job jobs c) :
    CarriesReply c job.jobId job.carried :=
  h.kept job.jobId h.scheduled _ h.carried

/-! ### Whatever the mail thread does -/

theorem listed_stable (jobs : List Job) : Stable (RelyReplies .worker) (Listed jobs) := by
  intro c c' hcc' h
  refine ⟨hcc'.kept h.kept, h.nodup, fun job hjob => ?_⟩
  rw [hcc'.status _ (h.scheduled hjob), hcc'.carried _ (h.scheduled hjob)]
  exact h.rows job hjob

theorem taking_stable (jobId : Text) (jobs : List Job) : Stable (RelyReplies .worker) (Taking jobId jobs) :=
  fun c c' hcc' h => ⟨listed_stable jobs c c' hcc' h.toListed, h.fresh⟩

theorem inHand_stable (job : Job) (jobs : List Job) : Stable (RelyReplies .worker) (InHand job jobs) := by
  intro c c' hcc' h
  refine ⟨taking_stable _ _ c c' hcc' h.toTaking, ?_, ?_⟩
  · rw [hcc'.status _ h.scheduled, h.status]
  · rw [hcc'.carried _ h.scheduled, h.carried]

theorem held_stable (place : WorkerPlace) : Stable (RelyReplies .worker) (Held place) := by
  cases place with
  | waiting jobs => exact listed_stable jobs
  | begun job jobs => exact inHand_stable job jobs
  | working job current jobs => exact inHand_stable current jobs

/-! ### Statements of the worker -/

/-- A step that leaves the statuses and what the replies have written. -/
structure KeepsRows (_ : Stmt) (f : World → World) : Prop where
  status : ∀ w jobId, statusOf (f w) jobId = statusOf w jobId
  carried : ∀ w jobId, carriedBy (f w) jobId = carriedBy w jobId

/-- A step of the work on a job: it writes no column of a reply, and schedules no job. -/
structure WorksOn (jobId : Text) (_ : Stmt) (f : World → World) : Prop where
  carried : ∀ w i, carriedBy (f w) i = carriedBy w i
  others : ∀ w i, i ≠ jobId → statusOf (f w) i = statusOf w i
  scheduled : ∀ w, Scheduled (f w) jobId → statusOf (f w) jobId = statusOf w jobId

theorem BesideJobs.keepsRows {l : Stmt} {f : World → World} (hf : BesideJobs l f) : KeepsRows l f where
  status w jobId := by rw [statusOf, hf.jobs, statusOf]
  carried w := carriedBy_congr (hf.jobs w)

theorem KeepsRows.worksOn {l : Stmt} {f : World → World} (hf : KeepsRows l f) (jobId : Text) : WorksOn jobId l f where
  carried := hf.carried
  others w i _ := hf.status w i
  scheduled w _ := hf.status w jobId

theorem besideJobs_worksOn {α : Type} {p : M α} (hp : Always BesideJobs p) (jobId : Text) : Always (WorksOn jobId) p :=
  hp.mono fun _ _ hf => hf.keepsRows.worksOn jobId

theorem update_keepsRows (jobId : Text) {fields : List JobField} (hfields : ∀ v ∈ fields, v.KeepsReply) :
    Always KeepsRows (JobStore.update jobId fields) := by
  unfold JobStore.update
  split_ifs
  · trivial
  · exact always_change ⟨fun w => statusOf_writeJob w jobId fields, fun w => carriedBy_writeJob hfields⟩

theorem update_worksOn (jobId : Text) {fields : List JobField} (hfields : ∀ v ∈ fields, v.KeepsReply) :
    Always (WorksOn jobId) (JobStore.update jobId fields) :=
  (update_keepsRows jobId hfields).mono fun _ _ hf => hf.worksOn jobId

section
variable (out : Outside) {jobId : Text}

theorem setStatus_worksOn {new : JobState} (hnew : new ≠ .queued ∧ new ≠ .processing) {extra : List JobField}
    (hextra : ∀ v ∈ extra, v.KeepsReply) : Always (WorksOn jobId) (JobStore.setStatus out jobId new extra) := by
  refine setStatus_steps out (fun _ hv => hv.keepsReply) ((covers_besideJobs.look _ rfl).keepsRows.worksOn jobId)
    (covers_besideJobs.tick.keepsRows.worksOn jobId) hextra fun current fields hfields => ⟨fun w => ?_, fun w i hi => ?_,
    fun w hscheduled => ?_⟩
  · exact carriedBy_writeStatus w jobId new hfields
  · rw [statusOf_writeStatus, if_neg hi]
  · rw [Scheduled, statusOf_writeStatus, if_pos rfl] at hscheduled
    rcases hscheduled with h | h
    · obtain ⟨_, _, h⟩ := Option.map_eq_some_iff.1 h
      exact absurd h hnew.1
    · obtain ⟨_, _, h⟩ := Option.map_eq_some_iff.1 h
      exact absurd h hnew.2

theorem mail_worksOn (req : Request) (mail : Rendered) (job : Option Text) (paths : List Text) :
    Always (WorksOn jobId) (req.enqueue out mail job paths) :=
  besideJobs_worksOn (mail_always covers_besideJobs out req mail job paths) jobId

theorem reportFailure_worksOn (admin : AdminNotifier) (job : Job) (userReason : Text) (category : AdminCategory)
    (summary reason : Text) : Always (WorksOn jobId) (reportFailure out admin job userReason category summary reason) :=
  besideJobs_worksOn (reportFailure_always covers_besideJobs out admin job userReason category summary reason) jobId

theorem askForGroup_worksOn (job : Job) (groups : List GroupSummary) (subject : Text) :
    Always (WorksOn job.jobId) (askForGroup out job groups subject) := by
  refine (setStatus_worksOn out (by decide) (List.forall_mem_nil _)).bind fun _ =>
    Always.bind (besideJobs_worksOn ?_ _) fun _ => mail_worksOn out _ _ _ _
  have hclock : Always BesideJobs (utcnow out) := always_atomic covers_besideJobs.tick
  exact hclock.bind fun _ => always_change ⟨rfl, fun _ => rfl⟩

namespace SubmitTranscript

omit out in
theorem moved_keepsRows (jobId path dir : Text) : Always KeepsRows (do
    let moved ← moveTo path dir
    JobStore.update jobId [.attachmentStoragePath (some moved)]) :=
  ((moveTo_always covers_besideJobs path dir).mono fun _ _ hf => hf.keepsRows).bind fun _ =>
    update_keepsRows jobId (List.forall_mem_singleton.2 fun _ => rfl)

omit out in
theorem moveStored_worksOn (job : Job) (dir : Text) : Always (WorksOn job.jobId) (moveStored job dir) := by
  unfold moveStored
  cases truthy job.attachmentStoragePath with
  | none => trivial
  | some path => exact (moved_keepsRows job.jobId path dir).mono fun _ _ hf => hf.worksOn job.jobId

omit out in
theorem moveFailedFile_worksOn (storage : StorageSettings) (job : Job) :
    Always (WorksOn job.jobId) (moveFailedFile storage job) := by
  unfold moveFailedFile
  cases truthy job.attachmentStoragePath with
  | none => trivial
  | some path =>
    refine (besideJobs_worksOn (fileExists_always covers_besideJobs path) _).bind fun found => ?_
    split_ifs
    · exact (moved_keepsRows job.jobId path storage.failed).mono fun _ _ hf => hf.worksOn job.jobId
    · trivial

variable (worker : JobWorker) (current : Job)

theorem handleExecuteFailure_worksOn (reason : Text) :
    Always (WorksOn current.jobId) (handleExecuteFailure out worker current reason) :=
  (setStatus_worksOn out (by decide) (List.forall_mem_singleton.2 fun _ => rfl)).bind fun _ =>
    (moveFailedFile_worksOn worker.storage current).bind fun _ => reportFailure_worksOn out _ _ _ _ _ _

theorem complete_worksOn (storage : StorageSettings) (group : GroupSummary) (s : Submitted) :
    Always (WorksOn current.jobId) (complete out storage current group s) := by
  refine (update_worksOn current.jobId (by simp [JobField.KeepsReply, Job.set, Job.carried])).bind fun _ => ?_
  refine (setStatus_worksOn out (by decide) (List.forall_mem_nil _)).bind fun _ => ?_
  exact (moveStored_worksOn current storage.completed).bind fun _ => mail_worksOn out _ _ _ _

theorem attempt_worksOn [PyChars] : Always (WorksOn current.jobId) (attempt out worker current) := by
  refine (besideJobs_worksOn (groupsOf_always coversCalls_besideJobs _ current) _).bind fun found => ?_
  cases matchGroup current.groupHint found.2 with
  | noMatch => exact askForGroup_worksOn out current _ _
  | ambiguous candidates => exact askForGroup_worksOn out current _ _
  | matched group =>
    refine Always.bind (besideJobs_worksOn ?_ _) fun _ => complete_worksOn out current _ _ _
    exact submit_always coversCalls_besideJobs out (covers_besideJobs.look _ rfl) _ current _ group

end SubmitTranscript

namespace AssessQuery
variable (worker : JobWorker) (current : Job)

theorem handleFailure_worksOn (reason : Text) :
    Always (WorksOn current.jobId) (handleFailure out worker current reason) :=
  (setStatus_worksOn out (by decide) (List.forall_mem_singleton.2 fun _ => rfl)).bind fun _ =>
    reportFailure_worksOn out _ _ _ _ _ _

theorem attempt_worksOn [PyChars] : Always (WorksOn current.jobId) (attempt out worker current) := by
  refine (besideJobs_worksOn (groupsOf_always coversCalls_besideJobs _ current) _).bind fun found => ?_
  cases matchGroup current.groupHint found.2 with
  | noMatch => exact askForGroup_worksOn out current _ _
  | ambiguous candidates => exact askForGroup_worksOn out current _ _
  | matched group =>
    have htranscripts := askTranscripts_always coversCalls_besideJobs out coversModel_besideJobs worker current found.1
    refine (besideJobs_worksOn (htranscripts group) _).bind fun transcripts => ?_
    refine (besideJobs_worksOn (askRepository_always coversCalls_besideJobs worker current _) _).bind
      fun repository => ?_
    unfold conclude
    simp only
    split_ifs
    · exact handleFailure_worksOn out worker current _
    · exact (setStatus_worksOn out (by decide) (List.forall_mem_nil _)).bind fun _ => mail_worksOn out _ _ _ _

end AssessQuery

theorem workOn_worksOn [PyChars] (worker : JobWorker) (job current : Job) :
    Always (WorksOn current.jobId) (worker.workOn out job current) := by
  unfold JobWorker.workOn
  split_ifs
  · exact (SubmitTranscript.attempt_worksOn out worker current).tryCatch fun e =>
      SubmitTranscript.handleExecuteFailure_worksOn out worker current _
  · exact (AssessQuery.attempt_worksOn out worker current).tryCatch fun e =>
      AssessQuery.handleFailure_worksOn out worker current _

end

/-! ### From place to place -/

section
variable [PyChars] {E : Env Stmt World Exc} {c : ReplyState} {job : Job} {jobs : List Job}

omit [PyChars] in
theorem WorksOn.spares {jobId : Text} {l : Stmt} {f : World → World} (hf : WorksOn jobId l f) (c : ReplyState) :
    SparesReplies c (f c.1, c.2) where
  history := rfl
  scheduled i hi := by
    by_cases hid : i = jobId
    · subst hid
      rwa [Scheduled, hf.scheduled c.1 hi] at hi
    · rwa [Scheduled, hf.others c.1 i hid] at hi
  carried := hf.carried c.1

omit [PyChars] in
theorem WorksOn.taking {jobId : Text} {l : Stmt} {f : World → World} (hf : WorksOn jobId l f)
    (hc : Taking jobId jobs c) : Taking jobId jobs (f c.1, c.2) := by
  refine ⟨⟨(hf.spares c).kept hc.kept, hc.nodup, fun j hj => ?_⟩, hc.fresh⟩
  have hid : j.jobId ≠ jobId := by
    rintro rfl
    exact hc.fresh (List.mem_map_of_mem hj)
  have hrow := hc.rows j hj
  refine ⟨(hf.others c.1 _ hid).trans hrow.1, (hf.carried c.1 _).trans hrow.2⟩

omit [PyChars] in
theorem KeepsRows.listed {l : Stmt} {f : World → World} (hf : KeepsRows l f) (hc : Listed jobs c) :
    Listed jobs (f c.1, c.2) := by
  refine ⟨((hf.worksOn []).spares c).kept hc.kept, hc.nodup, fun j hj => ?_⟩
  rw [hf.status, hf.carried]
  exact hc.rows j hj

omit [PyChars] in
theorem KeepsRows.inHand {l : Stmt} {f : World → World} (hf : KeepsRows l f) (hc : InHand job jobs c) :
    InHand job jobs (f c.1, c.2) :=
  ⟨(hf.worksOn job.jobId).taking hc.toTaking, (hf.status c.1 _).trans hc.status, (hf.carried c.1 _).trans hc.carried⟩

theorem worksOn_rg {α : Type} {jobId : Text} {p : M α} (hp : Always (WorksOn jobId) p) (hc : Taking jobId jobs c) :
    ReplyJudge E .worker none (fun _ => Taking jobId jobs) p c := by
  have hmoves : Always (Moves (recordReply none) (Taking jobId jobs) SparesReplies) p :=
    hp.mono fun l f hf c hc => ⟨hf.taking hc, hf.spares c⟩
  exact hmoves.moves (taking_stable jobId jobs) hc

theorem keepsRows_rg {α : Type} {p : M α} (hp : Always KeepsRows p) (hc : InHand job jobs c) :
    ReplyJudge E .worker none (fun _ => InHand job jobs) p c := by
  have hmoves : Always (Moves (recordReply none) (InHand job jobs) SparesReplies) p :=
    hp.mono fun l f hf c hc => ⟨hf.inHand hc, (hf.worksOn job.jobId).spares c⟩
  exact hmoves.moves (inHand_stable job jobs) hc

/-- The place that a program leads to, which is `place` where it raises. -/
def placeOr (place : WorkerPlace) : Except Exc WorkerPlace → WorkerPlace
  | .ok place' => place'
  | .error _ => place

/-- The place that a turn has led to. An exception ends the run. -/
abbrev placeOf : Except Exc WorkerPlace → WorkerPlace := placeOr (.waiting [])

/-- What the worker knows where a turn has led it. -/
abbrev Reached (x : Except Exc WorkerPlace) : ReplyState → Prop := Held (placeOf x)

omit [PyChars] in
theorem Listed.nil (h : RepliesKept c) : Listed [] c := ⟨h, List.nodup_nil, List.forall_mem_nil _⟩

omit [PyChars] in
theorem reached_stable (x : Except Exc WorkerPlace) : Stable (RelyReplies .worker) (Reached x) :=
  held_stable (placeOf x)

omit [PyChars] in
theorem listed_queued (hc : RepliesKept c) :
    Listed (orderBy Job.createdAt (c.1.jobs.rows.filter fun j => j.status = .queued)) c := by
  have hperm := List.perm_insertionSort (fun a b : Job => a.createdAt ≤ b.createdAt)
    (c.1.jobs.rows.filter fun j => j.status = .queued)
  refine ⟨hc, ?_, fun job hjob => ?_⟩
  · refine (hperm.map Job.jobId).nodup_iff.2 ?_
    exact c.1.jobs.nodup.sublist (List.filter_sublist.map Job.jobId)
  · obtain ⟨hmem, hqueued⟩ := List.mem_filter.1 (hperm.mem_iff.1 hjob)
    have hfind : c.1.jobs.find? job.jobId = some job := Table.find?_of_mem hmem
    rw [statusOf, carriedBy, hfind]
    exact ⟨congrArg some (of_decide_eq_true hqueued), rfl⟩

variable (out : Outside) (worker : JobWorker)

omit [PyChars] in
theorem listQueued_rg [PyChars] (hc : RepliesKept c) :
    ReplyJudge E .worker none Reached (worker.next out (.waiting [])) c := by
  have hends : ∀ x : Except Exc (List Job), Stable (RelyReplies .worker) (Reached (x.map WorkerPlace.waiting)) :=
    fun x => reached_stable _
  have hlist : ReplyJudge E .worker none (fun x => Reached (x.map WorkerPlace.waiting)) JobStore.listQueued c := by
    rw [ReplyJudge, JobStore.listQueued, watch_observe]
    refine rg_atomic (repliesKept_stable .worker) hends (fun c hc _ => ⟨relyReplies_refl .mail c, ?_⟩)
      (fun c e hc _ => Listed.nil hc) hc
    exact listed_queued hc
  exact rg_watch_bind (relyReplies_refl .worker) hlist (fun jobs c hc => rg_ret reached_stable hc) fun _ _ hc => hc

theorem takeUp_rg (hc : Listed (job :: jobs) c) :
    ReplyJudge E .worker none Reached (worker.next out (.waiting (job :: jobs))) c := by
  have hskip : ∀ c, Listed (job :: jobs) c → ReplyJudge E .worker none Reached (ret (.waiting jobs) : M WorkerPlace) c :=
    fun c hc => rg_ret reached_stable hc.tail.toListed
  simp only [JobWorker.next]
  split_ifs
  · have hstable := listed_stable (job :: jobs)
    have hstart : ReplyJudge E .worker none (Ends (InHand job jobs) (Listed (job :: jobs)))
        (JobStore.setStatus out job.jobId .processing []) c := by
      refine setStatus_rg (K := fun _ => Listed (job :: jobs)) out [] (relyReplies_refl .worker) hstable
        (fun _ => hstable) (inHand_stable job jobs) (fun _ _ h => h)
        (fun c hc => ⟨relyReplies_refl .mail c, hc, fun _ _ => hc⟩) (fun _ c hc => ?_)
        (fun current fields _ hfields c hc => ?_) hc
      · have htick := covers_besideJobs.tick.keepsRows
        exact ⟨htick.listed hc, (htick.worksOn job.jobId).spares c⟩
      · obtain ⟨hqueued, hrow⟩ := hc.rows job List.mem_cons_self
        have hcarried := carriedBy_writeStatus c.1 job.jobId .processing (fun v (hv : v ∈ fields) =>
          JobField.IsStamp.keepsReply ((hfields v hv).resolve_left List.not_mem_nil))
        have hstatus := statusOf_writeStatus c.1 job.jobId .processing fields
        have hspares : SparesReplies c (c.1.writeStatus job.jobId .processing fields, c.2) := by
          refine ⟨rfl, fun i hi => ?_, hcarried⟩
          by_cases hid : i = job.jobId
          · rw [hid]
            exact .inl hqueued
          · rwa [Scheduled, hstatus, if_neg hid] at hi
        refine ⟨hspares, ⟨⟨hspares.kept hc.kept, hc.tail.nodup, fun j hj => ?_⟩, hc.tail.fresh⟩, ?_, ?_⟩
        · have hid : j.jobId ≠ job.jobId := fun h => hc.tail.fresh (h ▸ List.mem_map_of_mem hj)
          rw [hstatus, if_neg hid, hcarried]
          exact hc.tail.rows j hj
        · rw [hstatus, if_pos rfl, hqueued]
          rfl
        · rw [hcarried, hrow]
    refine rg_watch_tryCatch (relyReplies_refl .worker) (M := fun x => Held (placeOr (.waiting (job :: jobs)) x)) ?_
      (fun _ _ hc => hc) fun _ c => hskip c
    exact rg_watch_bind (relyReplies_refl .worker) hstart (fun _ c hc => rg_ret (fun _ => held_stable _) hc)
      fun _ _ hc => hc
  · exact hskip c hc

theorem reread_rg (hc : InHand job jobs c) :
    ReplyJudge E .worker none Reached (worker.next out (.begun job jobs)) c := by
  have hstable := inHand_stable job jobs
  have hskip : ∀ c, InHand job jobs c → ReplyJudge E .worker none Reached (ret (.waiting jobs) : M WorkerPlace) c :=
    fun c hc => rg_ret reached_stable hc.toListed
  have hends : ∀ x : Except Exc (Option Job), Stable (RelyReplies .worker) fun c => InHand job jobs c ∧
      ∀ current, x = .ok (some current) → InHand current jobs c := fun x c c' hcc' h =>
    ⟨hstable c c' hcc' h.1, fun current hx => inHand_stable current jobs c c' hcc' (h.2 current hx)⟩
  simp only [JobWorker.next]
  split_ifs
  · have hrefreshed : ReplyJudge E .worker none (fun x c => InHand job jobs c ∧
        ∀ current, x = .ok (some current) → InHand current jobs c) (SubmitTranscript.refreshed worker job) c := by
      unfold SubmitTranscript.refreshed
      cases truthy job.attachmentStoragePath with
      | none =>
        refine rg_ret hends ⟨hc, fun current hx => ?_⟩
        obtain rfl := Option.some.inj (Except.ok.inj hx)
        exact hc
      | some path =>
        have hmoved : Always KeepsRows _ := SubmitTranscript.moved_keepsRows job.jobId path
          worker.storage.processing
        simp only [bind_eq, ← Prog.bind_assoc] at hmoved ⊢
        refine rg_watch_bind (relyReplies_refl .worker) (keepsRows_rg hmoved hc) (fun _ c hc => ?_)
          fun _ _ hc => ⟨hc, fun _ hx => by cases hx⟩
        rw [JobStore.get, watch_observe]
        refine rg_atomic hstable hends (fun c hc _ => ⟨relyReplies_refl .mail c, hc, fun current hx => ?_⟩)
          (fun c e hc _ => ⟨hc, fun _ hx => by cases hx⟩) hc
        have hfind : c.1.jobs.find? job.jobId = some current := Except.ok.inj hx
        have hid : current.jobId = job.jobId := Table.find?_key hfind
        refine ⟨⟨hc.toListed, hid ▸ hc.fresh⟩, ?_, ?_⟩
        · rw [hid, hc.status]
        · rw [carriedBy, hid, hfind]
          rfl
    refine rg_watch_tryCatch (relyReplies_refl .worker) (M := fun x => Held (placeOr (.begun job jobs) x)) ?_
      (fun _ _ hc => hc) fun _ c => hskip c
    refine rg_watch_bind (relyReplies_refl .worker) hrefreshed (fun current c hc => ?_) fun _ _ hc => hc.1
    cases current with
    | none => exact rg_ret (fun _ => held_stable _) hc.1.toListed
    | some current => exact rg_ret (fun _ => held_stable _) (hc.2 current rfl)
  · exact rg_ret reached_stable hc

theorem work_rg {current : Job} (hc : InHand current jobs c) :
    ReplyJudge E .worker none Reached (worker.next out (.working job current jobs)) c := by
  have hwork := (workOn_worksOn out worker job current).tryCatch fun _ => always_ret ()
  refine rg_watch_bind (relyReplies_refl .worker) (worksOn_rg hwork hc.toTaking) (fun _ c hc => ?_) fun _ _ hc => ?_
  · exact rg_ret reached_stable hc.toListed
  · exact Listed.nil hc.kept

theorem next_rg {place : WorkerPlace} (hc : Held place c) :
    ReplyJudge E .worker none Reached (worker.next out place) c := by
  cases place with
  | waiting jobs =>
    cases jobs with
    | nil => exact listQueued_rg out worker (Listed.kept hc)
    | cons job jobs => exact takeUp_rg out worker hc
  | begun job jobs => exact reread_rg out worker hc
  | working job current jobs => exact work_rg out worker hc

/-! ### Runs -/

/-- What a turn of a thread leads to: whether a reply was one to a question, and the worker's place. -/
abbrev ReplyResult : Thread → Type
  | .mail => Bool
  | .worker => WorkerPlace

/-- The turns: any reply to a question on any job, and the worker's way on. -/
inductive ReplyTurn : (t : Thread) → Except Exc (ReplyResult t) → Prog Stmt ReplyState Exc (ReplyResult t) → Prop
  | reply (msg senderEmail jobId x) : ReplyTurn .mail x
      (watch (recordReply (some (msg, jobId))) (EmailProcessingPipeline.continueClarification out msg senderEmail jobId))
  | work (x : Except Exc WorkerPlace) : ReplyTurn .worker x (watch (recordReply none) (worker.next out (placeOf x)))

/-- No reply has come, and the worker is about to read its list. -/
def noReplies : (t : Thread) → Prog Stmt ReplyState Exc (ReplyResult t)
  | .mail => ret false
  | .worker => ret (.waiting [])

/-- A run of the mail thread and the worker. -/
abbrev ReplyRun (E : Env Stmt World Exc) (w : World)
    (d : ((t : Thread) → Prog Stmt ReplyState Exc (ReplyResult t)) × ReplyState) : Prop :=
  TurnSteps (E.watched ReplyHistory) (ReplyTurn out worker) (noReplies, w, {}) d

omit [PyChars] in
/-- What a thread knows where a turn has led it. -/
def ReplyKnown : (t : Thread) → Except Exc (ReplyResult t) → ReplyState → Prop
  | .mail, _ => RepliesKept
  | .worker, x => Reached x

theorem replyTurns : TurnSpec (E.watched ReplyHistory) (ReplyTurn out worker) RelyReplies (fun t => RelyReplies t.other)
    ReplyKnown where
  refl := relyReplies_refl
  trans := relyReplies_trans
  others t u htu c c' h := by
    cases t <;> cases u <;> first | exact h | exact absurd rfl htu
  taken t x p c hp hc := by
    cases hp with
    | reply msg senderEmail jobId => exact continueClarification_rg out msg senderEmail jobId hc
    | work => exact next_rg out worker hc

omit [PyChars] in
theorem Held.carries {place : WorkerPlace} (h : Held place c) {job : Job} (hjob : job ∈ place.objects) :
    CarriesReply c job.jobId job.carried := by
  cases place with
  | waiting jobs => exact Listed.carries h hjob
  | begun current jobs =>
    rcases List.mem_cons.1 hjob with rfl | hjob
    · exact InHand.carries h
    · exact h.toListed.carries hjob
  | working listed current jobs =>
    rcases List.mem_cons.1 hjob with rfl | hjob
    · exact InHand.carries h
    · exact h.toListed.carries hjob

/-- **A job that a reply has put back to QUEUED carries that reply.** Wherever the worker is, each `Job` object that it
holds has the option which the last such reply has selected as its hint, and the Message-ID of that reply as its parent
message. -/
theorem reply_carried {w : World} {d : ((t : Thread) → Prog Stmt ReplyState Exc (ReplyResult t)) × ReplyState}
    (hrun : ReplyRun out worker E w d) {place : WorkerPlace} (hplace : d.1 .worker = ret place) :
    ∀ job ∈ place.objects, CarriesReply d.2 job.jobId job.carried := by
  have hstart : RepliesKept (w, {}) := fun _ _ _ _ _ _ h => by cases h
  have hok : TurnOk (E.watched ReplyHistory) RelyReplies (fun t => RelyReplies t.other) ReplyKnown
      (noReplies, w, {}) := by
    intro t
    cases t with
    | mail => exact rg_ret (fun _ => repliesKept_stable .mail) hstart
    | worker => exact rg_ret reached_stable (Listed.nil hstart)
  have hheld : Held place d.2 := (replyTurns out worker).at_place hrun hok (t := .worker) (x := .ok place) hplace
  exact fun job hjob => hheld.carries hjob

end

section
attribute [local instance] asciiChars

/-- The worker of the run. -/
def teamsWorker : JobWorker := smallWorker [⟨7, "Team A"⟩, ⟨8, "Team B"⟩]

/-- The mail thread's call for the reply "team a". -/
def answerTeamA : Prog Stmt ReplyState Exc Bool :=
  watch (recordReply (some (replyOf "team a", questionJob.jobId)))
    (EmailProcessingPipeline.continueClarification .plain (replyOf "team a") questionJob.senderEmail questionJob.jobId)

/-- A turn of the worker. -/
def workerTurn (x : Except Exc WorkerPlace) : Prog Stmt ReplyState Exc WorkerPlace :=
  watch (recordReply none) (teamsWorker.next .plain (placeOf x))

/-- The worker's question has been answered. -/
def answeredState : ReplyState := (answerTeamA.run (askedWorld [⟨7, "Team A"⟩, ⟨8, "Team B"⟩], {})).2

/-- Three turns of the worker. -/
def threeTurns : Except Exc WorkerPlace × ReplyState :=
  let listed := (workerTurn (.ok (.waiting []))).run answeredState
  let begun := (workerTurn listed.1).run listed.2
  (workerTurn begun.1).run begun.2

/-- A question is asked and answered, and the worker takes the job up again. -/
theorem reply_carried_teamA : ∃ d place,
    ReplyRun .plain teamsWorker .faulty (askedWorld [⟨7, "Team A"⟩, ⟨8, "Team B"⟩]) d ∧ d.1 .worker = ret place ∧
    d.2.2.replies questionJob.jobId = some (["Team A".toList], "<2@uni.ac.uk>".toList) ∧
    place.objects.map Job.jobId = [questionJob.jobId] ∧
    ∀ job ∈ place.objects, CarriesReply d.2 job.jobId job.carried := by
  have hcalm : ∀ l c, (Env.faulty.watched ReplyHistory : Env Stmt ReplyState Exc).allowed l c := fun _ _ => trivial
  have hstart : ReplyRun .plain teamsWorker .faulty (askedWorld [⟨7, "Team A"⟩, ⟨8, "Team B"⟩])
      (noReplies, askedWorld [⟨7, "Team A"⟩, ⟨8, "Team B"⟩], {}) := .refl
  obtain ⟨d₁, hrun₁, -, hstate₁, hother⟩ := hstart.run hcalm (t := .mail) (x := .ok false) (p := answerTeamA) rfl
    (.reply ..)
  obtain ⟨d₂, hrun₂, hplace₂, hstate₂, -⟩ := hrun₁.run hcalm (t := .worker) (x := .ok (.waiting []))
    (p := workerTurn (.ok (.waiting []))) (hother .worker (by decide)) (.work _)
  obtain ⟨d₃, hrun₃, hplace₃, hstate₃, -⟩ := hrun₂.run hcalm hplace₂ (.work _)
  obtain ⟨d₄, hrun₄, hplace₄, hstate₄, -⟩ := hrun₃.run hcalm hplace₃ (.work _)
  rw [hstate₃, hstate₂, hstate₁] at hplace₄ hstate₄
  have hok : threeTurns.1 = .ok (placeOf threeTurns.1) := by decide +kernel
  have hat : d₄.1 .worker = ret (placeOf threeTurns.1) := hplace₄.trans (congrArg Prog.ofExcept hok)
  refine ⟨d₄, _, hrun₄, hat, ?_, by decide +kernel, reply_carried .plain teamsWorker hrun₄ hat⟩
  rw [hstate₄]
  decide +kernel

end

end GroupAssessmentAgent
