import GroupAssessmentAgent.Jobs.JobView

/-!
# Queued jobs do not meet

`run_once` works on the jobs that it has listed, one after the other. What belongs to one of them is in the end the same
as if it had been listed alone, if its calls of the backends and its request to the model get the same: two runs of the
work on one job take their steps together (`Lockstep`), and the work on the others leaves its view as it is.
-/

namespace GroupAssessmentAgent
open Prog

/-! ### What the clients do -/

/-- The client from its `n`-th call on. -/
def DiarisationClient.later (d : DiarisationClient) (n : Nat) : DiarisationClient where
  login k := d.login (n + k)
  listGroups k := d.listGroups (n + k)
  createMeeting k := d.createMeeting (n + k)
  uploadFile k := d.uploadFile (n + k)
  addAttendee k := d.addAttendee (n + k)
  resolveAliases k := d.resolveAliases (n + k)
  searchTranscripts k := d.searchTranscripts (n + k)

def GithubRaginatorClient.later (g : GithubRaginatorClient) (n : Nat) : GithubRaginatorClient where
  findRepoByGroupName k := g.findRepoByGroupName (n + k)
  query k := g.query (n + k)

/-- The worker with its backends, and what is outside; where `llm n` is an exception, the model raises it at its `n`-th
request. -/
structure Clients where
  worker : JobWorker
  out : Outside
  llm : Nat → Option Exc

/-- What the calls of a job get, and what its request gets. -/
structure Behaviour where
  diarisation : DiarisationClient
  github : GithubRaginatorClient
  model : Nat → Text → Text → Except Exc Text

namespace Clients

/-- The answer of the model to its `n`-th request, or the exception. -/
def model (c : Clients) (n : Nat) (systemPrompt userPrompt : Text) : Except Exc Text :=
  match c.llm n with
  | some e => .error e
  | none => .ok (c.out.generate n systemPrompt userPrompt)

/-- What calls and requests get that come after those before `w`. -/
def behaviour (c : Clients) (w : World) : Behaviour where
  diarisation := c.worker.diarisation.later w.backendCalls
  github := c.worker.github.later w.backendCalls
  model k := c.model (w.generations + k)

end Clients

/-- From these two worlds on, calls and requests get the same, and the settings are the same. -/
structure SameBehaviour (c c' : Clients) (w₀ w₀' : World) : Prop where
  storage : c'.worker.storage = c.worker.storage
  dates : c'.out.datetimeFromIso = c.out.datetimeFromIso
  behaviour : c.behaviour w₀ = c'.behaviour w₀'

/-! ### Two runs of the work on a job -/

/-- The views are the same, and as many calls and requests were made since the two worlds. -/
structure Lockstep (job : Job) (w₀ w₀' w w' : World) : Prop where
  view : job.view w = job.view w'
  calls : ∃ k, w.backendCalls = w₀.backendCalls + k ∧ w'.backendCalls = w₀'.backendCalls + k
  requests : ∃ k, w.generations = w₀.generations + k ∧ w'.generations = w₀'.generations + k

abbrev Twins (c c' : Clients) (w₀ w₀' : World) (job : Job) {α β : Type} (R : α → β → Prop) (p : M α) (q : M β) : Prop :=
  Twin (llmRaises c.llm) (llmRaises c'.llm) (Lockstep job w₀ w₀') R p q

section
variable {job : Job} {w₀ w₀' w w' : World} (h : Lockstep job w₀ w₀' w w')
include h

theorem Lockstep.row : (w.jobs.find? job.jobId).map Job.unstamped = (w'.jobs.find? job.jobId).map Job.unstamped :=
  congrArg JobView.row h.view

theorem Lockstep.file {path : Text} (hpath : job.storedName = some (pathName path)) :
    fileAt w path = fileAt w' path := by
  have hfiles := congrFun (congrArg JobView.files h.view) path
  simpa only [Job.view, viewOf, if_pos hpath] using hfiles

theorem Lockstep.found {path : Text} (hpath : job.storedName = some (pathName path)) :
    (w.files.find? path = none ∧ w'.files.find? path = none) ∨
      ∃ f f', w.files.find? path = some f ∧ w'.files.find? path = some f' ∧ f.content = f'.content := by
  have hfile := h.file hpath
  rw [fileAt, fileAt] at hfile
  cases hw : w.files.find? path with
  | none =>
    rw [hw, Option.map_none] at hfile
    exact .inl ⟨rfl, Option.map_eq_none_iff.1 hfile.symm⟩
  | some f =>
    rw [hw, Option.map_some] at hfile
    obtain ⟨f', hw', hcontent⟩ := Option.map_eq_some_iff.1 hfile.symm
    exact .inr ⟨f, f', rfl, hw', hcontent.symm⟩

end

section
variable {c c' : Clients} {w₀ w₀' : World} {job : Job}

/-! ### Statements -/

theorem utcnow_twins : Twins c c' w₀ w₀' job (fun _ _ => True) (utcnow c.out) (utcnow c'.out) :=
  twin_atomic (fun _ _ _ => rfl) fun _ _ h => ⟨trivial, h.view, h.calls, h.requests⟩

theorem stamp_twins (wanted : Prop) [Decidable wanted] {column : Option Instant → JobField}
    (hcolumn : ∀ now, (column now).IsStamp) : Twins c c' w₀ w₀' job
      (fun fields fields' => (∀ v ∈ fields, v.IsStamp) ∧ ∀ v ∈ fields', v.IsStamp)
      (JobStore.stamp c.out wanted column) (JobStore.stamp c'.out wanted column) := by
  unfold JobStore.stamp
  split_ifs
  · refine utcnow_twins.bind fun now now' _ => twin_ret ⟨?_, ?_⟩
    · exact List.forall_mem_singleton.2 (hcolumn _)
    · exact List.forall_mem_singleton.2 (hcolumn _)
  · exact twin_ret ⟨List.forall_mem_nil _, List.forall_mem_nil _⟩

theorem setStatus_twins (new : JobState) (extra : List JobField) : Twins c c' w₀ w₀' job (· = ·)
    (JobStore.setStatus c.out job.jobId new extra) (JobStore.setStatus c'.out job.jobId new extra) := by
  refine Twin.then (twin_observe (fun _ _ _ => rfl) fun s t h => ?_) fun row => ?_
  · have hstatus := congrArg (Option.map Job.status) h.row
    rwa [Option.map_map, Option.map_map] at hstatus
  · cases row with
    | none => exact twin_raise _
    | some current =>
      dsimp only
      split_ifs
      · exact twin_raise _
      · refine (stamp_twins _ fun _ => .inl rfl).bind fun started started' hstarted => ?_
        refine (stamp_twins _ fun _ => .inr rfl).bind fun completed completed' hcompleted => ?_
        refine twin_change (fun _ _ _ => rfl) rfl fun s t h => ⟨?_, h.calls, h.requests⟩
        have hfields : ∀ v ∈ started ++ completed, v.IsStamp := List.forall_mem_append.2 ⟨hstarted.1, hcompleted.1⟩
        have hfields' : ∀ v ∈ started' ++ completed', v.IsStamp :=
          List.forall_mem_append.2 ⟨hstarted.2, hcompleted.2⟩
        rw [Job.view, Job.view, List.append_assoc, List.append_assoc, view_writeStatus _ _ _ _ _ _ hfields,
          view_writeStatus _ _ _ _ _ _ hfields', if_pos rfl, if_pos rfl, ← Job.view, ← Job.view, h.view]

theorem update_twins (fields : List JobField) : Twins c c' w₀ w₀' job (· = ·) (JobStore.update job.jobId fields)
    (JobStore.update job.jobId fields) := by
  unfold JobStore.update
  split_ifs
  · exact twin_ret rfl
  · refine twin_change (fun _ _ _ => rfl) rfl fun s t h => ⟨?_, h.calls, h.requests⟩
    rw [Job.view, Job.view, view_writeJob, view_writeJob, ← Job.view, ← Job.view, h.view]

theorem put_twins (question expectedField : Text) (options : List Text) : Twins c c' w₀ w₀' job (· = ·)
    (PendingClarificationStore.put c.out job.jobId question expectedField options)
    (PendingClarificationStore.put c'.out job.jobId question expectedField options) := by
  refine utcnow_twins.bind fun now now' _ => twin_change (fun _ _ _ => rfl) rfl fun s t h =>
    ⟨?_, h.calls, h.requests⟩
  rw [Job.view, Job.view, view_put, view_put, if_pos rfl, if_pos rfl, ← Job.view, ← Job.view, h.view]
  rfl

theorem mail_twins (req : Request) (mail : Rendered) (paths : List Text) : Twins c c' w₀ w₀' job (· = ·)
    (req.enqueue c.out mail (some job.jobId) paths) (req.enqueue c'.out mail (some job.jobId) paths) := by
  have henqueue : Twins c c' w₀ w₀' job (fun _ _ => True)
      (Outbox.enqueue c.out req.senderEmail mail.1 mail.2 (some job.jobId) paths req.inReplyTo req.references)
      (Outbox.enqueue c'.out req.senderEmail mail.1 mail.2 (some job.jobId) paths req.inReplyTo req.references) := by
    refine utcnow_twins.bind fun now now' _ => twin_atomic (fun _ _ _ => rfl) fun s t h =>
      ⟨trivial, ?_, h.calls, h.requests⟩
    rw [Job.view, Job.view, view_mail, view_mail, if_pos rfl, if_pos rfl, ← Job.view, ← Job.view, h.view]
    rfl
  exact henqueue.bind fun _ _ _ => twin_ret rfl

/-! ### Files and alerts -/

theorem moveTo_twins {path : Text} (hpath : job.storedName = some (pathName path)) (dir : Text) :
    Twins c c' w₀ w₀' job (fun dest dest' => dest = dest' ∧ pathName dest = pathName path) (moveTo path dir)
      (moveTo path dir) := by
  refine twin_atomic (fun _ _ _ => rfl) fun s t h => ?_
  have hdest := pathName_joinPath dir (slash_pathName path)
  rcases h.found hpath with ⟨hs, ht⟩ | ⟨f, f', hs, ht, -⟩
  · rw [hs, ht]
    exact ⟨rfl, h⟩
  · rw [hs, ht]
    refine ⟨⟨rfl, hdest⟩, ?_, h.calls, h.requests⟩
    have hview := view_movedFile job.jobId job.storedName s hs hdest
    have hview' := view_movedFile job.jobId job.storedName t ht hdest
    rw [if_pos hpath, ← Job.view] at hview hview'
    exact hview.trans ((congrArg (JobView.moved · path _) h.view).trans hview'.symm)

theorem fileExists_twins {path : Text} (hpath : job.storedName = some (pathName path)) :
    Twins c c' w₀ w₀' job (· = ·) (fileExists path) (fileExists path) := by
  refine twin_observe (fun _ _ _ => rfl) fun s t h => ?_
  have hfound := congrArg Option.isSome (h.file hpath)
  simpa only [fileAt, Option.isSome_map] using hfound

theorem readBytes_twins {path : Text} (hpath : job.storedName = some (pathName path)) :
    Twins c c' w₀ w₀' job (· = ·) (readBytes path) (readBytes path) := by
  refine twin_observeE (fun _ _ _ => rfl) fun s t h => ?_
  rcases h.found hpath with ⟨hs, ht⟩ | ⟨f, f', hs, ht, hcontent⟩
  · rw [hs, ht]
    rfl
  · rw [hs, ht]
    exact hcontent

/-- An alert depends on the clock and on earlier alerts; it returns, and leaves the view as it is. -/
theorem alert_twins (n n' : AdminNotifier) (category : AdminCategory) (summary : Text) (detail : List (Text × Text)) :
    Twins c c' w₀ w₀' job (fun _ _ => True) (n.alert c.out category summary detail)
      (n'.alert c'.out category summary detail) := by
  let φ : World → JobView × Nat × Nat := fun w => (job.view w, w.backendCalls, w.generations)
  have hleaves : ∀ (n : AdminNotifier) (c : Clients),
      Leaves (llmRaises c.llm) φ (fun x => ∃ sent, x = .ok sent) (n.alert c.out category summary detail) := by
    intro n c
    have hclock : Leaves (llmRaises c.llm) φ (fun x => ∃ now, x = .ok now) (utcnow c.out) :=
      leaves_atomic (fun _ => rfl) fun _ => ⟨rfl, _, rfl⟩
    unfold AdminNotifier.alert
    cases truthy n.adminEmail with
    | none => exact leaves_ret ⟨_, rfl⟩
    | some adminEmail =>
      have hdue : Leaves (llmRaises c.llm) φ (fun x => ∃ due, x = .ok due) (n.shouldSend c.out category) := by
        refine Leaves.then (fun s => ⟨rfl, _, rfl⟩) fun row => ?_
        cases row with
        | none => exact leaves_ret ⟨_, rfl⟩
        | some row => exact hclock.then fun _ => leaves_ret ⟨_, rfl⟩
      have hmail : Leaves (llmRaises c.llm) φ (fun x => ∃ id, x = .ok id) (Outbox.enqueue c.out adminEmail
          (AdminNotifier.alertSubject category) (AdminNotifier.alertBody summary detail) none [] none none) := by
        refine hclock.then fun now => leaves_atomic (fun _ => rfl) fun s => ⟨?_, _, rfl⟩
        exact Prod.ext ((view_mail job.jobId job.storedName s _ _).trans (if_neg (Option.some_ne_none _).symm)) rfl
      have hrecord : Leaves (llmRaises c.llm) φ (fun x => ∃ u, x = .ok u) (AdminNotifier.recordSent c.out category) :=
        hclock.then fun _ _ => ⟨rfl, _, rfl⟩
      refine hdue.then fun due => ?_
      split_ifs
      · exact hmail.then fun _ => hrecord.then fun _ => leaves_ret ⟨_, rfl⟩
      · exact leaves_ret ⟨_, rfl⟩
  refine twin_of_leaves (fun s s' t t' hs ht h => ?_) (hleaves n c) (hleaves n' c') fun _ _ => trivial
  obtain ⟨hview, hcounts⟩ := Prod.ext_iff.1 hs
  obtain ⟨hview', hcounts'⟩ := Prod.ext_iff.1 ht
  obtain ⟨hcalls, hrequests⟩ := Prod.ext_iff.1 hcounts
  obtain ⟨hcalls', hrequests'⟩ := Prod.ext_iff.1 hcounts'
  refine ⟨hview.trans (h.view.trans hview'.symm), ?_, ?_⟩
  · obtain ⟨k, hk, hk'⟩ := h.calls
    exact ⟨k, hcalls.trans hk, hcalls'.trans hk'⟩
  · obtain ⟨k, hk, hk'⟩ := h.requests
    exact ⟨k, hrequests.trans hk, hrequests'.trans hk'⟩

/-! ### The backends and the model -/

theorem callBackend_twins {α : Type} (call : BackendCall) {answer answer' : Nat → Except Exc α}
    (hanswer : ∀ k, answer (w₀.backendCalls + k) = answer' (w₀'.backendCalls + k)) :
    Twins c c' w₀ w₀' job (· = ·) (callBackend call answer) (callBackend call answer') := by
  refine twin_atomic (fun _ _ _ => rfl) fun s t h => ?_
  obtain ⟨k, hk, hk'⟩ := h.calls
  refine ⟨?_, h.view, ⟨k + 1, ?_, ?_⟩, h.requests⟩
  · simp only
    rw [hk, hk', hanswer k]
    exact matching_refl _
  · exact congrArg (· + 1) hk
  · exact congrArg (· + 1) hk'

variable (H : SameBehaviour c c' w₀ w₀')
include H

theorem generateText_twins (systemPrompt userPrompt : Text) : Twins c c' w₀ w₀' job (· = ·)
    (generateText c.out systemPrompt userPrompt) (generateText c'.out systemPrompt userPrompt) := by
  have hmodel : ∀ k, c.model (w₀.generations + k) systemPrompt userPrompt =
      c'.model (w₀'.generations + k) systemPrompt userPrompt := fun k =>
    congrFun (congrFun (congrFun (congrArg Behaviour.model H.behaviour) k) systemPrompt) userPrompt
  have hrun : ∀ (c : Clients) (s : World), (generateText c.out systemPrompt userPrompt).runRaising (llmRaises c.llm) s =
      (c.model s.generations systemPrompt userPrompt, { s with generations := s.generations + 1 }) := by
    intro c s
    rw [generateText, runRaising_atomic, Clients.model, llmRaises]
    cases c.llm s.generations <;> rfl
  intro s t h
  obtain ⟨k, hk, hk'⟩ := h.requests
  rw [hrun, hrun, hk, hk', hmodel k]
  exact ⟨matching_refl _, h.view, h.calls, k + 1, rfl, rfl⟩

theorem groupsOf_twins (job' : Job) : Twins c c' w₀ w₀' job (· = ·) (groupsOf c.worker.diarisation job')
    (groupsOf c'.worker.diarisation job') := by
  have hd := congrArg Behaviour.diarisation H.behaviour
  unfold groupsOf
  refine Twin.then (callBackend_twins _ fun k => ?_) fun token => ?_
  · exact congrFun (congrFun (congrArg DiarisationClient.login hd) k) _
  · refine Twin.then (callBackend_twins _ fun k => ?_) fun groups => twin_ret rfl
    exact congrFun (congrFun (congrArg DiarisationClient.listGroups hd) k) _

/-! ### What both operations do -/

omit H in
theorem reportFailure_twins (userReason : Text) (category : AdminCategory) (summary reason : Text) :
    Twins c c' w₀ w₀' job (· = ·) (reportFailure c.out c.worker.admin job userReason category summary reason)
      (reportFailure c'.out c'.worker.admin job userReason category summary reason) := by
  unfold reportFailure
  exact (mail_twins _ _ _).then fun _ => (alert_twins _ _ _ _ _).bind fun _ _ _ => twin_ret rfl

omit H in
theorem askForGroup_twins (groups : List GroupSummary) (subject : Text) : Twins c c' w₀ w₀' job (· = ·)
    (askForGroup c.out job groups subject) (askForGroup c'.out job groups subject) := by
  unfold askForGroup
  exact (setStatus_twins _ _).then fun _ => (put_twins _ _ _).then fun _ => mail_twins _ _ _

namespace SubmitTranscript

theorem addAttendees_twins (token : Text) (groupId meetingId : Nat) (resolved : List (Text × Option Nat)) :
    Twins c c' w₀ w₀' job (· = ·) (addAttendees c.worker.diarisation token groupId meetingId resolved)
      (addAttendees c'.worker.diarisation token groupId meetingId resolved) := by
  have hd := congrArg Behaviour.diarisation H.behaviour
  induction resolved with
  | nil => exact twin_ret rfl
  | cons entry rest ih =>
    obtain ⟨name, member⟩ := entry
    cases member with
    | none => exact ih.then fun _ => twin_ret rfl
    | some memberId =>
      refine Twin.then (callBackend_twins _ fun k => ?_) fun _ => ih.then fun _ => twin_ret rfl
      exact congrFun (congrFun (congrFun (congrFun (congrFun (congrArg DiarisationClient.addAttendee hd) k) _) _) _) _

theorem attendeesOf_twins (token : Text) (groupId meetingId : Nat) (speakers : List Text) :
    Twins c c' w₀ w₀' job (· = ·) (attendeesOf c.worker.diarisation token groupId meetingId speakers)
      (attendeesOf c'.worker.diarisation token groupId meetingId speakers) := by
  have hd := congrArg Behaviour.diarisation H.behaviour
  unfold attendeesOf
  split_ifs
  · exact twin_ret rfl
  · refine Twin.then (callBackend_twins _ fun k => ?_) fun resolved => addAttendees_twins H token _ _ resolved
    exact congrFun (congrFun (congrFun (congrFun (congrArg DiarisationClient.resolveAliases hd) k) _) _) _

omit H in
theorem storedContent_twins : Twins c c' w₀ w₀' job (· = ·) (storedContent job) (storedContent job) := by
  unfold storedContent
  cases hpath : job.attachmentStoragePath with
  | none => exact twin_raise _
  | some path => exact readBytes_twins (by rw [Job.storedName, hpath]; rfl)

theorem submit_twins (token : Text) (group : GroupSummary) : Twins c c' w₀ w₀' job (· = ·)
    (submit c.out c.worker.diarisation job token group) (submit c'.out c'.worker.diarisation job token group) := by
  have hd := congrArg Behaviour.diarisation H.behaviour
  have hdate : meetingDatetime c'.out job = meetingDatetime c.out job := by
    rw [meetingDatetime, H.dates, meetingDatetime]
  unfold submit
  rw [hdate]
  refine (twin_ofExcept _).then fun date => Twin.then (callBackend_twins _ fun k => ?_) fun meetingId => ?_
  · exact congrFun (congrFun (congrFun (congrFun (congrArg DiarisationClient.createMeeting hd) k) _) _) _
  · refine storedContent_twins.then fun content => Twin.then (callBackend_twins _ fun k => ?_) fun rawFileId => ?_
    · exact congrFun (congrFun (congrFun (congrFun (congrFun (congrFun
        (congrArg DiarisationClient.uploadFile hd) k) _) _) _) _) _
    · exact (attendeesOf_twins H token _ meetingId _).then fun _ => twin_ret rfl

omit H in
theorem moved_twins {path : Text} (hpath : job.storedName = some (pathName path)) (dir : Text) :
    Twins c c' w₀ w₀' job (· = ·) (do
      let moved ← moveTo path dir
      JobStore.update job.jobId [.attachmentStoragePath (some moved)]) (do
      let moved ← moveTo path dir
      JobStore.update job.jobId [.attachmentStoragePath (some moved)]) :=
  (moveTo_twins hpath dir).bind fun _ _ hmoved => hmoved.1 ▸ update_twins _

omit H in
theorem storedName_of_truthy {path : Text} (hpath : truthy job.attachmentStoragePath = some path) :
    job.storedName = some (pathName path) := by
  rw [Job.storedName, (truthy_eq_some.1 hpath).1, Option.map_some]

omit H in
theorem moveStored_twins (dir : Text) : Twins c c' w₀ w₀' job (· = ·) (moveStored job dir) (moveStored job dir) := by
  unfold moveStored
  cases hpath : truthy job.attachmentStoragePath with
  | none => exact twin_ret rfl
  | some path => exact moved_twins (storedName_of_truthy hpath) dir

omit H in
theorem moveFailedFile_twins (storage : StorageSettings) :
    Twins c c' w₀ w₀' job (· = ·) (moveFailedFile storage job) (moveFailedFile storage job) := by
  unfold moveFailedFile
  cases hpath : truthy job.attachmentStoragePath with
  | none => exact twin_ret rfl
  | some path =>
    have hname := storedName_of_truthy hpath
    refine (fileExists_twins hname).then fun found => ?_
    split_ifs
    · exact moved_twins hname storage.failed
    · exact twin_ret rfl

theorem complete_twins (group : GroupSummary) (submitted : Submitted) : Twins c c' w₀ w₀' job (· = ·)
    (complete c.out c.worker.storage job group submitted) (complete c'.out c'.worker.storage job group submitted) := by
  unfold complete
  rw [H.storage]
  refine (update_twins _).then fun _ => (setStatus_twins _ _).then fun _ => ?_
  exact (moveStored_twins _).then fun _ => mail_twins _ _ _

theorem attempt_twins [PyChars] :
    Twins c c' w₀ w₀' job (· = ·) (attempt c.out c.worker job) (attempt c'.out c'.worker job) := by
  refine Twin.then (groupsOf_twins H job) fun found => ?_
  cases matchGroup job.groupHint found.2 with
  | noMatch => exact askForGroup_twins _ _
  | ambiguous candidates => exact askForGroup_twins _ _
  | matched group => exact (submit_twins H _ group).then fun submitted => complete_twins H group submitted

theorem handleExecuteFailure_twins (reason : Text) : Twins c c' w₀ w₀' job (· = ·)
    (handleExecuteFailure c.out c.worker job reason) (handleExecuteFailure c'.out c'.worker job reason) := by
  unfold handleExecuteFailure
  rw [H.storage]
  refine (setStatus_twins _ _).then fun _ => (moveFailedFile_twins _).then fun _ => ?_
  exact reportFailure_twins _ _ _ _

/-- Rows of the job that differ in their times, and whose file has its name. -/
def SameRow (job : Job) (row row' : Option Job) : Prop :=
  row.map Job.unstamped = row'.map Job.unstamped ∧
    ∀ current, row = some current → current.jobId = job.jobId ∧ current.storedName = job.storedName

omit H in
theorem Twins.of_job {α β : Type} {job' : Job} (hid : job'.jobId = job.jobId) (hname : job'.storedName = job.storedName)
    {R : α → β → Prop} {p : M α} {q : M β} (h : Twins c c' w₀ w₀' job' R p q) : Twins c c' w₀ w₀' job R p q := by
  have hview : ∀ w, job'.view w = job.view w := fun w => by rw [Job.view, hid, hname, Job.view]
  intro s t hst
  obtain ⟨hmatch, hend⟩ := h s t ⟨by rw [hview, hview, hst.view], hst.calls, hst.requests⟩
  exact ⟨hmatch, by rw [← hview, ← hview, hend.view], hend.calls, hend.requests⟩

theorem refreshed_twins : Twins c c' w₀ w₀' job (SameRow job) (refreshed c.worker job) (refreshed c'.worker job) := by
  unfold refreshed
  rw [H.storage]
  cases hpath : truthy job.attachmentStoragePath with
  | none =>
    refine twin_ret ⟨rfl, fun current hcurrent => ?_⟩
    rw [← Option.some.inj hcurrent]
    exact ⟨rfl, rfl⟩
  | some path =>
    have hname := storedName_of_truthy hpath
    refine Twin.bind (moveTo_twins hname _) fun moved moved' hmoved s t h => ?_
    obtain ⟨rfl, hmoved⟩ := hmoved
    -- the UPDATE and the SELECT after it
    have hupdate : Twins c c' w₀ w₀' job (· = ·) _ _ := update_twins [.attachmentStoragePath (some moved)]
    have hupdated : Lockstep job w₀ w₀' (s.writeJob job.jobId [.attachmentStoragePath (some moved)])
        (t.writeJob job.jobId [.attachmentStoragePath (some moved)]) := (hupdate s t h).2
    refine ⟨⟨hupdated.row, fun current hcurrent => ⟨Table.find?_key hcurrent, ?_⟩⟩, hupdated⟩
    rw [Job.storedName, path_of_updated hcurrent, hname, Option.map_some, hmoved]

theorem execute_twins [PyChars] :
    Twins c c' w₀ w₀' job (· = ·) (execute c.out c.worker job) (execute c'.out c'.worker job) := by
  unfold execute
  refine (setStatus_twins _ _).then fun _ => (refreshed_twins H).bind fun row row' hrow => ?_
  obtain ⟨hrows, hown⟩ := hrow
  cases row with
  | none =>
    cases row' with
    | none => exact twin_raise _
    | some current' => cases hrows
  | some current =>
    cases row' with
    | none => cases hrows
    | some current' =>
      obtain ⟨hid, hname⟩ := hown current rfl
      have hid' : current.unstamped.jobId = job.jobId := hid
      have hsame : current'.unstamped = current.unstamped := (Option.some.inj hrows).symm
      -- nothing here looks at the times
      have htwins : Twins c c' w₀ w₀' current.unstamped (· = ·) _ _ :=
        (attempt_twins H).tryCatch fun e => handleExecuteFailure_twins H (failureReason e)
      refine Twins.of_job hid' hname ?_
      change Twins c c' w₀ w₀' current.unstamped (· = ·) (tryCatch (attempt c.out c.worker current.unstamped) fun e =>
        handleExecuteFailure c.out c.worker current.unstamped (failureReason e))
        (tryCatch (attempt c'.out c'.worker current'.unstamped) fun e =>
          handleExecuteFailure c'.out c'.worker current'.unstamped (failureReason e))
      rw [hsame]
      exact htwins

end SubmitTranscript

namespace AssessQuery

omit H in
theorem handleFailure_twins (reason : Text) : Twins c c' w₀ w₀' job (· = ·)
    (handleFailure c.out c.worker job reason) (handleFailure c'.out c'.worker job reason) := by
  unfold handleFailure
  exact (setStatus_twins _ _).then fun _ => reportFailure_twins _ _ _ _

omit H in
theorem catching_twins {α : Type} (kinds : List ExcKind) {p q : M α} (hp : Twins c c' w₀ w₀' job (· = ·) p q) :
    Twins c c' w₀ w₀' job (· = ·) (catching kinds p) (catching kinds q) := by
  refine Twin.tryCatch (hp.then fun _ => twin_ret rfl) fun e => ?_
  split_ifs
  · exact twin_ret rfl
  · exact twin_raise _

theorem askTranscripts_twins (token : Text) (group : GroupSummary) : Twins c c' w₀ w₀' job (· = ·)
    (askTranscripts c.out c.worker job token group) (askTranscripts c'.out c'.worker job token group) := by
  have hd := congrArg Behaviour.diarisation H.behaviour
  have hanswer : ∀ question chunks, Twins c c' w₀ w₀' job (· = ·) (synthesizeTranscriptAnswer c.out question chunks)
      (synthesizeTranscriptAnswer c'.out question chunks) := by
    intro question chunks
    unfold synthesizeTranscriptAnswer
    split_ifs
    · exact twin_ret rfl
    · exact (generateText_twins H _ _).then fun _ => twin_ret rfl
  unfold askTranscripts
  cases truthy job.transcriptFocus with
  | none => exact twin_ret rfl
  | some focus =>
    refine Twin.then (catching_twins _ (Twin.then (callBackend_twins _ fun k => ?_) fun chunks => hanswer focus chunks))
      fun answer => ?_
    · exact congrFun (congrFun (congrFun (congrFun (congrArg DiarisationClient.searchTranscripts hd) k) _) _) _
    · cases answer <;> exact twin_ret rfl

theorem askRepository_twins (group : GroupSummary) : Twins c c' w₀ w₀' job (· = ·)
    (askRepository c.worker job group) (askRepository c'.worker job group) := by
  have hg := congrArg Behaviour.github H.behaviour
  unfold askRepository
  split_ifs
  · exact twin_ret rfl
  · refine Twin.then (catching_twins _ (Twin.then (callBackend_twins _ fun k => ?_) fun repo => ?_)) fun answer => ?_
    · exact congrFun (congrFun (congrArg GithubRaginatorClient.findRepoByGroupName hg) k) _
    · cases repo with
      | none => exact twin_ret rfl
      | some repo =>
        refine Twin.then (callBackend_twins _ fun k => ?_) fun _ => twin_ret rfl
        exact congrFun (congrFun (congrFun (congrArg GithubRaginatorClient.query hg) k) _) _
    · rcases answer with _ | _ | _ <;> exact twin_ret rfl

theorem execute_twins [PyChars] :
    Twins c c' w₀ w₀' job (· = ·) (execute c.out c.worker job) (execute c'.out c'.worker job) := by
  unfold execute
  refine (setStatus_twins _ _).then fun _ => Twin.tryCatch ?_ fun e => handleFailure_twins _
  refine Twin.then (groupsOf_twins H job) fun found => ?_
  cases matchGroup job.groupHint found.2 with
  | noMatch => exact askForGroup_twins _ _
  | ambiguous candidates => exact askForGroup_twins _ _
  | matched group =>
    refine (askTranscripts_twins H _ group).then fun transcripts => ?_
    refine (askRepository_twins H group).then fun repository => ?_
    unfold conclude
    dsimp only
    split_ifs
    · exact handleFailure_twins _
    · exact (setStatus_twins _ _).then fun _ => mail_twins _ _ _

end AssessQuery

variable [PyChars]

theorem processJob_twins : Twins c c' w₀ w₀' job (· = ·) (c.worker.processJob c.out job)
    (c'.worker.processJob c'.out job) := by
  refine Twin.tryCatch ?_ fun _ => twin_ret rfl
  unfold JobWorker.executeJob
  split_ifs
  · exact SubmitTranscript.execute_twins H
  · exact AssessQuery.execute_twins H
  · exact twin_ret rfl

end

/-! ### A pass of the worker -/

/-- What `run_once` does with the jobs that `list_queued` has returned. -/
def JobWorker.runOnceOn [PyChars] (out : Outside) (worker : JobWorker) (jobs : List Job) : M Nat := do
  worker.processAll out jobs
  return jobs.length

theorem JobWorker.runOnce_eq [PyChars] (out : Outside) (worker : JobWorker) :
    worker.runOnce out = JobStore.listQueued >>= worker.runOnceOn out := rfl

/-- No two queued jobs have a file of one name, as `save_incoming` generates a new one for each. -/
def FilesApart (w : World) : Prop :=
  ∀ job ∈ queuedRows w, ∀ other ∈ queuedRows w, job.storedName = other.storedName → job.storedName ≠ none → job = other

instance (w : World) : Decidable (FilesApart w) :=
  inferInstanceAs (Decidable (∀ job ∈ queuedRows w, ∀ other ∈ queuedRows w, _ → _ → _))

theorem Filed.filesApart {out : Outside} {c : FileState} (hc : Filed out c) : FilesApart c.1 := by
  intro job hjob other hother hname hsome
  have hrow : ∀ row ∈ queuedRows c.1, pathOf c.1 row.jobId = row.attachmentStoragePath := fun row hrow => by
    rw [pathOf, Table.find?_of_mem (List.mem_of_mem_filter hrow), Option.bind_some]
  obtain ⟨name, hstored⟩ := Option.ne_none_iff_exists'.1 hsome
  obtain ⟨p, hp, hpname⟩ := Option.map_eq_some_iff.1 hstored
  obtain ⟨q, hq, hqname⟩ := Option.map_eq_some_iff.1 (hname.symm.trans hstored)
  have hid := hc.job job.jobId other.jobId p q ((hrow job hjob).trans hp) ((hrow other hother).trans hq)
    (hpname.trans hqname.symm)
  exact List.inj_on_of_nodup_map c.1.jobs.nodup (List.mem_of_mem_filter hjob) (List.mem_of_mem_filter hother) hid

/-- Between the calls of the two threads the files of queued jobs have names of their own. -/
theorem filesApart_between_calls [PyChars] {out : Outside} (hnames : FreshNames out) {w : World}
    (hjobs : w.jobs.rows = []) (hfiles : w.files.rows = []) {d : (Thread → Prog Stmt FileState Exc Unit) × FileState}
    (hrun : FileRun out w d) (hidle : ∀ t, (d.1 t).Ended) : FilesApart d.2.1 :=
  (filesSettled_idle hnames hjobs hfiles hrun hidle .worker).1.filesApart

namespace Clients
variable [PyChars] (c : Clients)

/-- The world after the work on one job. -/
def process (w : World) (job : Job) : World :=
  ((c.worker.processJob c.out job).runRaising (llmRaises c.llm) w).2

/-- The world after `run_once`, where `list_queued` returns these jobs. -/
def runOnce (jobs : List Job) (w : World) : World :=
  ((c.worker.runOnceOn c.out jobs).runRaising (llmRaises c.llm) w).2

theorem processJob_run (w : World) (job : Job) :
    (c.worker.processJob c.out job).runRaising (llmRaises c.llm) w = (.ok (), c.process w job) := by
  rw [process, JobWorker.processJob, tryCatch_eq, runRaising_tryCatch]
  rcases (c.worker.executeJob c.out job).runRaising (llmRaises c.llm) w with ⟨_ | _, _⟩ <;> rfl

theorem runOnce_foldl (jobs : List Job) (w : World) : c.runOnce jobs w = jobs.foldl c.process w := by
  have hall : (c.worker.processAll c.out jobs).runRaising (llmRaises c.llm) w = (.ok (), jobs.foldl c.process w) := by
    induction jobs generalizing w with
    | nil => rfl
    | cons job jobs ih =>
      rw [JobWorker.processAll, bind_eq, runRaising_bind, processJob_run]
      exact ih _
  rw [runOnce, JobWorker.runOnceOn, bind_eq, runRaising_bind, hall]
  rfl

theorem foldl_process_view {job : Job} {others : List Job}
    (hothers : ∀ other ∈ others, Apart job.jobId job.storedName other) (w : World) :
    job.view (others.foldl c.process w) = job.view w := by
  induction others generalizing w with
  | nil => rfl
  | cons other others ih =>
    obtain ⟨hother, hrest⟩ := List.forall_mem_cons.1 hothers
    exact (ih hrest _).trans (processJob_leaves c.out hother c.worker c.llm w).1

end Clients

theorem FilesApart.apart {w : World} (hfiles : FilesApart w) {jobs before after : List Job} {job : Job}
    (hlisted : jobs.Perm (queuedRows w)) (hjobs : jobs = before ++ job :: after) :
    ∀ other ∈ before ++ after, Apart job.jobId job.storedName other := by
  have hids : ((before ++ job :: after).map Job.jobId).Nodup := by
    rw [← hjobs, (hlisted.map Job.jobId).nodup_iff]
    exact (List.filter_sublist.map Job.jobId).nodup w.jobs.nodup
  have hnew : job.jobId ∉ (before ++ after).map Job.jobId := by
    rw [List.map_append, List.map_cons, List.nodup_middle] at hids
    rw [List.map_append]
    exact (List.nodup_cons.1 hids).1
  have hmem : ∀ row ∈ before ++ job :: after, row ∈ queuedRows w := fun row hrow => hlisted.subset (hjobs ▸ hrow)
  intro other hother
  have hid : job.jobId ≠ other.jobId := fun h => hnew (h ▸ List.mem_map_of_mem hother)
  refine ⟨hid, fun path hpath hname => hid (congrArg Job.jobId ?_)⟩
  have hstored := SubmitTranscript.storedName_of_truthy hpath
  refine hfiles job (hmem job (by simp)) other (hmem other ?_) (hname.trans hstored.symm) (by simp [hname])
  rcases List.mem_append.1 hother with h | h
  · exact List.mem_append_left _ h
  · exact List.mem_append_right _ (List.mem_cons_of_mem _ h)

/-- **Queued jobs do not meet.** In whatever order the queued jobs are listed, and whatever the backends and the model
answer or raise towards each of them: what belongs to a job is the same after `run_once` as if it had been listed alone,
if its calls and its request get the same there. -/
theorem jobs_isolated [PyChars] {c c' : Clients} {w : World} (hfiles : FilesApart w) {jobs before after : List Job}
    {job : Job} (hlisted : jobs.Perm (queuedRows w)) (hjobs : jobs = before ++ job :: after)
    (hsame : SameBehaviour c c' (c.runOnce before w) w) :
    job.view (c.runOnce jobs w) = job.view (c'.runOnce [job] w) := by
  have hothers := hfiles.apart hlisted hjobs
  have hbefore : job.view (before.foldl c.process w) = job.view w :=
    c.foldl_process_view (fun other h => hothers other (List.mem_append_left _ h)) w
  rw [c.runOnce_foldl] at hsame
  have hstart : Lockstep job (before.foldl c.process w) w (before.foldl c.process w) w :=
    ⟨hbefore, ⟨0, rfl, rfl⟩, ⟨0, rfl, rfl⟩⟩
  have hjob : job.view (c.process (before.foldl c.process w) job) = job.view (c'.process w job) :=
    (processJob_twins hsame _ _ hstart).2.view
  rw [c.runOnce_foldl, c'.runOnce_foldl, hjobs, List.foldl_append, List.foldl_cons,
    c.foldl_process_view fun other h => hothers other (List.mem_append_right _ h)]
  exact hjob

/-! ### A job whose file is gone, and the next one -/

section
attribute [local instance] asciiChars

/-- The file of this one is not there any more. -/
def lostJob : Job :=
  { transcriptJob with jobId := "DIAR-2026-0811-0002", attachmentStoragePath := some "in/1_team.vtt" }

def lostFileWorld : World := { transcriptWorld with jobs := (Table.empty.upsert lostJob).upsert transcriptJob }

def teamClients : Clients := ⟨smallWorker [⟨7, "Team A"⟩], .plain, fun _ => none⟩

/-- The exception that the lost file raises escapes from `execute`, and the other job is completed as if it were
alone. -/
theorem jobs_isolated_lostFile :
    statusOf (teamClients.runOnce [lostJob, transcriptJob] lostFileWorld) lostJob.jobId = some .processing ∧
    statusOf (teamClients.runOnce [lostJob, transcriptJob] lostFileWorld) transcriptJob.jobId = some .completed ∧
    transcriptJob.view (teamClients.runOnce [lostJob, transcriptJob] lostFileWorld) =
      transcriptJob.view (teamClients.runOnce [transcriptJob] lostFileWorld) := by
  have hfiles : FilesApart lostFileWorld := by decide +kernel
  have hlisted : [lostJob, transcriptJob].Perm (queuedRows lostFileWorld) := by decide +kernel
  have hsame : SameBehaviour teamClients teamClients (teamClients.runOnce [lostJob] lostFileWorld) lostFileWorld :=
    ⟨rfl, rfl, rfl⟩
  have hjobs : [lostJob, transcriptJob] = [lostJob] ++ transcriptJob :: [] := rfl
  exact ⟨by decide +kernel, by decide +kernel, jobs_isolated hfiles hlisted hjobs hsame⟩

end

end GroupAssessmentAgent
