import GroupAssessmentAgent.Jobs.FilesKept
import GroupAssessmentAgent.Jobs.Outcomes
import GroupAssessmentAgent.Lib.Twins

/-!
# What belongs to a job

`viewOf` is what the database and the disk hold of one job: its row, its pending clarification, the files under its
stored name and its mails, apart from the times and the numbers of outbox rows. Each statement changes the view by a
function of the view, or leaves it as it is. The work on another job leaves it as it is, whatever the backends and the
model answer or raise (`processJob_leaves`).
-/

namespace GroupAssessmentAgent
open Prog

/-- The name that the file of the job keeps from stage to stage. -/
def Job.storedName (job : Job) : Option Text := job.attachmentStoragePath.map pathName

def PendingClarification.undated (q : PendingClarification) : PendingClarification := { q with createdAt := 0 }

/-- A row without its times, a question without its time, the bytes at the paths with the name of the file, and mails
without their numbers and times. -/
structure JobView where
  row : Option Job
  clarification : Option PendingClarification
  files : Text → Option Bytes
  mails : List OutboxMessage

def viewOf (jobId : Text) (name : Option Text) (w : World) : JobView where
  row := (w.jobs.find? jobId).map Job.unstamped
  clarification := (w.pendingClarifications.find? jobId).map PendingClarification.undated
  files path := if name = some (pathName path) then fileAt w path else none
  mails := (w.outbox.rows.filter fun m => m.jobId = some jobId).map OutboxMessage.unnumbered

def Job.view (job : Job) (w : World) : JobView := viewOf job.jobId job.storedName w

namespace JobView

def onRow (v : JobView) (f : Job → Job) : JobView := { v with row := v.row.map fun j => (f j).unstamped }

def mailed (v : JobView) (m : OutboxMessage) : JobView := { v with mails := v.mails ++ [m.unnumbered] }

def moved (v : JobView) (path dest : Text) : JobView :=
  { v with files := fun q => if dest = q then v.files path else if q = path then none else v.files q }

end JobView

namespace Job

theorem unstamped_setAll (j : Job) (fields : List JobField) :
    (j.unstamped.setAll fields).unstamped = (j.setAll fields).unstamped := by
  have hset : ∀ (i j : Job) (v : JobField), i.unstamped = j.unstamped → (i.set v).unstamped = (j.set v).unstamped := by
    intro i j v h
    have hi : (i.set v).unstamped = (i.unstamped.set v).unstamped := by cases v <;> rfl
    have hj : (j.set v).unstamped = (j.unstamped.set v).unstamped := by cases v <;> rfl
    rw [hi, h, ← hj]
  suffices hall : ∀ i j : Job, i.unstamped = j.unstamped → (i.setAll fields).unstamped = (j.setAll fields).unstamped from
    hall _ j rfl
  induction fields with
  | nil => exact fun _ _ h => h
  | cons v fields ih => exact fun i j h => ih _ _ (hset i j v h)

end Job

/-! ### One statement -/

section
variable (i : Text) (name : Option Text) (w : World)

theorem view_modifyJob (jobId : Text) {f : Job → Job} (hf : ∀ j, (f j).jobId = j.jobId) {g : Job → Job}
    (hg : ∀ j, (f j).unstamped = (g j.unstamped).unstamped) : viewOf i name (w.modifyJob jobId f hf) =
      if i = jobId then (viewOf i name w).onRow g else viewOf i name w := by
  have hrow : (w.modifyJob jobId f hf).jobs.find? i =
      if i = jobId then (w.jobs.find? i).map f else w.jobs.find? i := Table.find?_modify w.jobs jobId f hf i
  split_ifs at hrow ⊢ with hi
  · simp only [viewOf, JobView.onRow, hrow, Option.map_map, Function.comp_def, hg]
    rfl
  · simp only [viewOf, hrow]
    rfl

theorem view_writeJob (jobId : Text) (fields : List JobField) : viewOf i name (w.writeJob jobId fields) =
    if i = jobId then (viewOf i name w).onRow fun j => j.setAll fields else viewOf i name w :=
  view_modifyJob i name w jobId _ fun j => (j.unstamped_setAll fields).symm

theorem view_writeStatus (jobId : Text) (new : JobState) (extra : List JobField) {stamps : List JobField}
    (hstamps : ∀ v ∈ stamps, v.IsStamp) : viewOf i name (w.writeStatus jobId new (extra ++ stamps)) =
      if i = jobId then (viewOf i name w).onRow fun j => { j with status := new }.setAll extra
      else viewOf i name w := by
  refine view_modifyJob i name w jobId _ fun j => ?_
  have happend : { j with status := new }.setAll (extra ++ stamps) =
      ({ j with status := new }.setAll extra).setAll stamps := List.foldl_append ..
  rw [happend, Job.unstamped_stamps _ hstamps]
  exact (Job.unstamped_setAll { j with status := new } extra).symm

theorem view_put (q : PendingClarification) :
    viewOf i name { w with pendingClarifications := w.pendingClarifications.upsert q } =
      if q.jobId = i then { viewOf i name w with clarification := some q.undated } else viewOf i name w := by
  have hfind := Table.find?_upsert w.pendingClarifications q i
  split_ifs at hfind ⊢ with hq <;> simp only [viewOf, hfind] <;> rfl

theorem view_mail (row : Nat → OutboxMessage) (hrow : ∀ n, (row n).id = n) :
    viewOf i name { w with outbox := w.outbox.append row hrow } =
      if (row w.outbox.next).jobId = some i then (viewOf i name w).mailed (row w.outbox.next)
      else viewOf i name w := by
  have hrows : (w.outbox.append row hrow).rows = w.outbox.rows ++ [row w.outbox.next] := rfl
  split_ifs with hmail
  · simp [viewOf, JobView.mailed, hrows, hmail]
    rfl
  · simp [viewOf, hrows, hmail]
    rfl

theorem view_movedFile {path dest : Text} {f : StoredFile} (hfind : w.files.find? path = some f)
    (hdest : pathName dest = pathName path) : viewOf i name (movedFile w path dest f) =
      if name = some (pathName path) then (viewOf i name w).moved path dest else viewOf i name w := by
  have hfiles : (viewOf i name (movedFile w path dest f)).files =
      if name = some (pathName path) then ((viewOf i name w).moved path dest).files else (viewOf i name w).files := by
    funext q
    simp only [viewOf, JobView.moved, fileAt_movedFile, fileAt_isSome hfind]
    by_cases hname : name = some (pathName path)
    · by_cases hq : name = some (pathName q)
      · simp only [if_pos hname, if_pos hq]
      · have hne : dest ≠ q := fun h => hq (by rw [← h, hdest]; exact hname)
        simp only [if_pos hname, if_neg hq, if_neg hne, ite_self]
    · by_cases hq : name = some (pathName q)
      · have hne : dest ≠ q := fun h => hname (by rw [← hdest, h]; exact hq)
        have hne' : q ≠ path := fun h => hname (h ▸ hq)
        simp only [if_neg hname, if_pos hq, if_neg hne, if_neg hne']
      · simp only [if_neg hname, if_neg hq]
  have hview : viewOf i name (movedFile w path dest f) =
      { viewOf i name w with files := (viewOf i name (movedFile w path dest f)).files } := rfl
  rw [hview, hfiles]
  split_ifs <;> rfl

end

/-! ### The work on another job -/

/-- What the model raises: the `n`-th request to it comes back with an exception where `llm n` is one. -/
def llmRaises (llm : Nat → Option Exc) : Stmt → World → Option Exc
  | .generate, w => llm w.generations
  | _, _ => none

/-- A job with another id, and no file under the name. -/
structure Apart (i : Text) (name : Option Text) (job : Job) : Prop where
  id : i ≠ job.jobId
  file : ∀ path, truthy job.attachmentStoragePath = some path → name ≠ some (pathName path)

section
variable (i : Text) (name : Option Text) (out : Outside)

abbrev KeepsView {α : Type} (p : M α) : Prop := Keeps (viewOf i name) p

theorem coversCalls_view : CoversCalls fun _ f => ∀ w, viewOf i name (f w) = viewOf i name w := fun _ _ => rfl

theorem coversModel_view : CoversModel fun _ f => ∀ w, viewOf i name (f w) = viewOf i name w :=
  ⟨fun _ => rfl, fun _ => rfl⟩

theorem utcnow_view : KeepsView i name (utcnow out) := always_atomic fun _ => rfl

variable {i name} {jobId : Text} (hid : i ≠ jobId)

section
include hid

theorem setStatus_view (new : JobState) (extra : List JobField) :
    KeepsView i name (JobStore.setStatus out jobId new extra) := by
  refine setStatus_steps out (F := fun _ => True) (fun _ _ => trivial) (fun _ => rfl) (fun _ => rfl)
    (fun _ _ => trivial) fun current fields _ w => ?_
  have hview := view_writeStatus i name w jobId new fields (List.forall_mem_nil _)
  rwa [List.append_nil, if_neg hid] at hview

theorem update_view (fields : List JobField) : KeepsView i name (JobStore.update jobId fields) := by
  unfold JobStore.update
  split_ifs
  · trivial
  · refine always_change fun w => ?_
    rw [view_writeJob, if_neg hid]

theorem put_view (question expectedField : Text) (options : List Text) :
    KeepsView i name (PendingClarificationStore.put out jobId question expectedField options) := by
  refine (utcnow_view i name out).bind fun _ => always_change fun w => ?_
  rw [view_put, if_neg (Ne.symm hid)]

end

theorem enqueue_view {about : Option Text} (habout : about ≠ some i) (toEmail subject bodyText : Text)
    (attachments : List Text) (inReplyTo references : Option Text) :
    KeepsView i name (Outbox.enqueue out toEmail subject bodyText about attachments inReplyTo references) := by
  refine (utcnow_view i name out).bind fun _ => always_atomic fun w => ?_
  exact (view_mail i name w _ _).trans (if_neg habout)

theorem alert_view (n : AdminNotifier) (category : AdminCategory) (summary : Text) (detail : List (Text × Text)) :
    KeepsView i name (n.alert out category summary detail) := by
  unfold AdminNotifier.alert
  cases truthy n.adminEmail with
  | none => trivial
  | some adminEmail =>
    have hdue : KeepsView i name (n.shouldSend out category) := by
      refine Always.bind (keeps_observe _ _ _) fun row => ?_
      cases row with
      | none => trivial
      | some row => exact (utcnow_view i name out).bind fun _ => trivial
    have hrecord : KeepsView i name (AdminNotifier.recordSent out category) :=
      (utcnow_view i name out).bind fun _ => always_change fun _ => rfl
    refine hdue.bind fun due => ?_
    split_ifs
    · have hmail : ∀ subject bodyText, KeepsView i name
          (Outbox.enqueue out adminEmail subject bodyText none [] none none) := fun _ _ =>
        enqueue_view out (Option.some_ne_none i).symm _ _ _ _ _ _
      exact (hmail _ _).bind fun _ => hrecord.bind fun _ => trivial
    · trivial

theorem moveTo_view {path : Text} (hname : name ≠ some (pathName path)) (dir : Text) :
    KeepsView i name (moveTo path dir) := by
  refine always_atomic fun w => ?_
  simp only
  split
  · next f hfind =>
    exact (view_movedFile i name w hfind (pathName_joinPath dir (slash_pathName path))).trans (if_neg hname)
  · rfl

variable {job : Job} (hjob : Apart i name job)
include hjob

theorem mail_view (mail : Rendered) : KeepsView i name (job.request.enqueue out mail (some job.jobId) []) :=
  (enqueue_view out (fun h => hjob.id (Option.some.inj h).symm) _ _ _ _ _ _).bind fun _ => trivial

theorem reportFailure_view (admin : AdminNotifier) (userReason : Text) (category : AdminCategory)
    (summary reason : Text) : KeepsView i name (reportFailure out admin job userReason category summary reason) :=
  (mail_view out hjob _).bind fun _ => (alert_view out admin _ _ _).bind fun _ => trivial

theorem askForGroup_view (groups : List GroupSummary) (subject : Text) :
    KeepsView i name (askForGroup out job groups subject) :=
  (setStatus_view out hjob.id _ _).bind fun _ => (put_view out hjob.id _ _ _).bind fun _ => mail_view out hjob _

namespace SubmitTranscript

omit out in
theorem moved_view {path : Text} (hname : name ≠ some (pathName path)) (dir : Text) : KeepsView i name (do
    let moved ← moveTo path dir
    JobStore.update job.jobId [.attachmentStoragePath (some moved)]) :=
  (moveTo_view hname dir).bind fun _ => update_view hjob.id _

omit out in
theorem moveStored_view (dir : Text) : KeepsView i name (moveStored job dir) := by
  unfold moveStored
  cases hpath : truthy job.attachmentStoragePath with
  | none => trivial
  | some path => exact moved_view hjob (hjob.file path hpath) dir

omit out in
theorem moveFailedFile_view (storage : StorageSettings) : KeepsView i name (moveFailedFile storage job) := by
  unfold moveFailedFile
  cases hpath : truthy job.attachmentStoragePath with
  | none => trivial
  | some path =>
    refine Always.bind (keeps_observe _ _ _) fun found => ?_
    split_ifs
    · exact moved_view hjob (hjob.file path hpath) storage.failed
    · trivial

variable [PyChars] (worker : JobWorker)

theorem attempt_view : KeepsView i name (attempt out worker job) := by
  refine (groupsOf_always (coversCalls_view i name) _ job).bind fun found => ?_
  cases matchGroup job.groupHint found.2 with
  | noMatch => exact askForGroup_view out hjob _ _
  | ambiguous candidates => exact askForGroup_view out hjob _ _
  | matched group =>
    refine (submit_always (coversCalls_view i name) out (fun _ => rfl) _ job _ group).bind fun s => ?_
    refine (update_view hjob.id _).bind fun _ => (setStatus_view out hjob.id _ _).bind fun _ => ?_
    exact (moveStored_view hjob _).bind fun _ => mail_view out hjob _

omit [PyChars] in
theorem handleExecuteFailure_view (reason : Text) : KeepsView i name (handleExecuteFailure out worker job reason) :=
  (setStatus_view out hjob.id _ _).bind fun _ => (moveFailedFile_view hjob _).bind fun _ =>
    reportFailure_view out hjob _ _ _ _ _

omit hjob [PyChars] in
theorem path_of_updated {w : World} {moved : Text} {current : Job}
    (hfind : (w.writeJob jobId [.attachmentStoragePath (some moved)]).jobs.find? jobId = some current) :
    current.attachmentStoragePath = some moved := by
  have hpath : pathOf (w.writeJob jobId [.attachmentStoragePath (some moved)]) jobId =
      current.attachmentStoragePath := by rw [pathOf, hfind, Option.bind_some]
  rw [pathOf_writeJob, if_pos rfl] at hpath
  cases hrow : w.jobs.find? jobId with
  | none =>
    rw [World.writeJob, World.modifyJob, Table.find?_modify, if_pos rfl, hrow] at hfind
    cases hfind
  | some row =>
    rw [hrow] at hpath
    exact hpath.symm

omit [PyChars] in
theorem refreshed_leaves (llm : Nat → Option Exc) : Leaves (llmRaises llm) (viewOf i name)
    (fun x => ∀ current, x = .ok (some current) → Apart i name current) (refreshed worker job) := by
  unfold refreshed
  cases hpath : truthy job.attachmentStoragePath with
  | none =>
    refine leaves_ret fun current hcurrent => ?_
    rw [← Option.some.inj (Except.ok.inj hcurrent)]
    exact hjob
  | some path =>
    have hname := hjob.file path hpath
    have hmove : Leaves (llmRaises llm) (viewOf i name)
        (fun x => ∀ moved, x = .ok moved → pathName moved = pathName path) (moveTo path worker.storage.processing) := by
      refine leaves_atomic (fun _ => rfl) fun w => ?_
      simp only
      split
      · next f hfind =>
        have hdest := pathName_joinPath worker.storage.processing (slash_pathName path)
        refine ⟨(view_movedFile i name w hfind hdest).trans (if_neg hname), fun moved hmoved => ?_⟩
        rw [← Except.ok.inj hmoved]
        exact hdest
      · exact ⟨rfl, fun _ h => by cases h⟩
    refine hmove.bind (fun moved hmoved w => ?_) fun _ _ _ h => by cases h
    -- the UPDATE and the SELECT after it
    refine ⟨(view_writeJob i name w _ _).trans (if_neg hjob.id), fun current hcurrent => ?_⟩
    have hfind : (w.writeJob job.jobId [.attachmentStoragePath (some moved)]).jobs.find? job.jobId = some current :=
      Except.ok.inj hcurrent
    refine ⟨Table.find?_key hfind ▸ hjob.id, fun path' h => ?_⟩
    have hmoved' : path' = moved := Option.some.inj ((truthy_eq_some.1 h).1.symm.trans (path_of_updated hfind))
    rw [hmoved', hmoved moved rfl]
    exact hname

theorem execute_leaves (llm : Nat → Option Exc) :
    Leaves (llmRaises llm) (viewOf i name) (fun _ => True) (execute out worker job) := by
  refine (setStatus_view out hjob.id _ _).leaves.bind (fun _ _ => ?_) fun _ _ => trivial
  refine (refreshed_leaves hjob worker llm).bind (fun current hcurrent => ?_) fun _ _ => trivial
  cases current with
  | none => exact leaves_raise trivial
  | some current =>
    have hcurrent := hcurrent current rfl
    exact (attempt_view out hcurrent worker).leaves.tryCatch (fun _ _ => trivial) fun _ _ =>
      (handleExecuteFailure_view out hcurrent worker _).leaves

end SubmitTranscript

namespace AssessQuery
variable [PyChars] (worker : JobWorker)

theorem execute_view : KeepsView i name (execute out worker job) := by
  have hfailure : ∀ reason, KeepsView i name (handleFailure out worker job reason) := fun reason =>
    (setStatus_view out hjob.id _ _).bind fun _ => reportFailure_view out hjob _ _ _ _ _
  refine (setStatus_view out hjob.id _ _).bind fun _ => Always.tryCatch ?_ fun e => hfailure _
  refine (groupsOf_always (coversCalls_view i name) _ job).bind fun found => ?_
  cases matchGroup job.groupHint found.2 with
  | noMatch => exact askForGroup_view out hjob _ _
  | ambiguous candidates => exact askForGroup_view out hjob _ _
  | matched group =>
    have hmodel := coversModel_view i name
    refine (askTranscripts_always (coversCalls_view i name) out hmodel worker job _ group).bind fun transcripts => ?_
    refine (askRepository_always (coversCalls_view i name) worker job group).bind fun repository => ?_
    unfold conclude
    simp only
    split_ifs
    · exact hfailure _
    · exact (setStatus_view out hjob.id _ _).bind fun _ => mail_view out hjob _

end AssessQuery

variable [PyChars] (worker : JobWorker)

theorem processJob_leaves (llm : Nat → Option Exc) :
    Leaves (llmRaises llm) (viewOf i name) (fun x => x = .ok ()) (worker.processJob out job) := by
  have hexecute : Leaves (llmRaises llm) (viewOf i name) (fun _ => True) (worker.executeJob out job) := by
    unfold JobWorker.executeJob
    split_ifs
    · exact SubmitTranscript.execute_leaves out hjob worker llm
    · exact (AssessQuery.execute_view out hjob worker).leaves
    · exact leaves_ret trivial
  exact hexecute.tryCatch (fun _ _ => rfl) fun _ _ => leaves_ret rfl

end

end GroupAssessmentAgent
