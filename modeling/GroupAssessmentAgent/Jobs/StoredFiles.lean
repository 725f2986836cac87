import GroupAssessmentAgent.Jobs.Crashes
import GroupAssessmentAgent.Lib.Rounds

/-!
# The stored file of a job

The mail thread stores the attachment of a new job and the worker moves it from stage to stage. The move and the UPDATE
of the row are two statements, so row and file disagree in between. They agree whenever no call is running, however the
calls of the two threads have interleaved, and whatever the files and the backends have raised.

A job is the mail thread's until it is QUEUED, and the worker's from then on (`Owns`). A history variable keeps the
bytes that were received for each job and the rows that were ever QUEUED, which the worker may still hold. `Filed` says
that files have names of their own; with it a thread moves only files of its own jobs (`Rely`).
-/

namespace GroupAssessmentAgent
open Prog

/-! ### Rows, files and their history -/

def pathOf (w : World) (jobId : Text) : Option Text := (w.jobs.find? jobId).bind Job.attachmentStoragePath

def HasJob (w : World) (jobId : Text) : Prop := (w.jobs.find? jobId).isSome = true

/-- The bytes of the file at a path. -/
def fileAt (w : World) (path : Text) : Option Bytes := (w.files.find? path).map StoredFile.content

/-- The bytes that were received for each job, and every row that was QUEUED at some time. -/
structure FileHistory where
  received : Text → Option Bytes := fun _ => none
  listed : List Job := []

def queuedRows (w : World) : List Job := w.jobs.rows.filter fun j => j.status = .queued

/-- The attachment that a new job is for. -/
def receivedFor (content : Option Bytes) (l : Stmt) (w w' : World) (received : Text → Option Bytes) :
    Text → Option Bytes :=
  match l, addedJob w w' with
  | .insertJob _, some job => Function.update received job.jobId content
  | _, _ => received

/-- One more statement of a call that has received `content`. -/
def recordFiles (content : Option Bytes) (l : Stmt) (w w' : World) (a : FileHistory) : FileHistory where
  received := receivedFor content l w w' a.received
  listed := a.listed ++ queuedRows w'

abbrev FileState := World × FileHistory

/-- The job was QUEUED at some time. -/
def Released (c : FileState) (jobId : Text) : Prop := ∃ job ∈ c.2.listed, job.jobId = jobId

/-- The row names a file that holds what was received. -/
def InSync (c : FileState) (jobId : Text) : Prop :=
  ∀ path, pathOf c.1 jobId = some path → ∃ bytes, c.2.received jobId = some bytes ∧ fileAt c.1 path = some bytes

/-- One of the names that were generated so far. -/
def Generated (out : Outside) (n : Nat) (name : Text) : Prop := ∃ k < n, ∃ rest, name = cat [out.uuid k, "_", rest]

/-- Files have names of their own, and so have jobs; rows that were listed name the file of their job. -/
structure Filed (out : Outside) (c : FileState) : Prop where
  file : ∀ p q, (fileAt c.1 p).isSome = true → (fileAt c.1 q).isSome = true → pathName p = pathName q → p = q
  fileName : ∀ p, (fileAt c.1 p).isSome = true → Generated out c.1.uuids (pathName p)
  job : ∀ i j p q, pathOf c.1 i = some p → pathOf c.1 j = some q → pathName p = pathName q → i = j
  jobName : ∀ i p, pathOf c.1 i = some p → Generated out c.1.uuids (pathName p)
  queued : ∀ i, statusOf c.1 i = some .queued → Released c i
  listed : ∀ job ∈ c.2.listed, HasJob c.1 job.jobId ∧
    ∀ p, job.attachmentStoragePath = some p → ∃ q, pathOf c.1 job.jobId = some q ∧ pathName q = pathName p

/-- The jobs of a thread. -/
def Owns (t : Thread) (c : FileState) (jobId : Text) : Prop :=
  match t with
  | .mail => ¬ Released c jobId
  | .worker => Released c jobId

/-- The name of the file of a job that the worker has. -/
def WorkersName (c : FileState) (name : Text) : Prop :=
  ∃ jobId path, Released c jobId ∧ pathOf c.1 jobId = some path ∧ pathName path = name

/-- The names of the files of a thread. -/
def OwnsName (t : Thread) (c : FileState) (name : Text) : Prop :=
  match t with
  | .mail => ¬ WorkersName c name
  | .worker => WorkersName c name

/-- What a thread relies on: the other one keeps its jobs and files, and hands over jobs that are in step. -/
structure Rely (out : Outside) (t : Thread) (c c' : FileState) : Prop where
  filed : Filed out c'
  released : ∀ i, Released c i → Released c' i
  there : ∀ i, HasJob c.1 i → HasJob c'.1 i
  job : ∀ i, Owns t c i → Owns t c' i ∧ pathOf c'.1 i = pathOf c.1 i ∧ c'.2.received i = c.2.received i
  handed : ∀ i, Owns t c' i → ¬ Owns t c i → InSync c' i
  file : ∀ q, OwnsName t c (pathName q) → OwnsName t c' (pathName q) ∧ fileAt c'.1 q = fileAt c.1 q

/-- The same, from a state in which names are as they should be. -/
def RelyFiled (out : Outside) (t : Thread) (c c' : FileState) : Prop := Filed out c → Rely out t c c'

/-- All jobs of the thread are in step. -/
def FilesSettled (out : Outside) (t : Thread) (c : FileState) : Prop := Filed out c ∧ ∀ i, Owns t c i → InSync c i

section
variable {out : Outside} {t : Thread}

theorem Rely.inSync {c c' : FileState} (h : Rely out t c c') {i : Text} (hi : Owns t c i)
    (hname : ∀ p, pathOf c.1 i = some p → OwnsName t c (pathName p)) (hsync : InSync c i) : InSync c' i := by
  obtain ⟨-, hpath, hreceived⟩ := h.job i hi
  intro p hp
  rw [hpath] at hp
  obtain ⟨bytes, hbytes, hfile⟩ := hsync p hp
  exact ⟨bytes, hreceived.trans hbytes, ((h.file p (hname p hp)).2).trans hfile⟩

theorem Filed.ownsName {c : FileState} (h : Filed out c) {i p : Text} (hi : Owns t c i) (hp : pathOf c.1 i = some p) :
    OwnsName t c (pathName p) := by
  cases t with
  | worker => exact ⟨i, p, hi, hp, rfl⟩
  | mail =>
    rintro ⟨j, q, hj, hq, hname⟩
    exact hi (h.job i j p q hp hq hname.symm ▸ hj)

theorem relyFiled_refl (c : FileState) : RelyFiled out t c c := fun h =>
  ⟨h, fun _ hi => hi, fun _ hi => hi, fun _ hi => ⟨hi, rfl, rfl⟩, fun _ hi hnot => absurd hi hnot,
    fun _ hq => ⟨hq, rfl⟩⟩

theorem relyFiled_trans {a b c : FileState} (h : RelyFiled out t a b) (h' : RelyFiled out t b c) :
    RelyFiled out t a c := by
  intro ha
  have hab := h ha
  have hbc := h' hab.filed
  refine ⟨hbc.filed, fun i hi => hbc.released i (hab.released i hi), fun i hi => hbc.there i (hab.there i hi),
    fun i hi => ?_, fun i hi hnot => ?_, fun q hq => ?_⟩
  · obtain ⟨hb, hpath, hreceived⟩ := hab.job i hi
    obtain ⟨hc, hpath', hreceived'⟩ := hbc.job i hb
    exact ⟨hc, hpath'.trans hpath, hreceived'.trans hreceived⟩
  · by_cases hb : Owns t b i
    · exact hbc.inSync hb (fun p hp => hab.filed.ownsName hb hp) (hab.handed i hb hnot)
    · exact hbc.handed i hi hb
  · obtain ⟨hb, hfile⟩ := hab.file q hq
    obtain ⟨hc, hfile'⟩ := hbc.file q hb
    exact ⟨hc, hfile'.trans hfile⟩

theorem settled_stable : Stable (RelyFiled out t) (FilesSettled out t) := by
  rintro c c' hcc' ⟨hfiled, hsync⟩
  have h := hcc' hfiled
  refine ⟨h.filed, fun i hi => ?_⟩
  by_cases hold : Owns t c i
  · exact h.inSync hold (fun p hp => hfiled.ownsName hold hp) (hsync i hold)
  · exact h.handed i hi hold

/-! ### One more statement -/

theorem released_record_iff {content : Option Bytes} {l : Stmt} {c : FileState} {w' : World} {i : Text} :
    Released (w', recordFiles content l c.1 w' c.2) i ↔ Released c i ∨ statusOf w' i = some .queued := by
  have hrow : (∃ job ∈ queuedRows w', job.jobId = i) ↔ statusOf w' i = some .queued := by
    constructor
    · rintro ⟨job, hjob, rfl⟩
      obtain ⟨hmem, hqueued⟩ := List.mem_filter.1 hjob
      rw [statusOf, Table.find?_of_mem hmem, Option.map_some, of_decide_eq_true hqueued]
    · intro hstatus
      obtain ⟨job, hfind, hqueued⟩ := Option.map_eq_some_iff.1 hstatus
      exact ⟨job, List.mem_filter.2 ⟨Table.find?_mem hfind, decide_eq_true hqueued⟩, Table.find?_key hfind⟩
  rw [← hrow]
  simp only [Released, recordFiles, List.mem_append, or_and_right, exists_or]

theorem Filed.released_record {c : FileState} (h : Filed out c) {content : Option Bytes} {l : Stmt} {w' : World}
    (hqueued : ∀ i, statusOf w' i = some .queued → statusOf c.1 i = some .queued) (i : Text) :
    Released (w', recordFiles content l c.1 w' c.2) i ↔ Released c i := by
  refine released_record_iff.trans ⟨fun hi => ?_, .inl⟩
  rcases hi with hold | hq
  · exact hold
  · exact h.queued i (hqueued i hq)

theorem Filed.record {c : FileState} (h : Filed out c) (content : Option Bytes) (l : Stmt) {w' : World}
    (hfile : ∀ p q, (fileAt w' p).isSome = true → (fileAt w' q).isSome = true → pathName p = pathName q → p = q)
    (hfileName : ∀ p, (fileAt w' p).isSome = true → Generated out w'.uuids (pathName p))
    (hjob : ∀ i j p q, pathOf w' i = some p → pathOf w' j = some q → pathName p = pathName q → i = j)
    (hjobName : ∀ i p, pathOf w' i = some p → Generated out w'.uuids (pathName p))
    (hthere : ∀ i, HasJob c.1 i → HasJob w' i)
    (hname : ∀ i p, Released c i → pathOf c.1 i = some p → ∃ q, pathOf w' i = some q ∧ pathName q = pathName p) :
    Filed out (w', recordFiles content l c.1 w' c.2) where
  file := hfile
  fileName := hfileName
  job := hjob
  jobName := hjobName
  queued i hi := released_record_iff.2 (.inr hi)
  listed job hmem := by
    rcases List.mem_append.1 hmem with hold | hnew
    · obtain ⟨hhas, hpath⟩ := h.listed job hold
      refine ⟨hthere _ hhas, fun p hp => ?_⟩
      obtain ⟨q, hq, hsame⟩ := hpath p hp
      obtain ⟨q', hq', hsame'⟩ := hname _ q ⟨job, hold, rfl⟩ hq
      exact ⟨q', hq', hsame'.trans hsame⟩
    · have hfind := Table.find?_of_mem (List.mem_of_mem_filter hnew)
      refine ⟨by rw [HasJob, hfind]; rfl, fun p hp => ⟨p, ?_, rfl⟩⟩
      rw [pathOf, hfind]
      exact hp

/-- A thread that hands over nothing does what the other one relies on. -/
theorem rely_other {c c' : FileState} (hfiled : Filed out c') (hreleased : ∀ i, Released c' i ↔ Released c i)
    (hthere : ∀ i, HasJob c.1 i → HasJob c'.1 i)
    (hjob : ∀ i, ¬ Owns t c i → pathOf c'.1 i = pathOf c.1 i ∧ c'.2.received i = c.2.received i)
    (hname : ∀ i q, Owns t c i → pathOf c'.1 i = some q → OwnsName t c (pathName q))
    (hfile : ∀ q, ¬ OwnsName t c (pathName q) → fileAt c'.1 q = fileAt c.1 q) : Rely out t.other c c' := by
  have howns : ∀ i, Owns t.other c i → ¬ Owns t c i := by
    intro i hi
    cases t with
    | mail => exact not_not_intro hi
    | worker => exact hi
  refine ⟨hfiled, fun i => (hreleased i).2, hthere, fun i hi => ⟨?_, hjob i (howns i hi)⟩, fun i hi hnot => ?_,
    fun q hq => ?_⟩
  · cases t with
    | mail => exact (hreleased i).2 hi
    | worker => exact fun h => hi ((hreleased i).1 h)
  · cases t with
    | mail => exact absurd ((hreleased i).1 hi) hnot
    | worker => exact absurd (fun h => hi ((hreleased i).2 h)) hnot
  · cases t with
    | mail =>
      refine ⟨?_, hfile q (not_not_intro hq)⟩
      obtain ⟨i, p, hi, hp, hpath⟩ := hq
      exact ⟨i, p, (hreleased i).2 hi, ((hjob i (not_not_intro hi)).1).trans hp, hpath⟩
    | worker =>
      refine ⟨?_, hfile q hq⟩
      rintro ⟨i, p, hi, hp, hpath⟩
      exact hq (hpath ▸ hname i p ((hreleased i).1 hi) hp)

/-! ### Statements that leave the files alone -/

/-- The same jobs with the same files, as far as they are looked at here. -/
structure SameFiles (c c' : FileState) : Prop where
  released : ∀ i, Released c' i ↔ Released c i
  path : ∀ i, pathOf c'.1 i = pathOf c.1 i
  there : ∀ i, HasJob c.1 i → HasJob c'.1 i
  file : ∀ q, fileAt c'.1 q = fileAt c.1 q
  received : c'.2.received = c.2.received

theorem owns_congr {c c' : FileState} (h : ∀ i, Released c' i ↔ Released c i) (i : Text) :
    Owns t c' i ↔ Owns t c i := by
  cases t with
  | mail => exact not_congr (h i)
  | worker => exact h i

theorem ownsName_congr {c c' : FileState} (h : ∀ i, Released c' i ↔ Released c i)
    (hpath : ∀ i, pathOf c'.1 i = pathOf c.1 i) (name : Text) : OwnsName t c' name ↔ OwnsName t c name := by
  have hworker : WorkersName c' name ↔ WorkersName c name := by
    simp only [WorkersName, h, hpath]
  cases t with
  | mail => exact not_congr hworker
  | worker => exact hworker

theorem SameFiles.inSync {c c' : FileState} (h : SameFiles c c') {i : Text} (hi : InSync c i) : InSync c' i := by
  intro p hp
  rw [h.path] at hp
  obtain ⟨bytes, hbytes, hfile⟩ := hi p hp
  exact ⟨bytes, by rw [h.received, hbytes], (h.file p).trans hfile⟩

theorem SameFiles.settled {c c' : FileState} (h : SameFiles c c') (hfiled : Filed out c') (hc : FilesSettled out t c) :
    FilesSettled out t c' :=
  ⟨hfiled, fun i hi => h.inSync (hc.2 i ((owns_congr h.released i).1 hi))⟩

theorem SameFiles.rely {c c' : FileState} (h : SameFiles c c') (hfiled : Filed out c') : Rely out t c c' where
  filed := hfiled
  released i := (h.released i).2
  there := h.there
  job i hi := ⟨(owns_congr h.released i).2 hi, h.path i, congrFun h.received i⟩
  handed i hi hnot := absurd ((owns_congr h.released i).1 hi) hnot
  file q hq := ⟨(ownsName_congr h.released h.path _).2 hq, h.file q⟩

/-- The statement that adds a job. -/
def Stmt.addsJob : Stmt → Bool
  | .insertJob _ => true
  | _ => false

/-- A step that adds no job, and neither moves a file nor names one. -/
structure Silent (l : Stmt) (f : World → World) : Prop where
  label : l.addsJob = false
  files : ∀ w, (f w).files = w.files
  uuids : ∀ w, (f w).uuids = w.uuids
  path : ∀ w i, pathOf (f w) i = pathOf w i
  there : ∀ w i, HasJob w i → HasJob (f w) i

/-- It queues no job either. -/
structure Calm (l : Stmt) (f : World → World) : Prop extends Silent l f where
  queued : ∀ w i, statusOf (f w) i = some .queued → statusOf w i = some .queued

theorem receivedFor_other {content : Option Bytes} {l : Stmt} (hl : l.addsJob = false) (w w' : World)
    (received : Text → Option Bytes) : receivedFor content l w w' received = received := by
  cases l <;> first | rfl | cases hl

section
variable (content : Option Bytes) {l : Stmt} {f : World → World} {c : FileState}

theorem Silent.file (h : Silent l f) (w : World) (q : Text) : fileAt (f w) q = fileAt w q := by
  rw [fileAt, h.files, fileAt]

theorem Silent.filed (h : Silent l f) (hc : Filed out c) :
    Filed out (f c.1, recordFiles content l c.1 (f c.1) c.2) := by
  refine hc.record content l ?_ ?_ ?_ ?_ (h.there c.1) fun i p _ hp => ⟨p, (h.path c.1 i).trans hp, rfl⟩
  · simp only [h.file]
    exact hc.file
  · simp only [h.file, h.uuids]
    exact hc.fileName
  · simp only [h.path]
    exact hc.job
  · simp only [h.path, h.uuids]
    exact hc.jobName

theorem Calm.same (h : Calm l f) (hc : Filed out c) : SameFiles c (f c.1, recordFiles content l c.1 (f c.1) c.2) where
  released := hc.released_record (h.queued c.1)
  path := h.path c.1
  there := h.there c.1
  file := h.file c.1
  received := receivedFor_other h.label _ _ _

theorem Silent.release (h : Silent l f) (hc : FilesSettled out .mail c) :
    FilesSettled out .mail (f c.1, recordFiles content l c.1 (f c.1) c.2) ∧
      Rely out .worker c (f c.1, recordFiles content l c.1 (f c.1) c.2) := by
  have hfiled : Filed out (f c.1, recordFiles content l c.1 (f c.1) c.2) := h.filed content hc.1
  have hreceived : receivedFor content l c.1 (f c.1) c.2.received = c.2.received := receivedFor_other h.label _ _ _
  have hsync : ∀ i, ¬ Released c i → InSync (f c.1, recordFiles content l c.1 (f c.1) c.2) i := by
    intro i hi p hp
    obtain ⟨bytes, hbytes, hfile⟩ := hc.2 i hi p ((h.path c.1 i).symm.trans hp)
    exact ⟨bytes, (congrFun hreceived i).trans hbytes, (h.file c.1 p).trans hfile⟩
  refine ⟨⟨hfiled, fun i hi => hsync i fun hold => hi (released_record_iff.2 (.inl hold))⟩, hfiled,
    fun i hi => released_record_iff.2 (.inl hi), h.there c.1, fun i hi => ?_, fun i _ hnot => hsync i hnot,
    fun q hq => ?_⟩
  · exact ⟨released_record_iff.2 (.inl hi), h.path c.1 i, congrFun hreceived i⟩
  · obtain ⟨i, p, hi, hp, hname⟩ := hq
    exact ⟨⟨i, p, released_record_iff.2 (.inl hi), (h.path c.1 i).trans hp, hname⟩, h.file c.1 q⟩

end

/-! ### What a call knows of its job -/

/-- The thread has the job, and its jobs are in step. The file of the job has the name of `path`, if there is one. -/
structure HoldsJob (out : Outside) (t : Thread) (jobId : Text) (path : Option Text) (c : FileState) : Prop where
  settled : FilesSettled out t c
  owns : Owns t c jobId
  there : HasJob c.1 jobId
  path : ∀ p, path = some p → ∃ q, pathOf c.1 jobId = some q ∧ pathName q = pathName p

/-- The file of the job is at `q`, whatever its row says. -/
structure Placed (out : Outside) (t : Thread) (jobId q : Text) (c : FileState) : Prop where
  filed : Filed out c
  others : ∀ i, i ≠ jobId → Owns t c i → InSync c i
  owns : Owns t c jobId
  there : HasJob c.1 jobId
  name : OwnsName t c (pathName q)
  alone : ∀ i p, Owns t c i → pathOf c.1 i = some p → pathName p = pathName q → i = jobId
  content : ∃ bytes, c.2.received jobId = some bytes ∧ fileAt c.1 q = some bytes

/-- A new job, without a file. -/
structure NewJob (out : Outside) (jobId : Text) (bytes : Bytes) (c : FileState) : Prop where
  settled : FilesSettled out .mail c
  owns : ¬ Released c jobId
  there : HasJob c.1 jobId
  path : pathOf c.1 jobId = none
  received : c.2.received jobId = some bytes

/-- The other thread keeps it, and so do calm statements. -/
structure KnownFile (out : Outside) (t : Thread) (P : FileState → Prop) : Prop where
  stable : Stable (RelyFiled out t) P
  filed : ∀ c, P c → Filed out c
  same : ∀ c c', SameFiles c c' → Filed out c' → P c → P c'

theorem known_settled : KnownFile out t (FilesSettled out t) :=
  ⟨settled_stable, fun _ hc => hc.1, fun _ _ h hfiled hc => h.settled hfiled hc⟩

theorem known_holdsJob (jobId : Text) (path : Option Text) : KnownFile out t (HoldsJob out t jobId path) where
  stable c c' hcc' hc := by
    have h := hcc' hc.settled.1
    obtain ⟨howns, hpath, -⟩ := h.job jobId hc.owns
    exact ⟨settled_stable c c' hcc' hc.settled, howns, h.there jobId hc.there, by rw [hpath]; exact hc.path⟩
  filed _ hc := hc.settled.1
  same c c' h hfiled hc := by
    refine ⟨h.settled hfiled hc.settled, (owns_congr h.released jobId).2 hc.owns, h.there jobId hc.there, ?_⟩
    rw [h.path]
    exact hc.path

theorem known_newJob (jobId : Text) (bytes : Bytes) : KnownFile out .mail (NewJob out jobId bytes) where
  stable c c' hcc' hc := by
    have h := hcc' hc.settled.1
    obtain ⟨howns, hpath, hreceived⟩ := h.job jobId hc.owns
    exact ⟨settled_stable c c' hcc' hc.settled, howns, h.there jobId hc.there, hpath.trans hc.path,
      hreceived.trans hc.received⟩
  filed _ hc := hc.settled.1
  same c c' h hfiled hc := ⟨h.settled hfiled hc.settled, fun hi => hc.owns ((h.released jobId).1 hi),
    h.there jobId hc.there, (h.path jobId).trans hc.path, (congrFun h.received jobId).trans hc.received⟩

theorem Placed.stable (jobId q : Text) : Stable (RelyFiled out t) (Placed out t jobId q) := by
  intro c c' hcc' hc
  have h := hcc' hc.filed
  obtain ⟨howns, -, hreceived⟩ := h.job jobId hc.owns
  obtain ⟨hname, hfile⟩ := h.file q hc.name
  refine ⟨h.filed, fun i hne hi => ?_, howns, h.there jobId hc.there, hname, fun i p hi hp hsame => ?_, ?_⟩
  · by_cases hold : Owns t c i
    · exact h.inSync hold (fun p hp => hc.filed.ownsName hold hp) (hc.others i hne hold)
    · exact h.handed i hi hold
  · by_cases hold : Owns t c i
    · exact hc.alone i p hold ((h.job i hold).2.1.symm.trans hp) hsame
    · -- a job that was handed over has a name of its own
      cases t with
      | mail => exact absurd (fun hr => hi (h.released i hr)) hold
      | worker =>
        obtain ⟨k, r, hk, hr, hrq⟩ := hc.name
        obtain rfl := hc.alone k r hk hr hrq
        exact h.filed.job i k p r hp ((h.job k hk).2.1.trans hr) (hsame.trans hrq.symm)
  · obtain ⟨bytes, hbytes, hcontent⟩ := hc.content
    exact ⟨bytes, hreceived.trans hbytes, hfile.trans hcontent⟩

theorem Placed.unique {jobId q : Text} {c : FileState} (hc : Placed out t jobId q c) {i p : Text}
    (hp : pathOf c.1 i = some p) (hsame : pathName p = pathName q) : i = jobId := by
  by_cases hi : Owns t c i
  · exact hc.alone i p hi hp hsame
  · cases t with
    | mail => exact absurd ⟨i, p, not_not.1 hi, hp, hsame⟩ hc.name
    | worker =>
      obtain ⟨k, r, hk, hr, hrq⟩ := hc.name
      have hik : i = k := hc.filed.job i k p r hp hr (hsame.trans hrq.symm)
      exact absurd (hik ▸ hk) hi

/-! ### Statements that move a file, or name one -/

theorem pathOf_writeJob (w : World) (jobId q i : Text) :
    pathOf (w.writeJob jobId [.attachmentStoragePath (some q)]) i =
      if i = jobId then (w.jobs.find? i).map fun _ => q else pathOf w i := by
  simp only [pathOf, World.writeJob, World.modifyJob, Table.find?_modify]
  split_ifs
  · cases w.jobs.find? i <;> rfl
  · rfl

theorem hasJob_modify (w : World) (jobId : Text) (f : Job → Job) (hf : ∀ j, (f j).jobId = j.jobId) (i : Text) :
    HasJob (w.modifyJob jobId f hf) i ↔ HasJob w i := by
  rw [HasJob, World.modifyJob, Table.find?_modify]
  split_ifs
  · rw [Option.isSome_map, HasJob]
  · rfl

theorem Placed.named {jobId q : Text} {c : FileState} (hc : Placed out t jobId q c) (hi : Released c jobId) :
    ∃ p, pathOf c.1 jobId = some p ∧ pathName p = pathName q := by
  cases t with
  | mail => exact absurd hi hc.owns
  | worker =>
    obtain ⟨k, r, hk, hr, hrq⟩ := hc.name
    exact ⟨r, hc.alone k r hk hr hrq ▸ hr, hrq⟩

theorem Placed.place {jobId q : Text} {c : FileState} (hc : Placed out t jobId q c) (content : Option Bytes)
    {w' : World} (hw' : w' = c.1.writeJob jobId [.attachmentStoragePath (some q)]) :
    HoldsJob out t jobId (some q) (w', recordFiles content (.updateJob jobId) c.1 w' c.2) ∧
      Rely out t.other c (w', recordFiles content (.updateJob jobId) c.1 w' c.2) := by
  have hself : pathOf w' jobId = some q := by
    obtain ⟨job, hjob⟩ := Option.isSome_iff_exists.1 hc.there
    rw [hw', pathOf_writeJob, if_pos rfl, hjob]
    rfl
  have hother : ∀ i, i ≠ jobId → pathOf w' i = pathOf c.1 i := fun i hi => by rw [hw', pathOf_writeJob, if_neg hi]
  have hfile : ∀ r, fileAt w' r = fileAt c.1 r := fun r => by rw [hw']; rfl
  have huuids : w'.uuids = c.1.uuids := by rw [hw']; rfl
  have hthere : ∀ i, HasJob c.1 i → HasJob w' i := fun i hi => by rw [hw']; exact (hasJob_modify _ _ _ _ i).2 hi
  have hreleased : ∀ i, Released (w', recordFiles content (.updateJob jobId) c.1 w' c.2) i ↔ Released c i :=
    hc.filed.released_record fun i hq => by rwa [hw', statusOf_writeJob] at hq
  obtain ⟨bytes, hbytes, hcontent⟩ := hc.content
  have hfiled : Filed out (w', recordFiles content (.updateJob jobId) c.1 w' c.2) := by
    refine hc.filed.record content _ ?_ ?_ (fun i j p r hp hr hsame => ?_) (fun i p hp => ?_) hthere
      fun i p hi hp => ?_
    · simpa only [hfile] using hc.filed.file
    · simpa only [hfile, huuids] using hc.filed.fileName
    · by_cases hi : i = jobId
      · by_cases hj : j = jobId
        · rw [hi, hj]
        · rw [hi, hself] at hp
          rw [hother j hj] at hr
          exact hi.trans (hc.unique hr (by rw [← hsame, Option.some.inj hp])).symm
      · rw [hother i hi] at hp
        by_cases hj : j = jobId
        · rw [hj, hself] at hr
          exact (hc.unique hp (by rw [hsame, Option.some.inj hr])).trans hj.symm
        · exact hc.filed.job i j p r hp (by rwa [hother j hj] at hr) hsame
    · rw [huuids]
      by_cases hi : i = jobId
      · rw [hi, hself] at hp
        rw [← Option.some.inj hp]
        exact hc.filed.fileName q (by rw [hcontent]; rfl)
      · exact hc.filed.jobName i p (by rwa [hother i hi] at hp)
    · by_cases hij : i = jobId
      · subst hij
        obtain ⟨r, hr, hrq⟩ := hc.named hi
        exact ⟨q, hself, by rw [← hrq, Option.some.inj (hr.symm.trans hp)]⟩
      · exact ⟨p, (hother i hij).trans hp, rfl⟩
  refine ⟨⟨⟨hfiled, fun i hi p hp => ?_⟩, (owns_congr hreleased jobId).2 hc.owns, hthere jobId hc.there,
    fun p hp => ⟨q, hself, by rw [Option.some.inj hp]⟩⟩, ?_⟩
  · by_cases hij : i = jobId
    · subst hij
      rw [← Option.some.inj (hself.symm.trans hp)]
      exact ⟨bytes, hbytes, (hfile q).trans hcontent⟩
    · have hp' : pathOf c.1 i = some p := (hother i hij).symm.trans hp
      obtain ⟨bytes', hbytes', hcontent'⟩ := hc.others i hij ((owns_congr hreleased i).1 hi) p hp'
      exact ⟨bytes', hbytes', (hfile p).trans hcontent'⟩
  · refine rely_other hfiled hreleased hthere (fun i hi => ⟨hother i ?_, rfl⟩) (fun i p hi hp => ?_) fun r _ => hfile r
    · rintro rfl
      exact hi hc.owns
    · by_cases hij : i = jobId
      · rw [hij, hself] at hp
        rw [← Option.some.inj hp]
        exact hc.name
      · exact hc.filed.ownsName hi ((hother i hij).symm.trans hp)

theorem slash_pathName (path : Text) : '/' ∉ pathName path := by
  intro h
  have hne := List.mem_takeWhile_imp (List.mem_reverse.1 h)
  simp at hne

theorem takeWhile_ne {x : Char} {s : Text} (hs : x ∉ s) (rest : Text) : (s ++ x :: rest).takeWhile (· != x) = s := by
  refine Regex.takeWhile_word (fun a ha => ?_) (by simp)
  have hne : a ≠ x := fun h => hs (h ▸ ha)
  simpa using hne

theorem pathName_joinPath (dir : Text) {name : Text} (hname : '/' ∉ name) : pathName (joinPath dir name) = name := by
  have hjoin : (joinPath dir name).reverse = name.reverse ++ '/' :: dir.reverse := by simp [joinPath, cat]
  rw [pathName, hjoin, takeWhile_ne fun h => hname (List.mem_reverse.1 h), List.reverse_reverse]

theorem fileAt_isSome {w : World} {path : Text} {f : StoredFile} (h : w.files.find? path = some f) :
    fileAt w path = some f.content := by rw [fileAt, h]; rfl

/-- The world after `move_to`. -/
def movedFile (w : World) (path dest : Text) (f : StoredFile) : World :=
  { w with files := (w.files.erase path).upsert ⟨dest, f.content⟩ }

theorem fileAt_movedFile (w : World) (path dest : Text) (f : StoredFile) (q : Text) :
    fileAt (movedFile w path dest f) q =
      if dest = q then some f.content else if q = path then none else fileAt w q := by
  rw [fileAt, movedFile, Table.find?_upsert, Table.find?_erase]
  split_ifs <;> rfl

theorem HoldsJob.move {jobId path : Text} {c : FileState} (hc : HoldsJob out t jobId (some path) c) {f : StoredFile}
    (hfind : c.1.files.find? path = some f) (content : Option Bytes) {dest : Text}
    (hdest : pathName dest = pathName path)
    {w' : World} (hw' : w' = movedFile c.1 path dest f) :
    Placed out t jobId dest (w', recordFiles content .moveFile c.1 w' c.2) ∧
      Rely out t.other c (w', recordFiles content .moveFile c.1 w' c.2) := by
  obtain ⟨hfiled, hsync⟩ := hc.settled
  have hat : fileAt c.1 path = some f.content := fileAt_isSome hfind
  -- the file is that of the job, as it has the name
  obtain ⟨q, hq, hsame⟩ := hc.path path rfl
  obtain ⟨bytes, hbytes, hcontent⟩ := hsync jobId hc.owns q hq
  obtain rfl : q = path := hfiled.file q path (by rw [hcontent]; rfl) (by rw [hat]; rfl) hsame
  have hname : OwnsName t c (pathName q) := hfiled.ownsName hc.owns hq
  have hpath : ∀ i, pathOf w' i = pathOf c.1 i := fun i => by rw [hw']; rfl
  have hfile : ∀ r, pathName r ≠ pathName q → fileAt w' r = fileAt c.1 r := by
    intro r hr
    have hrdest : dest ≠ r := fun h => hr (h ▸ hdest)
    rw [hw', fileAt_movedFile, if_neg hrdest, if_neg fun h => hr (congrArg pathName h)]
  have hthat : fileAt w' dest = some bytes := by
    rw [hw', fileAt_movedFile, if_pos rfl, ← hat, hcontent]
  have honly : ∀ r, (fileAt w' r).isSome = true → pathName r = pathName q → r = dest := by
    intro r hr hrq
    rw [hw', fileAt_movedFile] at hr
    split_ifs at hr with hrdest hrpath
    · exact hrdest.symm
    · cases hr
    · exact absurd (hfiled.file r q hr (by rw [hat]; rfl) hrq) hrpath
  have hreleased : ∀ i, Released (w', recordFiles content .moveFile c.1 w' c.2) i ↔ Released c i :=
    hfiled.released_record fun i hi => by rwa [hw'] at hi
  have hthere : ∀ i, HasJob c.1 i → HasJob w' i := fun i hi => by rw [hw']; exact hi
  have huuids : w'.uuids = c.1.uuids := by rw [hw']; rfl
  have hfiled' : Filed out (w', recordFiles content .moveFile c.1 w' c.2) := by
    refine hfiled.record content _ (fun p r hp hr hpr => ?_) (fun p hp => ?_) ?_ ?_ hthere
      fun i p _ hp => ⟨p, (hpath i).trans hp, rfl⟩
    · by_cases hpq : pathName p = pathName q
      · rw [honly p hp hpq, honly r hr (hpr ▸ hpq)]
      · rw [hfile p hpq] at hp
        rw [hfile r (hpr ▸ hpq)] at hr
        exact hfiled.file p r hp hr hpr
    · rw [huuids]
      by_cases hpq : pathName p = pathName q
      · exact hpq ▸ hfiled.fileName q (by rw [hat]; rfl)
      · exact hfiled.fileName p (by rwa [hfile p hpq] at hp)
    · simpa only [hpath] using hfiled.job
    · simpa only [hpath, huuids] using hfiled.jobName
  refine ⟨⟨hfiled', fun i hij hi p hp => ?_, (owns_congr hreleased jobId).2 hc.owns, hthere jobId hc.there, ?_,
    fun i p _ hp hpq => ?_, bytes, hbytes, hthat⟩, ?_⟩
  · rw [hpath] at hp
    obtain ⟨bytes', hbytes', hcontent'⟩ := hsync i ((owns_congr hreleased i).1 hi) p hp
    exact ⟨bytes', hbytes', (hfile p fun h => hij (hfiled.job i jobId p q hp hq h)).trans hcontent'⟩
  · rw [hdest]
    exact (ownsName_congr hreleased hpath _).2 hname
  · exact hfiled.job i jobId p q ((hpath i).symm.trans hp) hq (hpq.trans hdest)
  · refine rely_other hfiled' hreleased hthere (fun i _ => ⟨hpath i, rfl⟩)
      (fun i p hi hp => hfiled.ownsName hi ((hpath i).symm.trans hp)) fun r hr => hfile r fun h => hr (h ▸ hname)

/-- What the standard library and `secure_filename` promise: names that are new, without the separators. -/
structure FreshNames (out : Outside) : Prop where
  unique : Function.Injective out.uuid
  plain : ∀ n, '_' ∉ out.uuid n ∧ '/' ∉ out.uuid n
  safe : ∀ name, '/' ∉ out.secureFilename name

theorem FreshNames.not_generated (h : FreshNames out) (n : Nat) (rest : Text) :
    ¬ Generated out n (cat [out.uuid n, "_", rest]) := by
  rintro ⟨k, hk, rest', hname⟩
  have hsplit : out.uuid n ++ '_' :: rest = out.uuid k ++ '_' :: rest' := by simpa [cat] using hname
  have huuid : out.uuid n = out.uuid k := by
    rw [← takeWhile_ne (h.plain n).1 rest, hsplit, takeWhile_ne (h.plain k).1]
  exact absurd (h.unique huuid) (Nat.ne_of_gt hk)

theorem NewJob.save (hnames : FreshNames out) {jobId : Text} {bytes : Bytes} {c : FileState}
    (hc : NewJob out jobId bytes c) (content : Option Bytes) (dir : Text) {rest path : Text} (hrest : '/' ∉ rest)
    (hpath : path = joinPath dir (cat [out.uuid c.1.uuids, "_", rest])) {w' : World}
    (hw' : w' = { c.1 with files := c.1.files.upsert ⟨path, bytes⟩, uuids := c.1.uuids + 1 }) :
    Placed out .mail jobId path (w', recordFiles content .writeFile c.1 w' c.2) ∧
      Rely out .worker c (w', recordFiles content .writeFile c.1 w' c.2) := by
  obtain ⟨hfiled, hsync⟩ := hc.settled
  have hname : pathName path = cat [out.uuid c.1.uuids, "_", rest] := by
    rw [hpath]
    refine pathName_joinPath dir fun h => ?_
    have hmem : '/' ∈ out.uuid c.1.uuids ∨ '/' ∈ rest := by simpa [cat] using h
    exact hmem.elim (hnames.plain _).2 hrest
  have hfresh : ¬ Generated out c.1.uuids (pathName path) := hname ▸ hnames.not_generated c.1.uuids rest
  have hlater : ∀ name, Generated out c.1.uuids name → Generated out w'.uuids name := by
    rintro name ⟨k, hk, hrest⟩
    exact ⟨k, by rw [hw']; exact Nat.lt_succ_of_lt hk, hrest⟩
  have hrow : ∀ i, pathOf w' i = pathOf c.1 i := fun i => by rw [hw']; rfl
  have hat : ∀ r, fileAt w' r = if path = r then some bytes else fileAt c.1 r := by
    intro r
    rw [hw', fileAt, Table.find?_upsert]
    split_ifs <;> rfl
  have hfile : ∀ r, Generated out c.1.uuids (pathName r) → fileAt w' r = fileAt c.1 r := by
    intro r hr
    rw [hat, if_neg]
    rintro rfl
    exact hfresh hr
  have holder : ∀ r, (fileAt w' r).isSome = true → r = path ∨ (fileAt c.1 r).isSome = true := by
    intro r hr
    rw [hat] at hr
    split_ifs at hr with heq
    · exact .inl heq.symm
    · exact .inr hr
  have hreleased : ∀ i, Released (w', recordFiles content .writeFile c.1 w' c.2) i ↔ Released c i :=
    hfiled.released_record fun i hi => by rwa [hw'] at hi
  have hthere : ∀ i, HasJob c.1 i → HasJob w' i := fun i hi => by rw [hw']; exact hi
  have hfiled' : Filed out (w', recordFiles content .writeFile c.1 w' c.2) := by
    refine hfiled.record content _ (fun p r hp hr hpr => ?_) (fun p hp => ?_) ?_ (fun i p hp => ?_) hthere
      fun i p _ hp => ⟨p, (hrow i).trans hp, rfl⟩
    · rcases holder p hp with rfl | hp'
      · rcases holder r hr with rfl | hr'
        · rfl
        · exact absurd (hpr ▸ hfiled.fileName r hr') hfresh
      · rcases holder r hr with rfl | hr'
        · exact absurd (hpr ▸ hfiled.fileName p hp') hfresh
        · exact hfiled.file p r hp' hr' hpr
    · rcases holder p hp with rfl | hp'
      · exact ⟨c.1.uuids, by rw [hw']; exact Nat.lt_succ_self _, rest, hname⟩
      · exact hlater _ (hfiled.fileName p hp')
    · simpa only [hrow] using hfiled.job
    · exact hlater _ (hfiled.jobName i p ((hrow i).symm.trans hp))
  refine ⟨⟨hfiled', fun i _ hi p hp => ?_, fun hi => hc.owns ((hreleased jobId).1 hi), hthere jobId hc.there, ?_,
    fun i p _ hp hsame => ?_, bytes, hc.received, by rw [hat, if_pos rfl]⟩, ?_⟩
  · rw [hrow] at hp
    obtain ⟨bytes', hbytes, hcontent⟩ := hsync i (fun h => hi ((hreleased i).2 h)) p hp
    exact ⟨bytes', hbytes, (hfile p (hfiled.jobName i p hp)).trans hcontent⟩
  · rintro ⟨i, p, _, hp, hsame⟩
    exact hfresh (hsame ▸ hfiled.jobName i p ((hrow i).symm.trans hp))
  · exact absurd (hsame ▸ hfiled.jobName i p ((hrow i).symm.trans hp)) hfresh
  · refine rely_other (t := .mail) hfiled' hreleased hthere (fun i _ => ⟨hrow i, rfl⟩)
      (fun i p hi hp => hfiled.ownsName hi ((hrow i).symm.trans hp)) fun r hr => hfile r ?_
    obtain ⟨i, p, _, hp, hsame⟩ := not_not.1 hr
    exact hsame ▸ hfiled.jobName i p hp

theorem FilesSettled.insert {c : FileState} (hc : FilesSettled out .mail c) (bytes : Bytes) (source : Text) {row : Job}
    (hreceived : row.status = .received) (hnone : row.attachmentStoragePath = none) {jobs : Table Job.jobId}
    (hinsert : c.1.jobs.insert? row = some jobs) {w' : World} (hw' : w' = { c.1 with jobs }) :
    NewJob out row.jobId bytes (w', recordFiles (some bytes) (.insertJob source) c.1 w' c.2) ∧
      Rely out .worker c (w', recordFiles (some bytes) (.insertJob source) c.1 w' c.2) := by
  obtain ⟨hfiled, hsync⟩ := hc
  have hfind : ∀ i, w'.jobs.find? i = if row.jobId = i then some row else c.1.jobs.find? i := fun i => by
    rw [hw']
    exact Table.find?_insert? hinsert i
  have hfree : ¬ HasJob c.1 row.jobId := by
    rw [HasJob, (c.1.jobs.insert?_isSome row).1 (by rw [hinsert]; rfl)]
    exact Bool.false_ne_true
  have hother : ∀ i, row.jobId ≠ i → pathOf w' i = pathOf c.1 i := fun i hi => by rw [pathOf, hfind, if_neg hi, pathOf]
  have hself : pathOf w' row.jobId = none := by rw [pathOf, hfind, if_pos rfl]; exact hnone
  have hold : ∀ i p, pathOf w' i = some p → row.jobId ≠ i ∧ pathOf c.1 i = some p := by
    intro i p hp
    have hne : row.jobId ≠ i := by
      rintro rfl
      rw [hself] at hp
      cases hp
    exact ⟨hne, (hother i hne).symm.trans hp⟩
  have hfile : ∀ r, fileAt w' r = fileAt c.1 r := fun r => by rw [hw']; rfl
  have huuids : w'.uuids = c.1.uuids := by rw [hw']
  have hthere : ∀ i, HasJob c.1 i → HasJob w' i := by
    intro i hi
    rw [HasJob, hfind]
    split_ifs
    · rfl
    · exact hi
  have hreleased : ∀ i, Released (w', recordFiles (some bytes) (.insertJob source) c.1 w' c.2) i ↔ Released c i := by
    refine hfiled.released_record fun i hi => ?_
    rw [hw', statusOf_insert hinsert, hreceived] at hi
    split_ifs at hi
    · cases hi
    · exact hi
  have hnew : ¬ Released c row.jobId := by
    rintro ⟨job, hjob, hid⟩
    exact hfree (hid ▸ (hfiled.listed job hjob).1)
  have hrecord : receivedFor (some bytes) (.insertJob source) c.1 w' c.2.received =
      Function.update c.2.received row.jobId (some bytes) := by
    have hadded : addedJob c.1 w' = some row := by rw [hw']; exact addedJob_insert hinsert
    simp only [receivedFor, hadded]
  have hfiled' : Filed out (w', recordFiles (some bytes) (.insertJob source) c.1 w' c.2) := by
    refine hfiled.record _ _ ?_ ?_ (fun i j p r hp hr => hfiled.job i j p r (hold i p hp).2 (hold j r hr).2)
      (fun i p hp => huuids ▸ hfiled.jobName i p (hold i p hp).2) hthere fun i p hi hp => ⟨p, ?_, rfl⟩
    · simpa only [hfile] using hfiled.file
    · simpa only [hfile, huuids] using hfiled.fileName
    · exact (hother i fun h => hnew (h ▸ hi)).trans hp
  have hkept : ∀ i, row.jobId ≠ i → receivedFor (some bytes) (.insertJob source) c.1 w' c.2.received i =
      c.2.received i := fun i hi => by rw [hrecord, Function.update_of_ne (Ne.symm hi)]
  refine ⟨⟨⟨hfiled', fun i hi p hp => ?_⟩, fun hi => hnew ((hreleased _).1 hi), ?_, hself, ?_⟩, ?_⟩
  · obtain ⟨hne, hp'⟩ := hold i p hp
    obtain ⟨bytes', hbytes, hcontent⟩ := hsync i (fun h => hi ((hreleased i).2 h)) p hp'
    exact ⟨bytes', (hkept i hne).trans hbytes, (hfile p).trans hcontent⟩
  · rw [HasJob, hfind, if_pos rfl]
    rfl
  · exact (congrFun hrecord row.jobId).trans (Function.update_self ..)
  · refine rely_other (t := .mail) hfiled' hreleased hthere (fun i hi => ?_) (fun i p hi hp => ?_) fun r _ => hfile r
    · have hne : row.jobId ≠ i := fun h => hnew (h ▸ not_not.1 hi)
      exact ⟨hother i hne, hkept i hne⟩
    · exact hfiled.ownsName hi (hold i p hp).2

theorem FilesSettled.refused {c : FileState} (hc : FilesSettled out t c) (content : Option Bytes) (source : Text) :
    FilesSettled out t (c.1, recordFiles content (.insertJob source) c.1 c.1 c.2) ∧
      Rely out t.other c (c.1, recordFiles content (.insertJob source) c.1 c.1 c.2) := by
  have hfiled := hc.1
  have hfiled' : Filed out (c.1, recordFiles content (.insertJob source) c.1 c.1 c.2) :=
    hfiled.record content _ hfiled.file hfiled.fileName hfiled.job hfiled.jobName (fun _ hi => hi)
      fun _ p _ hp => ⟨p, hp, rfl⟩
  have hsame : SameFiles c (c.1, recordFiles content (.insertJob source) c.1 c.1 c.2) := by
    refine ⟨hfiled.released_record fun _ hi => hi, fun _ => rfl, fun _ hi => hi, fun _ => rfl, ?_⟩
    simp only [recordFiles, receivedFor, addedJob_self]
  exact ⟨hsame.settled hfiled' hc, hsame.rely hfiled'⟩

end

end GroupAssessmentAgent
