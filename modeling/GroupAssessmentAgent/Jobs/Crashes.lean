import GroupAssessmentAgent.Jobs.Course

/-!
# Jobs after a crash

The mail thread runs `accept`, the worker runs `execute`, and the process may die between any two of their statements
and start again. What brings a job to its end is that `list_queued` finds it. A history variable keeps the status that
each call has last written (`LastWrites`). `allFound_settledLeaves`: the worker finds every unfinished job after every
restart, if no call is left while this status is RECEIVED, VALIDATING or PROCESSING. A call left there leaves a job that
no query finds.
-/

namespace GroupAssessmentAgent
open Prog

/-- The statuses in which a job waits for nobody here. -/
def JobState.AtRest (s : JobState) : Prop := s = .completed ∨ s = .failed ∨ s = .cancelled ∨ s = .needsClarification

instance (s : JobState) : Decidable s.AtRest := inferInstanceAs (Decidable (_ ∨ _ ∨ _ ∨ _))

theorem JobState.queued_of {s : JobState} (hrest : ¬ s.AtRest) (hwork : ¬ s.AtWork) : s = .queued := by
  cases s <;> simp [AtRest, AtWork] at hrest hwork ⊢

/-- What the call of each thread has last written. -/
abbrev LastWrites := Thread → LastStatus

/-- The row that an INSERT has added. -/
def addedJob (w w' : World) : Option Job := (w'.jobs.rows.drop w.jobs.rows.length).head?

def statusWritten (l : Stmt) (w w' : World) (last : LastStatus) : LastStatus :=
  match l with
  | .insertJob _ => ((addedJob w w').map fun j => (j.jobId, j.status)).or last
  | .updateStatus jobId _ new => some (jobId, new)
  | _ => last

def recordWrites (t : Thread) (l : Stmt) (w w' : World) (a : LastWrites) : LastWrites :=
  Function.update a t (statusWritten l w w' (a t))

/-- The thread is not in the middle of its work on a job. -/
def SettledAt (t : Thread) (c : World × LastWrites) : Prop := ∀ jobId s, c.2 t = some (jobId, s) → ¬ s.AtWork

instance (t : Thread) (c : World × LastWrites) : Decidable (SettledAt t c) :=
  decidable_of_iff (∀ last ∈ c.2 t, ¬ last.2.AtWork) ⟨fun h _ _ hlast => h _ hlast, fun h last => h last.1 last.2⟩

/-- A program of a thread answers with the thread. -/
abbrev ThreadProg := Prog Stmt (World × LastWrites) Exc Thread

/-- A call beside its history. -/
def threadProg (t : Thread) (p : M Unit) : ThreadProg := (watch (recordWrites t) p).bind fun _ => ret t

/-- Every statement may raise. An `IntegrityError` is what the tables give. -/
def Faults : Env Stmt World Exc := ⟨fun _ _ => True, fun _ _ e => e.kind ≠ .integrityError⟩

/-- What else happens: nobody else starts to work on a job. -/
def OthersWork (c c' : World × LastWrites) : Prop :=
  c'.2 = c.2 ∧ ∀ jobId s, s.AtWork → statusOf c'.1 jobId = some s → statusOf c.1 jobId = some s

section
variable (out : Outside)

section
variable [PyChars]

/-- The calls of the two threads. -/
inductive WorkCall : Thread → M Unit → Prop
  | submitAccept (cmd req storage attachments userId sourceMessageId receivedAt) : WorkCall .mail (do
      let _ ← SubmitTranscript.accept out cmd req storage attachments userId sourceMessageId receivedAt)
  | assessAccept (cmd req userId sourceMessageId) : WorkCall .mail (do
      let _ ← AssessQuery.accept out cmd req userId sourceMessageId)
  | submitExecute (worker job) : WorkCall .worker (SubmitTranscript.execute out worker job)
  | assessExecute (worker job) : WorkCall .worker (AssessQuery.execute out worker job)

/-- What a thread does next: a call, or nothing, after the process has died. -/
def NextCall (t : Thread) (q : ThreadProg) : Prop :=
  q = ret t ∨ ∃ p, WorkCall out t p ∧ q = threadProg t p

/-- A run of the process and its restarts; a call is left, and the next one made, where `leaves` allows it. -/
def ProcessRun (leaves : Thread → World × LastWrites → Prop) (w : World)
    (d : (Thread → ThreadProg) × (World × LastWrites)) :
    Prop :=
  PoolSteps (Faults.watched LastWrites) OthersWork (fun t q c => NextCall out t q ∧ leaves t c)
    (fun t => ret t, w, fun _ => none) d

end

/-- The worker's query finds every unfinished job. -/
def AllFound (w : World) : Prop :=
  ∀ job ∈ w.jobs.rows, ¬ job.status.AtRest → ∃ jobs, (JobStore.listQueued.run w).1 = .ok jobs ∧ job ∈ jobs

/-! ### The invariant -/

/-- Every job that is being worked on is what a call has last written. -/
def Tracked (c : World × LastWrites) : Prop :=
  ∀ jobId s, s.AtWork → statusOf c.1 jobId = some s → ∃ t, c.2 t = some (jobId, s)

/-- A step of the thread. -/
def WorkStep (t : Thread) (c c' : World × LastWrites) : Prop :=
  (∀ u, u ≠ t → c'.2 u = c.2 u) ∧ (Tracked c → Tracked c')

/-- What is known of the thread's own last write. -/
def KnownAt (t : Thread) : LastStatus → World × LastWrites → Prop
  | none, c => SettledAt t c
  | some last, c => c.2 t = some last

/-- The other thread does not write what this one has last written. -/
def SameLast (t : Thread) (c c' : World × LastWrites) : Prop := c'.2 t = c.2 t

variable {t : Thread}

theorem sameLast_refl (c : World × LastWrites) : SameLast t c c := rfl

theorem knownAt_stable (last : LastStatus) : Stable (SameLast t) (KnownAt t last) := by
  intro c c' hcc' hc
  cases last with
  | none =>
    intro jobId s hs
    rw [hcc'] at hs
    exact hc jobId s hs
  | some last => exact Eq.trans hcc' hc

theorem recordWrites_self {l : Stmt} {w w' : World} {a : LastWrites} (h : statusWritten l w w' (a t) = a t) :
    recordWrites t l w w' a = a := by
  rw [recordWrites, h, Function.update_eq_self]

theorem silent_moves {l : Stmt} {f : World → World} (hl : l.writesStatus = false)
    (hf : ∀ w jobId, statusOf (f w) jobId = statusOf w jobId) (last : LastStatus) :
    Moves (recordWrites t) (KnownAt t last) (WorkStep t) l f := by
  intro c hc
  have hsame : recordWrites t l c.1 (f c.1) c.2 = c.2 := by
    refine recordWrites_self ?_
    cases l <;> first | rfl | cases hl
  rw [hsame]
  refine ⟨?_, fun _ _ => rfl, fun htracked jobId s hs hstatus => htracked jobId s hs ?_⟩
  · cases last <;> exact hc
  · rwa [← hf]

/-- To write a status of the job that the thread is at work on, if it is at work on any. -/
theorem workStep_write {jobId : Text} {new : JobState} {c : World × LastWrites} {w' : World}
    (habout : ∀ id s, c.2 t = some (id, s) → s.AtWork → id = jobId)
    (hother : ∀ id, id ≠ jobId → statusOf w' id = statusOf c.1 id)
    (hnew : ∀ s, statusOf w' jobId = some s → s = new) :
    WorkStep t c (w', Function.update c.2 t (some (jobId, new))) := by
  refine ⟨fun u hu => Function.update_of_ne hu _ _, fun htracked id s hs hstatus => ?_⟩
  by_cases hid : id = jobId
  · subst hid
    exact ⟨t, by rw [hnew s hstatus]; exact Function.update_self ..⟩
  · obtain ⟨u, hu⟩ := htracked id s hs ((hother id hid).symm.trans hstatus)
    have hut : u ≠ t := by
      rintro rfl
      exact hid (habout id s hu hs)
    exact ⟨u, (Function.update_of_ne hut _ _).trans hu⟩

theorem setStatus_recorded {jobId : Text} {last : LastStatus} (hlast : last = none ∨ ∃ s, last = some (jobId, s))
    (new : JobState) (extra : List JobField) {c : World × LastWrites} (hc : KnownAt t last c) :
    RG (Faults.watched LastWrites) (SameLast t) (WorkStep t) (Ends (KnownAt t (some (jobId, new))) (KnownAt t last))
      (watch (recordWrites t) (JobStore.setStatus out jobId new extra)) c := by
  refine setStatus_rg (K := fun _ => KnownAt t last) out extra sameLast_refl (knownAt_stable last)
    (fun _ => knownAt_stable last) (knownAt_stable _) (fun _ _ h => h) (fun c hc => ?_)
    (fun _ => silent_moves (f := World.tick) rfl (fun _ _ => rfl) last) (fun current fields _ _ c hc => ⟨?_, ?_⟩) hc
  · obtain ⟨hknown, hstep⟩ := silent_moves (l := .selectJobs) (f := id) rfl (fun _ _ => rfl) last c hc
    exact ⟨hstep, hknown, fun _ _ => hknown⟩
  · refine workStep_write (fun id s hs hwork => ?_) (fun id hid => ?_) fun s hs => ?_
    · obtain rfl | ⟨s', rfl⟩ := hlast
      · exact absurd hwork (hc id s hs)
      · have hsame := (hs.symm.trans hc : some (id, s) = some (jobId, s'))
        exact congrArg Prod.fst (Option.some.inj hsame)
    · rw [statusOf_writeStatus, if_neg hid]
    · rw [statusOf_writeStatus, if_pos rfl] at hs
      obtain ⟨_, _, hs⟩ := Option.map_eq_some_iff.1 hs
      exact hs.symm
  · exact Function.update_self ..

theorem addedJob_insert {w : World} {row : Job} {jobs : Table Job.jobId} (h : w.jobs.insert? row = some jobs) :
    addedJob w { w with jobs } = some row := by
  rw [addedJob, Table.insert?_rows h, List.drop_left]
  rfl

theorem addedJob_self (w : World) : addedJob w w = none := by
  rw [addedJob, List.drop_length]
  rfl

theorem statusWritten_insert {w : World} {row : Job} {jobs : Table Job.jobId} (h : w.jobs.insert? row = some jobs)
    (source : Text) (last : LastStatus) :
    statusWritten (.insertJob source) w { w with jobs } last = some (row.jobId, row.status) := by
  rw [statusWritten, addedJob_insert h]
  rfl

theorem statusWritten_refused (w : World) (source : Text) (last : LastStatus) :
    statusWritten (.insertJob source) w w last = last := by
  rw [statusWritten, addedJob_self]
  rfl

theorem insert_recorded (source : Text) {row : Job} {jobs : Table Job.jobId} {c : World × LastWrites}
    (hreceived : row.status = .received) (hinsert : c.1.jobs.insert? row = some jobs) (hc : SettledAt t c) :
    KnownAt t (some (row.jobId, .received))
        ({ c.1 with jobs }, recordWrites t (.insertJob source) c.1 { c.1 with jobs } c.2) ∧
      WorkStep t c ({ c.1 with jobs }, recordWrites t (.insertJob source) c.1 { c.1 with jobs } c.2) := by
  have hrecord : recordWrites t (.insertJob source) c.1 { c.1 with jobs } c.2 =
      Function.update c.2 t (some (row.jobId, .received)) := by
    rw [recordWrites, statusWritten_insert hinsert, hreceived]
  rw [hrecord]
  refine ⟨Function.update_self .., workStep_write (fun id s hs hwork => absurd hwork (hc id s hs)) (fun id hid => ?_)
    fun s hs => ?_⟩
  · rw [statusOf_insert hinsert, if_neg (Ne.symm hid)]
  · rw [statusOf_insert hinsert, if_pos rfl, hreceived] at hs
    exact (Option.some.inj hs).symm

theorem ask_recorded (job : Job) (groups : List GroupSummary) (subject : Text) {c : World × LastWrites}
    (hc : KnownAt t (some (job.jobId, .processing)) c) :
    RG (Faults.watched LastWrites) (SameLast t) (WorkStep t)
      (Ends (KnownAt t (some (job.jobId, .needsClarification))) fun c => ∃ s, c.2 t = some (job.jobId, s))
      (watch (recordWrites t) (askForGroup out job groups subject)) c := by
  have hput : ∀ question,
      Always (Moves (recordWrites t) (KnownAt t (some (job.jobId, .needsClarification))) (WorkStep t))
        (PendingClarificationStore.put out job.jobId question "group_hint" (groups.map GroupSummary.name)) := by
    intro question
    refine Always.bind (always_atomic (silent_moves rfl ?_ _)) fun _ => always_change (silent_moves rfl ?_ _)
    · exact fun _ _ => rfl
    · exact fun _ _ => rfl
  have hmail : ∀ mail,
      Always (Moves (recordWrites t) (KnownAt t (some (job.jobId, .needsClarification))) (WorkStep t))
        (job.request.enqueue out mail (some job.jobId) []) :=
    fun mail => (enqueue_quiet out _ mail _ _).mono fun l f hf => silent_moves hf.label hf.status _
  refine rg_watch_bind sameLast_refl (setStatus_recorded out (.inr ⟨_, rfl⟩) .needsClarification [] hc)
    (fun _ c hc => ?_) fun _ c hc => ⟨_, hc⟩
  refine (((hput _).bind fun _ => hmail _).moves (knownAt_stable _) hc).mono (fun _ _ h => h) fun x c hc => ?_
  cases x with
  | ok _ => exact hc
  | error e => exact ⟨_, hc⟩

theorem crash_course [PyChars] (t : Thread) :
    JobCourse out (recordWrites t) Faults (SameLast t) (WorkStep t) (KnownAt t)
      (fun jobId c => ∃ s, c.2 t = some (jobId, s)) fun _ => True where
  refl := sameLast_refl
  stable := knownAt_stable
  stable_left _ _ _ _ := trivial
  quiet last l f hf := silent_moves hf.label hf.status last
  unique _ _ _ h := h
  insert source row jobs c := insert_recorded source
  refused source c hc := by
    rw [recordWrites_self (statusWritten_refused c.1 source _)]
    exact ⟨hc, fun _ _ => rfl, id⟩
  start jobId c hc := setStatus_recorded out (.inl rfl) .processing [] hc
  move jobId s new extra c _ _ hc := setStatus_recorded out (.inr ⟨s, rfl⟩) new extra hc
  ask job groups subject c := ask_recorded out job groups subject
  fail jobId extra c hc := by
    obtain ⟨s, hs⟩ := hc
    refine (setStatus_recorded out (.inr ⟨s, rfl⟩) .failed extra hs).mono (fun _ _ h => h) fun x c hc => ?_
    cases x with
    | ok _ => exact hc
    | error e => trivial
  torn jobId s c _ hc := ⟨s, hc⟩
  left _ _ _ := trivial

/-! ### Runs -/

section
variable [PyChars]

theorem workCall_rg {t : Thread} {p : M Unit} (hp : WorkCall out t p) {c : World × LastWrites} (hc : SettledAt t c) :
    RG (Faults.watched LastWrites) (SameLast t) (WorkStep t) (Ends (SettledAt t) fun _ => True)
      (watch (recordWrites t) p) c := by
  have H := crash_course out t
  have hsettled : ∀ c, Finished (KnownAt t) c → SettledAt t c := by
    rintro c ⟨jobId, s, hs, hlast⟩ jobId' s' hlast'
    have hsame := (hlast'.symm.trans hlast : some (jobId', s') = some (jobId, s))
    obtain ⟨-, rfl⟩ := Prod.mk.inj (Option.some.inj hsame)
    exact hs
  have hends : ∀ (α : Type) (x : Except Exc α) c, Ends (Finished (KnownAt t)) (fun _ => True) x c →
      Ends (SettledAt t) (fun _ => True) x c := by
    intro α x c h
    cases x with
    | ok a => exact hsettled c h
    | error e => trivial
  cases hp with
  | submitAccept cmd req storage attachments userId source receivedAt =>
    refine H.bind (H.submitAccept_course cmd req storage attachments userId source receivedAt hc) (fun _ c hc => ?_)
      fun _ _ _ => trivial
    exact fun c' hcc' => knownAt_stable none c c' hcc' (hsettled c hc)
  | assessAccept cmd req userId source =>
    refine H.bind (H.assessAccept_course cmd req userId source hc) (fun _ c hc => ?_) fun _ _ _ => trivial
    exact fun c' hcc' => knownAt_stable none c c' hcc' (hsettled c hc)
  | submitExecute worker job =>
    exact (H.submitExecute_course worker job hc).mono (fun _ _ h => h) (hends Unit)
  | assessExecute worker job =>
    exact (H.assessExecute_course worker job hc).mono (fun _ _ h => h) (hends Unit)

theorem processRun_spec : PoolSpec (Faults.watched LastWrites) OthersWork
    (fun t q c => NextCall out t q ∧ SettledAt t c) SameLast WorkStep fun x c => ∀ t, x = .ok t → SettledAt t c where
  refl _ _ := rfl
  trans _ _ _ _ h h' := h'.trans h
  others t u htu _ _ h := h.1 u (Ne.symm htu)
  around t _ _ h := congrFun h.1 t
  called := by
    rintro t q c ⟨hq, hc⟩
    have hret : ∀ c, SettledAt t c → RG (Faults.watched LastWrites) (SameLast t) (WorkStep t)
        (fun x c => ∀ t, x = .ok t → SettledAt t c) (ret t : ThreadProg) c := by
      intro c hc c' hcc' u hu
      rw [← Except.ok.inj hu]
      exact knownAt_stable none c c' hcc' hc
    rcases hq with rfl | ⟨p, hp, rfl⟩
    · exact hret c hc
    · exact RG.bind sameLast_refl (workCall_rg out hp hc) (fun _ c hc => hret c hc) fun _ _ _ _ h => by cases h

/-- **No call is left in the middle of its work**, by an exception or by the death of the process: then the worker finds
every unfinished job after every restart. -/
theorem allFound_settledLeaves {w : World} (hstart : ∀ job ∈ w.jobs.rows, ¬ job.status.AtWork)
    {d : (Thread → ThreadProg) × (World × LastWrites)} (hrun : ProcessRun out SettledAt w d)
    (hidle : ∀ t, d.1 t = ret t) : AllFound d.2.1 := by
  have htracked : Tracked (w, fun _ => none) := by
    intro jobId s hs hstatus
    obtain ⟨job, hfind, rfl⟩ := Option.map_eq_some_iff.1 hstatus
    exact absurd hs (hstart job (Table.find?_mem hfind))
  have hok : PoolOk (Faults.watched LastWrites) SameLast WorkStep (fun x c => ∀ t, x = .ok t → SettledAt t c) d := by
    refine (processRun_spec out).ok hrun fun t c' hcc' u hu jobId s hlast => ?_
    rw [← Except.ok.inj hu, hcc'] at hlast
    cases hlast
  have htracked' : Tracked d.2 := by
    refine (processRun_spec out).inv (fun t _ _ h => h.2) (fun c c' h htracked jobId s hs hstatus => ?_) hrun
      (fun t c' hcc' u hu jobId s hlast => ?_) htracked
    · obtain ⟨t, ht⟩ := htracked jobId s hs (h.2 jobId s hs hstatus)
      exact ⟨t, (congrFun h.1 t).trans ht⟩
    · rw [← Except.ok.inj hu, hcc'] at hlast
      cases hlast
  intro job hjob hrest
  refine ⟨_, rfl, ?_⟩
  have hwork : ¬ job.status.AtWork := by
    intro hs
    have hstatus : statusOf d.2.1 job.jobId = some job.status := by rw [statusOf, Table.find?_of_mem hjob]; rfl
    obtain ⟨t, ht⟩ := htracked' job.jobId job.status hs hstatus
    have hend := hok t
    rw [hidle t] at hend
    exact hend d.2 rfl t rfl job.jobId job.status ht hs
  have hqueued := JobState.queued_of hrest hwork
  exact (List.mem_insertionSort _).2 (List.mem_filter.2 ⟨hjob, decide_eq_true hqueued⟩)

end

end

/-! ### A question that is lost -/

section
attribute [local instance] asciiChars

/-- The mail thread accepts a question of the owner. -/
def acceptQuestion : M Unit := do
  let _ ← AssessQuery.accept .plain testsQuestion aliceRequest 12 "<1@uni.ac.uk>"

/-- The worker executes it. -/
def executeQuestion : M Unit := AssessQuery.execute .plain (smallWorker [⟨7, "Team A"⟩]) questionJob

theorem nextCall_accept : NextCall .plain .mail (threadProg .mail acceptQuestion) :=
  .inr ⟨_, .assessAccept .., rfl⟩

theorem nextCall_execute : NextCall .plain .worker (threadProg .worker executeQuestion) :=
  .inr ⟨_, .assessExecute .., rfl⟩

/-- The call of `accept`, up to the point where the job is queued. -/
def acceptedQuestion : ThreadProg × (World × LastWrites) :=
  follow (List.replicate 8 none) (threadProg .mail acceptQuestion, {}, fun _ => none)

/-- The call of `execute`, up to the UPDATE to PROCESSING. -/
def startedQuestion : ThreadProg × (World × LastWrites) :=
  follow (List.replicate 3 none) (threadProg .worker executeQuestion, acceptedQuestion.2)

theorem steps_threads (n : Nat) (c : ThreadProg × (World × LastWrites)) :
    Steps (Faults.watched LastWrites) c (follow (List.replicate n none) c) := steps_follow_none (fun _ _ => trivial) n c

/-- The process dies before the acknowledgement is sent, and the worker finds the job. -/
theorem found_after_restart : ∃ d, ProcessRun .plain SettledAt {} d ∧ d.2.1.jobs.rows = [questionJob] ∧
    AllFound d.2.1 := by
  have hrun : ProcessRun .plain SettledAt {} _ :=
    .call (.call .refl ⟨nextCall_accept, by decide +kernel⟩ (steps_threads 8 _))
      (t := .mail) (p := ret .mail) ⟨.inl rfl, by decide +kernel⟩ .refl
  refine ⟨_, hrun, by decide +kernel, allFound_settledLeaves .plain (fun _ h => by cases h) hrun fun t => ?_⟩
  cases t <;> rfl

/-- The process dies after the UPDATE to PROCESSING, and no query finds the job. -/
theorem job_lost : ¬ ∀ w d, w.jobs.rows = [] → ProcessRun .plain (fun _ _ => True) w d → (∀ t, d.1 t = ret t) →
    AllFound d.2.1 := by
  intro h
  have hstarted : ProcessRun .plain (fun _ _ => True) {} _ :=
    .call (.call .refl ⟨nextCall_accept, trivial⟩ (steps_threads 8 _)) ⟨nextCall_execute, trivial⟩ (steps_threads 3 _)
  have hdead : ProcessRun .plain (fun _ _ => True) {} _ :=
    .call (.call hstarted (t := .mail) (p := ret .mail) ⟨.inl rfl, trivial⟩ .refl)
      (t := .worker) (p := ret .worker) ⟨.inl rfl, trivial⟩ .refl
  have hjobs : startedQuestion.2.1.jobs.rows.map Job.status = [.processing] := by decide +kernel
  have hnone : (JobStore.listQueued.run startedQuestion.2.1).1 = .ok [] := by decide +kernel
  have hfound : AllFound startedQuestion.2.1 := h {} _ rfl hdead fun t => by cases t <;> rfl
  obtain ⟨job, hrow, hstatus⟩ := List.map_eq_singleton_iff.1 hjobs
  obtain ⟨jobs, hquery, hmem⟩ := hfound job (by rw [hrow]; exact List.mem_singleton_self job) (by rw [hstatus]; decide)
  rw [hnone] at hquery
  cases hquery
  cases hmem

end

end GroupAssessmentAgent
