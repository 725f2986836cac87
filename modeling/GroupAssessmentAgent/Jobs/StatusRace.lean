import GroupAssessmentAgent.Jobs.Effects

/-!
# Status changes under two threads

`set_status` reads the status in one statement and writes the new one in another. `StatusStep` says what its statements
can do: nothing to the statuses, or the UPDATE of a status that was allowed from the status *read before*.
Whether that is still the status stored is up to the other thread.

`StaysLawful E` says of the runs of the mail thread and the worker under `E` that every change of a stored status
is an allowed one, and that a terminal status stays. It holds of the runs in which no UPDATE comes too late
(`FreshWrites`), and fails for two threads that are free to interleave.
-/

namespace GroupAssessmentAgent
open Prog

inductive Thread where
  | mail | worker
  deriving DecidableEq, Repr

def Thread.other : Thread → Thread
  | .mail => .worker
  | .worker => .mail

def statusOf (w : World) (jobId : Text) : Option JobState := (w.jobs.find? jobId).map Job.status

/-- No status changes but to itself or to one that `ALLOWED_TRANSITIONS` lists. -/
def Lawful (w w' : World) : Prop :=
  ∀ jobId s, statusOf w jobId = some s → ∃ s', statusOf w' jobId = some s' ∧ (s' = s ∨ s' ∈ s.allowedTransitions)

/-- What else happens to the database: new jobs, other columns, other tables. -/
def SameStatuses (w w' : World) : Prop := ∀ jobId s, statusOf w jobId = some s → statusOf w' jobId = some s

theorem SameStatuses.lawful {w w' : World} (h : SameStatuses w w') : Lawful w w' :=
  fun jobId s hs => ⟨s, h jobId s hs, .inl rfl⟩

theorem SameStatuses.of_jobs {w w' : World} (h : w'.jobs = w.jobs) : SameStatuses w w' := by
  intro jobId s hs
  rw [statusOf, h]
  exact hs

/-! ### What the statements do -/

/-- A step that leaves the statuses alone, or the UPDATE of a status that is allowed from `current`. -/
def StatusStep (l : Stmt) (f : World → World) : Prop :=
  (∀ w, SameStatuses w (f w)) ∨
    ∃ jobId current new fields, l = .updateStatus jobId current new ∧
      (new = current ∨ new ∈ current.allowedTransitions) ∧ f = fun w => w.writeStatus jobId new fields

theorem statusOf_writeJob (w : World) (jobId : Text) (fields : List JobField) (jobId' : Text) :
    statusOf (w.writeJob jobId fields) jobId' = statusOf w jobId' := by
  simp only [statusOf, World.writeJob, World.modifyJob, Table.find?_modify]
  split_ifs
  · cases w.jobs.find? jobId' <;> simp
  · rfl

theorem covers_statusStep : Covers StatusStep (fun _ => True) fun _ => True where
  look _ _ := .inl fun _ => .of_jobs rfl
  ask _ := .inl fun _ => .of_jobs rfl
  tick := .inl fun _ => .of_jobs rfl
  job jobId fields _ := .inl fun w jobId' s hs => (statusOf_writeJob w jobId fields jobId').trans hs
  status jobId current new fields _ hnew := .inr ⟨jobId, current, new, fields, rfl, hnew, rfl⟩
  outbox _ _ _ := .inl fun _ => .of_jobs rfl
  put _ _ := .inl fun _ => .of_jobs rfl
  delete _ _ := .inl fun _ => .of_jobs rfl
  alert _ := .inl fun _ => .of_jobs rfl
  files _ f _ hf := by
    refine .inl fun w => ?_
    obtain ⟨t, n, h⟩ := hf w
    rw [h]
    exact .of_jobs rfl

theorem statusOf_writeStatus (w : World) (jobId : Text) (new : JobState) (fields : List JobField) (jobId' : Text) :
    statusOf (w.writeStatus jobId new fields) jobId' =
      if jobId' = jobId then (statusOf w jobId').map fun _ => new else statusOf w jobId' := by
  simp only [statusOf, World.writeStatus, World.modifyJob, Table.find?_modify]
  split_ifs
  · cases w.jobs.find? jobId' <;> simp
  · rfl

/-! ### Runs -/

/-- The programs of both threads: calls of `set_status`, on any job, to any status, with any further columns. -/
def SetStatusCall (out : Outside) (_ : Thread) (p : M Unit) (_ : World) : Prop :=
  ∃ jobId new extra, p = JobStore.setStatus out jobId new extra

/-- A run of both threads, from no call in progress. -/
def StatusRun (out : Outside) (E : Env Stmt World Exc) (w : World) (c : (Thread → M Unit) × World) : Prop :=
  PoolSteps E SameStatuses (SetStatusCall out) (fun _ => ret (), w) c

/-- In every run, every step is lawful, and terminal statuses stay. -/
def StaysLawful (out : Outside) (E : Env Stmt World Exc) : Prop :=
  ∀ w c, StatusRun out E w c →
    (∀ c', PoolStep E SameStatuses (SetStatusCall out) c c' → Lawful c.2 c'.2) ∧
      ∀ c', PoolSteps E SameStatuses (SetStatusCall out) c c' → ∀ jobId s, statusOf c.2 jobId = some s →
        s.Terminal → statusOf c'.2 jobId = some s

/-- Each UPDATE of a status finds the status that the SELECT of its call has read. -/
def FreshWrites : Env Stmt World Exc where
  allowed l w := ∀ jobId current new, l = .updateStatus jobId current new → statusOf w jobId = some current
  fault _ _ _ := True

theorem StatusStep.lawful {l : Stmt} {f : World → World} (h : StatusStep l f) {w : World}
    (hallow : FreshWrites.allowed l w) : Lawful w (f w) := by
  rcases h with hsame | ⟨jobId, current, new, fields, rfl, hnew, rfl⟩
  · exact (hsame w).lawful
  · have hcurrent : statusOf w jobId = some current := hallow jobId current new rfl
    intro jobId' s hs
    rw [statusOf_writeStatus]
    by_cases hj : jobId' = jobId
    · subst hj
      obtain rfl : current = s := Option.some.inj (hcurrent.symm.trans hs)
      exact ⟨new, by simp [hs], hnew⟩
    · exact ⟨s, by simp [hj, hs], .inl rfl⟩

theorem lawful_terminal {w w' : World} (h : Lawful w w') {jobId : Text} {s : JobState}
    (hs : statusOf w jobId = some s) (hterm : s.Terminal) : statusOf w' jobId = some s := by
  obtain ⟨s', hs', hnew⟩ := h jobId s hs
  rw [(JobState.terminal_iff s).1 hterm] at hnew
  rw [hs', hnew.resolve_right List.not_mem_nil]

section
variable {out : Outside}

/-- A call of `set_status` whose UPDATE is fresh is lawful, whatever the other thread does. -/
theorem setStatus_spec : PoolSpec FreshWrites SameStatuses (SetStatusCall out) (fun _ _ _ => True) (fun _ => Lawful)
    (fun _ _ => True) where
  refl _ _ := trivial
  trans _ _ _ _ _ _ := trivial
  others _ _ _ _ _ _ := trivial
  around _ _ _ _ := trivial
  called := by
    rintro t p w ⟨jobId, new, extra, rfl⟩
    exact (setStatus_always covers_statusStep out trivial new extra).rg (fun l f hf s hallow => hf.lawful hallow) w

/-- **Fresh writes keep the statuses lawful**: if no UPDATE comes after another thread has changed what its call
has read, every status change is an allowed one, and terminal statuses stay. -/
theorem staysLawful_freshWrites (out : Outside) : StaysLawful out FreshWrites := by
  intro w c hrun
  have hok := setStatus_spec.ok hrun fun _ _ _ => trivial
  refine ⟨fun c' hstep => ?_, fun c' hsteps jobId s hs hterm => ?_⟩
  · obtain ⟨_, ⟨_, hlawful⟩ | hsame | heq⟩ := setStatus_spec.step hstep hok
    · exact hlawful
    · exact hsame.lawful
    · exact (SameStatuses.of_jobs (congrArg World.jobs heq)).lawful
  · exact setStatus_spec.inv (I := fun w => statusOf w jobId = some s)
      (fun _ _ _ hlawful h => lawful_terminal hlawful h hterm) (fun _ _ hsame h => hsame jobId s h) hsteps hok hs

end

/-- A queued job. -/
def queuedJob : Job :=
  { jobId := "DIAR-2026-0811-0001", senderEmail := "alice@uni.ac.uk", backendUserId := 12, sourceMessageId := "<1@uni>",
    operation := "submit_transcript", status := .queued, createdAt := 0 }

def queuedWorld : World := { jobs := ⟨[queuedJob], List.nodup_singleton _⟩ }

/-- The worker has read that the job is queued, the mail thread cancels it, and the worker writes PROCESSING over
CANCELLED. -/
theorem cancelled_job_processed : ¬ StaysLawful .plain Env.calm := by
  intro h
  let worker : M Unit := JobStore.setStatus .plain queuedJob.jobId .processing []
  let cancel : M Unit := JobStore.setStatus .plain queuedJob.jobId .cancelled []
  let read := follow [none] (worker, queuedWorld)
  let c₁ : Thread → M Unit := Function.update (fun _ => ret ()) .worker read.1
  let cancelled := follow [none, none, none] (cancel, read.2)
  let c₂ := Function.update c₁ .mail cancelled.1
  have hsteps : ∀ n (c : M Unit × World), Steps Env.calm c (follow (List.replicate n none) c) :=
    steps_follow_none fun _ _ => trivial
  have hread : StatusRun .plain Env.calm queuedWorld (c₁, read.2) := .call .refl ⟨_, _, _, rfl⟩ (hsteps 1 _)
  have hcancel : StatusRun .plain Env.calm queuedWorld (c₂, cancelled.2) := hread.call ⟨_, _, _, rfl⟩ (hsteps 3 _)
  have hwrite := (h _ _ hcancel).2 _ (Steps.pool (hsteps 2 (c₂ .worker, cancelled.2))) queuedJob.jobId .cancelled
    (by decide) (by decide)
  exact absurd hwrite (by decide)

end GroupAssessmentAgent
