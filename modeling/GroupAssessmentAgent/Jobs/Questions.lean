import GroupAssessmentAgent.Jobs.Course

/-!
# Questions and the jobs that wait for an answer

The worker opens a question on a job and sets the job to NEEDS_CLARIFICATION; the reply closes the one and ends the
other. `InStep` says that the two tables agree. It holds between the calls of every sequence in which no waiting job is
cancelled (`inStep_unlessCancelled`): `cancel` ends the waiting, and leaves the question open.
-/

namespace GroupAssessmentAgent
open Prog

/-- The statements on the database, and the clock. -/
def Stmt.ofStore : Stmt → Bool
  | .readFile | .checkFile | .writeFile | .moveFile | .fetch | .markProcessed _ | .send _ | .ollama | .generate
  | .backend _ => false
  | _ => true

/-- The stores do not fail. The files, the mail provider, the model and the backends may. -/
def StoresHold : Env Stmt World Exc := ⟨fun _ _ => True, fun l _ e => l.ofStore = false ∧ e.kind ≠ .integrityError⟩

def HasQuestion (w : World) (jobId : Text) : Prop := (w.pendingClarifications.find? jobId).isSome = true

instance (w : World) (jobId : Text) : Decidable (HasQuestion w jobId) := inferInstanceAs (Decidable (_ = true))

/-- A question is open on the job exactly if the job waits for its answer. -/
def Agrees (w : World) (jobId : Text) : Prop := HasQuestion w jobId ↔ statusOf w jobId = some .needsClarification

def InStep (w : World) : Prop := ∀ jobId, Agrees w jobId

/-- The tables agree on all other jobs. -/
def InStepBut (jobId : Text) (w : World) : Prop := ∀ jobId', jobId' ≠ jobId → Agrees w jobId'

theorem inStep_of_but {w : World} {jobId : Text} (h : InStepBut jobId w) (hjob : Agrees w jobId) : InStep w := by
  intro jobId'
  by_cases hj : jobId' = jobId
  · rw [hj]
    exact hjob
  · exact h jobId' hj

theorem Agrees.congr {w w' : World} {jobId : Text} (h : Agrees w jobId)
    (hquestions : w'.pendingClarifications = w.pendingClarifications) (hstatus : statusOf w' jobId = statusOf w jobId) :
    Agrees w' jobId := by
  rw [Agrees, HasQuestion, hquestions, hstatus]
  exact h

theorem inStepBut_writeStatus {w : World} (h : InStep w) (jobId : Text) (new : JobState) (fields : List JobField) :
    InStepBut jobId (w.writeStatus jobId new fields) := by
  intro jobId' hj
  refine (h jobId').congr rfl ?_
  rw [statusOf_writeStatus, if_neg hj]

theorem inStep_writeStatus {w : World} (h : InStep w) {jobId : Text} {current new : JobState}
    (hcurrent : statusOf w jobId = some current) (hold : current ≠ .needsClarification)
    (hnew : new ≠ .needsClarification) (fields : List JobField) :
    InStep (w.writeStatus jobId new fields) ∧ statusOf (w.writeStatus jobId new fields) jobId = some new := by
  have hstatus : statusOf (w.writeStatus jobId new fields) jobId = some new := by
    rw [statusOf_writeStatus, if_pos rfl, hcurrent, Option.map_some]
  refine ⟨inStep_of_but (inStepBut_writeStatus h jobId new fields) ?_, hstatus⟩
  have hnone : ¬ HasQuestion w jobId := fun hq => hold (Option.some.inj (hcurrent.symm.trans ((h jobId).1 hq)))
  exact iff_of_false hnone fun hn => hnew (Option.some.inj (hstatus.symm.trans hn))

theorem inStep_insert {w : World} (h : InStep w) {row : Job} {t : Table Job.jobId} (hrow : row.status = .received)
    (hinsert : w.jobs.insert? row = some t) : InStep { w with jobs := t } := by
  intro jobId
  by_cases hj : row.jobId = jobId
  · have hfree : statusOf w jobId = none := by
      rw [statusOf, ← hj, (w.jobs.insert?_isSome row).1 (by rw [hinsert]; rfl)]
      rfl
    have hnone : ¬ HasQuestion w jobId := by
      intro hq
      have hwaits := (h jobId).1 hq
      rw [hfree] at hwaits
      cases hwaits
    refine iff_of_false hnone ?_
    rw [statusOf_insert hinsert, if_pos hj, hrow]
    exact fun h => by cases h
  · refine (h jobId).congr rfl ?_
    rw [statusOf_insert hinsert, if_neg hj]

/-! ### One call alone -/

/-- Nothing is recorded of the statements. -/
def unrecorded (_ : Stmt) (_ _ : World) (a : Unit) : Unit := a

/-- The judgement of a program that nobody disturbs, while the stores hold. -/
abbrev Alone {α : Type} (Q : Except Exc α → World × Unit → Prop) (p : M α) (c : World × Unit) : Prop :=
  RG (StoresHold.watched Unit) Eq (fun _ _ => True) Q (watch unrecorded p) c

/-- Quiet statements keep `P`. -/
def QuietClosed (P : World → Prop) : Prop := ∀ l f, Quiet l f → ∀ w, P w → P (f w)

theorem stable_eq (P : World × Unit → Prop) : Stable Eq P := by
  rintro c _ rfl
  exact id

theorem quietClosed_inStep : QuietClosed InStep :=
  fun _ _ hf w h jobId => (h jobId).congr (hf.questions w) (hf.status w jobId)

theorem QuietClosed.and_status {P : World → Prop} (hP : QuietClosed P) (jobId : Text) (S : Option JobState → Prop) :
    QuietClosed fun w => P w ∧ S (statusOf w jobId) := by
  refine fun l f hf w h => ⟨hP l f hf w h.1, ?_⟩
  rw [hf.status]
  exact h.2

theorem quiet_alone {P : World → Prop} (hP : QuietClosed P) {α : Type} {p : M α} (hp : Always Quiet p)
    {c : World × Unit}
    (hc : P c.1) : Alone (fun _ c => P c.1) p c := by
  have hmoves : Always (Moves unrecorded (fun c => P c.1) fun _ _ => True) p :=
    hp.mono fun l f hf c hc => ⟨hP l f hf c.1 hc, trivial⟩
  exact hmoves.moves (stable_eq _) hc

theorem Alone.ends {α : Type} {Q : Except Exc α → World × Unit → Prop} {p : M α} {w w' : World} {x : Except Exc α}
    (h : Alone Q p (w, ())) (hsteps : Steps StoresHold (p, w) (Prog.ofExcept x, w')) : Q x (w', ()) := by
  obtain ⟨a, hwatched⟩ := watch_steps (δ := unrecorded) hsteps ()
  rw [watch_ofExcept] at hwatched
  obtain ⟨hend, -⟩ := RG.steps (I := fun _ => True) Eq.refl (fun _ _ _ _ => trivial) h trivial hwatched
  cases x with
  | ok a => exact hend _ rfl
  | error e => exact hend _ rfl

theorem observe_alone {α : Type} (l : Stmt) (h : World → α) (c : World × Unit) :
    Alone (fun x c' => c' = c ∧ ∀ a, x = .ok a → a = h c.1) (observe l h) c := by
  rintro _ rfl
  refine ⟨fun _ => ⟨trivial, ?_⟩, fun e _ => ?_⟩
  · rintro _ rfl
    exact ⟨rfl, fun a ha => (Except.ok.inj ha).symm⟩
  · rintro _ rfl
    exact ⟨rfl, fun a ha => by cases ha⟩

theorem store_alone {l : Stmt} (hl : l.ofStore = true) {α : Type} {a : World → α} {f : World → World}
    {P D : World → Prop}
    (hf : ∀ w, P w → D (f w)) {c : World × Unit} (hc : P c.1) :
    Alone (Ends (fun c => D c.1) fun _ => False) (atomic l fun w => (.ok (a w), f w)) c := by
  rw [Alone, watch_atomic]
  refine rg_atomic (stable_eq fun c => P c.1) (fun _ => stable_eq _) (fun c hc _ => ⟨trivial, hf c.1 hc⟩)
    (fun c e _ he => ?_) hc
  have hfail : l.ofStore = false := he.1
  rw [hl] at hfail
  cases hfail

theorem change_alone {l : Stmt} (hl : l.ofStore = true) {f : World → World} {P D : World → Prop}
    (hf : ∀ w, P w → D (f w)) {c : World × Unit} (hc : P c.1) :
    Alone (Ends (fun c => D c.1) fun _ => False) (change l f) c :=
  store_alone (a := fun _ => ()) hl hf hc

theorem mail_alone (out : Outside) {P : World → Prop} (hP : QuietClosed P) (req : Request) (mail : Rendered)
    (jobId : Option Text) (paths : List Text) {c : World × Unit} (hc : P c.1) :
    Alone (Ends (fun c => P c.1) fun _ => False) (req.enqueue out mail jobId paths) c := by
  have htick : ∀ w, P w → P w.tick := hP _ _ (covers_quiet.tick)
  refine rg_watch_bind Eq.refl (M := Ends (fun c => P c.1) fun _ => False) ?_ (fun _ c hc => ?_) fun _ _ h => h
  · refine rg_watch_bind Eq.refl (M := Ends (fun c => P c.1) fun _ => False) (store_alone rfl htick hc)
      (fun createdAt c hc => ?_) fun _ _ h => h
    exact store_alone rfl (hP _ _ (covers_quiet.outbox _ (fun _ => rfl) fun _ => trivial)) hc
  · exact rg_ret (fun _ => stable_eq _) hc

/-- What an UPDATE of the status leaves, from a world in `P`. -/
def Written (P : World → Prop) (jobId : Text) (new : JobState) (w' : World) : Prop :=
  ∃ w current fields, P w ∧ statusOf w jobId = some current ∧ (new = current ∨ new ∈ current.allowedTransitions) ∧
    w' = w.writeStatus jobId new fields

theorem setStatus_alone (out : Outside) {P : World → Prop} (hP : QuietClosed P) (jobId : Text) (new : JobState)
    (extra : List JobField) {c : World × Unit} (hc : P c.1) :
    Alone (Ends (fun c => Written P jobId new c.1) fun c => P c.1) (JobStore.setStatus out jobId new extra) c := by
  have htick : ∀ s,
      Moves unrecorded (fun c => P c.1 ∧ statusOf c.1 jobId = some s) (fun _ _ => True) .clock World.tick :=
    fun s c hc => ⟨(hP.and_status jobId (· = some s)) _ _ covers_quiet.tick c.1 hc, trivial⟩
  exact setStatus_rg (K := fun s c => P c.1 ∧ statusOf c.1 jobId = some s) out extra Eq.refl (stable_eq _)
    (fun _ => stable_eq _) (stable_eq _) (fun _ _ h => h.1) (fun c hc => ⟨trivial, hc, fun _ h => ⟨hc, h⟩⟩) htick
    (fun current fields hnew _ c hc => ⟨trivial, c.1, current, fields, hc.1, hc.2, hnew, rfl⟩) hc

/-- What is known of the job that a call is at work on. -/
def KnownIn : LastStatus → World → Prop
  | none, w => InStep w
  | some last, w => InStep w ∧ statusOf w last.1 = some last.2

theorem knownIn_inStep (last : LastStatus) (w : World) (h : KnownIn last w) : InStep w := by
  cases last with
  | none => exact h
  | some last => exact h.1

theorem quietClosed_knownIn (last : LastStatus) : QuietClosed (KnownIn last) := by
  cases last with
  | none => exact quietClosed_inStep
  | some last => exact quietClosed_inStep.and_status last.1 (· = some last.2)

/-- The job is in `s`, and the tables agree on all others. -/
def MovedTo (jobId : Text) (s : JobState) (w : World) : Prop := InStepBut jobId w ∧ statusOf w jobId = some s

theorem quietClosed_movedTo (jobId : Text) (s : JobState) : QuietClosed (MovedTo jobId s) :=
  fun _ _ hf w h => ⟨fun jobId' hj => (h.1 jobId' hj).congr (hf.questions w) (hf.status w jobId'),
    (hf.status w jobId).trans h.2⟩

theorem Written.movedTo {P : World → Prop} {jobId : Text} {new : JobState} {w : World} (h : Written P jobId new w)
    (hin : ∀ w, P w → InStep w) : MovedTo jobId new w := by
  obtain ⟨w, current, fields, hw, hcurrent, -, rfl⟩ := h
  refine ⟨inStepBut_writeStatus (hin w hw) _ _ _, ?_⟩
  rw [statusOf_writeStatus, if_pos rfl, hcurrent, Option.map_some]

theorem inStep_put {jobId : Text} {w : World} (h : MovedTo jobId .needsClarification w) (row : PendingClarification)
    (hrow : row.jobId = jobId) :
    InStep { w with pendingClarifications := w.pendingClarifications.upsert row } := by
  have hfind := Table.find?_upsert w.pendingClarifications row
  refine inStep_of_but (fun jobId' (hj : jobId' ≠ jobId) => ?_) ?_
  · rw [Agrees, HasQuestion, hfind, hrow, if_neg (Ne.symm hj)]
    exact h.1 jobId' hj
  · rw [Agrees, HasQuestion, hfind, if_pos hrow]
    exact iff_of_true rfl h.2

theorem inStep_delete {jobId : Text} {s : JobState} {w : World} (h : MovedTo jobId s w) (hs : s ≠ .needsClarification) :
    InStep { w with pendingClarifications := w.pendingClarifications.erase jobId } := by
  have hfind := Table.find?_erase w.pendingClarifications jobId
  refine inStep_of_but (fun jobId' (hj : jobId' ≠ jobId) => ?_) ?_
  · rw [Agrees, HasQuestion, hfind, if_neg hj]
    exact h.1 jobId' hj
  · rw [Agrees, HasQuestion, hfind, if_pos rfl]
    exact iff_of_false nofun fun hwaits => hs (Option.some.inj (h.2.symm.trans hwaits))

theorem moved_alone (out : Outside) {P : World → Prop} (hP : QuietClosed P) (hin : ∀ w, P w → InStep w) {jobId : Text}
    {new : JobState} (hnew : new ≠ .needsClarification)
    (hold : ∀ w current, P w → statusOf w jobId = some current →
      (new = current ∨ new ∈ current.allowedTransitions) → current ≠ .needsClarification)
    (extra : List JobField) {c : World × Unit} (hc : P c.1) :
    Alone (Ends (fun c => KnownIn (some (jobId, new)) c.1) fun c => P c.1)
      (JobStore.setStatus out jobId new extra) c := by
  refine (setStatus_alone out hP jobId new extra hc).mono (fun _ _ h => h) fun x c hc => ?_
  cases x with
  | error e => exact hc
  | ok _ =>
    obtain ⟨w, current, fields, hw, hcurrent, hallowed, hc⟩ := hc
    show KnownIn (some (jobId, new)) c.1
    rw [hc]
    exact inStep_writeStatus (hin w hw) hcurrent (hold w current hw hcurrent hallowed) hnew fields

section
variable (out : Outside)

theorem put_alone (jobId question expectedField : Text) (options : List Text) {c : World × Unit}
    (hc : MovedTo jobId .needsClarification c.1) :
    Alone (Ends (fun c => KnownIn (some (jobId, .needsClarification)) c.1) fun _ => False)
      (PendingClarificationStore.put out jobId question expectedField options) c := by
  have htick : ∀ w, MovedTo jobId .needsClarification w → MovedTo jobId .needsClarification w.tick :=
    quietClosed_movedTo jobId _ _ _ covers_quiet.tick
  refine rg_watch_bind Eq.refl (M := Ends (fun c => MovedTo jobId .needsClarification c.1) fun _ => False)
    (store_alone rfl htick hc) (fun createdAt c hc => ?_) fun _ _ h => h
  exact change_alone (P := MovedTo jobId .needsClarification) rfl
    (fun w hw => ⟨inStep_put hw ⟨jobId, question, expectedField, options, createdAt⟩ rfl, hw.2⟩) hc

theorem ask_alone (job : Job) (groups : List GroupSummary) (subject : Text) {c : World × Unit}
    (hc : KnownIn (some (job.jobId, .processing)) c.1) :
    Alone (Ends (fun c => KnownIn (some (job.jobId, .needsClarification)) c.1)
      fun c => KnownIn (some (job.jobId, .processing)) c.1) (askForGroup out job groups subject) c := by
  have hclosed := quietClosed_knownIn (some (job.jobId, .needsClarification))
  refine rg_watch_bind Eq.refl (setStatus_alone out (quietClosed_knownIn _) _ _ _ hc) (fun _ c hc => ?_) fun _ _ h => h
  refine rg_watch_bind Eq.refl (put_alone out job.jobId _ _ _ (hc.movedTo fun _ h => h.1)) (fun _ c hc => ?_)
    fun _ _ h => h.elim
  refine (mail_alone out hclosed _ _ _ _ hc).mono (fun _ _ h => h) fun x c hc => ?_
  cases x with
  | ok _ => exact hc
  | error e => exact hc.elim

variable [PyChars]

theorem question_course : JobCourse out unrecorded StoresHold Eq (fun _ _ => True) (fun last c => KnownIn last c.1)
    (fun jobId c => InStep c.1 ∧ statusOf c.1 jobId ≠ some .needsClarification) fun c => InStep c.1 where
  refl := Eq.refl
  stable _ := stable_eq _
  stable_left := stable_eq _
  quiet last l f hf c hc := ⟨quietClosed_knownIn last l f hf c.1 hc, trivial⟩
  unique _ _ _ h := h.2
  insert source row t c hreceived hinsert hc := by
    refine ⟨⟨inStep_insert hc hreceived hinsert, ?_⟩, trivial⟩
    exact (statusOf_insert hinsert row.jobId).trans (by rw [if_pos rfl, hreceived])
  refused _ _ hc := ⟨hc, trivial⟩
  start jobId c hc := by
    refine moved_alone out quietClosed_inStep (fun _ h => h) (by decide) (fun w current _ _ hallowed => ?_) [] hc
    rintro rfl
    exact absurd hallowed (by decide)
  move jobId s new extra c hs hnew hc := by
    refine moved_alone out (quietClosed_knownIn (some (jobId, s))) (knownIn_inStep _) hnew
      (fun w current hw hcurrent _ => ?_)
      extra hc
    rwa [Option.some.inj (hcurrent.symm.trans hw.2)]
  ask job groups subject c hc := by
    refine (ask_alone out job groups subject hc).mono (fun _ _ h => h) fun x c hc => ?_
    cases x with
    | ok _ => exact hc
    | error e => exact ⟨hc.1, by rw [hc.2]; exact nofun⟩
  fail jobId extra c hc := by
    have hclosed := quietClosed_inStep.and_status jobId (· ≠ some .needsClarification)
    refine (moved_alone out hclosed (fun _ h => h.1) (by decide)
      (fun w current hw hcurrent _ hwaits => ?_) extra hc).mono
      (fun _ _ h => h) fun x c hc => ?_
    · rw [hwaits] at hcurrent
      exact hw.2 hcurrent
    · cases x with
      | ok _ => exact hc
      | error e => exact hc.1
  torn jobId s c hs hc := ⟨hc.1, fun h => hs (Option.some.inj (hc.2.symm.trans h))⟩
  left last c := knownIn_inStep last c.1

/-! ### The other calls -/

/-- The sender's job that a command names. -/
def namedIn (w : World) (cmd : ValidatedCommand) (req : Request) : Option Job :=
  cmd.jobId.bind fun jobId => JobStore.findOwned w jobId req.senderEmail

theorem statusOf_owned {w : World} {jobId senderEmail : Text} {job : Job}
    (h : JobStore.findOwned w jobId senderEmail = some job) : statusOf w jobId = some job.status := by
  rw [statusOf, (Option.filter_eq_some_iff.1 h).1, Option.map_some]

theorem ownedJob_alone (cmd : ValidatedCommand) (req : Request) (c : World × Unit) :
    Alone (fun x c' => c' = c ∧ ∀ job, x = .ok job → namedIn c.1 cmd req = some job) (ownedJob cmd req) c := by
  have hnamed : Alone (fun x c' => c' = c ∧ ∀ job, x = .ok job → job = namedIn c.1 cmd req) (namedJob cmd req) c := by
    unfold namedJob namedIn
    cases cmd.jobId with
    | none => exact rg_ret (fun _ => stable_eq _) ⟨rfl, fun job h => (Except.ok.inj h).symm⟩
    | some jobId => exact observe_alone .selectJobs (fun w => JobStore.findOwned w jobId req.senderEmail) c
  refine rg_watch_bind Eq.refl hnamed (fun job c' hc' => ?_) fun _ _ h => ⟨h.1, fun job h => by cases h⟩
  have hjob := hc'.2 job rfl
  cases job with
  | none => exact rg_raise (fun _ => stable_eq _) ⟨hc'.1, fun job h => by cases h⟩
  | some job =>
    refine rg_ret (fun _ => stable_eq _) ⟨hc'.1, fun job' h => ?_⟩
    rw [← hjob, Except.ok.inj h]

theorem cancel_alone (cmd : ValidatedCommand) (req : Request) {c : World × Unit} (hc : InStep c.1)
    (hnamed : ∀ job, namedIn c.1 cmd req = some job → job.status ≠ .needsClarification) :
    Alone (fun _ c => InStep c.1) (CancelHandler.handle out cmd req) c := by
  have hreply : ∀ mail jobId outcome c, InStep c.1 → Alone (fun _ c => InStep c.1)
      ((req.enqueue out mail jobId []).bind fun _ => ret (outcome : HandlerOutcome)) c := by
    intro mail jobId outcome c hc
    refine quiet_alone quietClosed_inStep ?_ hc
    exact (enqueue_quiet out req _ _ _).bind fun _ => trivial
  refine rg_watch_bind Eq.refl (ownedJob_alone cmd req c) (fun job c' hc' => ?_) fun _ c' hc' => hc'.1 ▸ hc
  obtain ⟨rfl, hjob⟩ := hc'
  have hjob := hjob job rfl
  split_ifs
  · have hclosed := quietClosed_inStep.and_status job.jobId (· ≠ some .needsClarification)
    obtain ⟨jobId, -, howned⟩ := Option.bind_eq_some_iff.1 hjob
    have hstatus : statusOf c'.1 job.jobId = some job.status := by
      rw [JobStore.findOwned_jobId howned]
      exact statusOf_owned howned
    have hquiet : statusOf c'.1 job.jobId ≠ some .needsClarification := by
      rw [hstatus]
      exact fun h => hnamed job hjob (Option.some.inj h)
    refine rg_watch_bind Eq.refl (moved_alone out hclosed (fun _ h => h.1) (by decide)
      (fun w current hw hcurrent _ hwaits => ?_) [] ⟨hc, hquiet⟩) (fun _ c hc => hreply _ _ _ c hc.1) fun _ _ h => h.1
    rw [hwaits] at hcurrent
    exact hw.2 hcurrent
  · exact hreply _ _ _ c' hc

theorem applyClarification_alone (msg : EmailMessage) (senderEmail jobId selected : Text) {c : World × Unit}
    (hc : InStep c.1) :
    Alone (fun _ c => InStep c.1)
      (EmailProcessingPipeline.applyClarification out msg senderEmail jobId selected) c := by
  have hclosed := quietClosed_knownIn (some (jobId, .needsClarification))
  have hread := observe_alone .selectJobs (fun w => JobStore.findOwned w jobId senderEmail) c
  refine rg_watch_bind Eq.refl hread (fun job c' hc' => ?_) fun _ c' hc' => hc'.1 ▸ hc
  obtain ⟨rfl, hjob⟩ := hc'
  have hjob := hjob job rfl
  split_ifs with hstatus
  · exact rg_ret (fun _ => stable_eq _) hc
  · have hwaits : KnownIn (some (jobId, .needsClarification)) c'.1 := by
      refine ⟨hc, ?_⟩
      obtain ⟨j, rfl, hj⟩ := Option.map_eq_some_iff.1 (not_not.1 hstatus)
      rw [statusOf_owned hjob.symm, hj]
    refine rg_watch_bind Eq.refl (quiet_alone hclosed (update_quiet _ _) hwaits) (fun _ c hc => ?_) fun _ _ h => h.1
    refine rg_watch_bind Eq.refl (setStatus_alone out hclosed jobId .queued [] hc) (fun _ c hc => ?_) fun _ _ h => h.1
    have hdelete : Alone (Ends (fun c => InStep c.1) fun _ => False) (PendingClarificationStore.delete jobId) c :=
      change_alone (P := MovedTo jobId .queued) rfl (fun w hw => inStep_delete hw (by decide))
        (hc.movedTo fun _ h => h.1)
    refine rg_watch_bind Eq.refl hdelete (fun _ c hc => ?_) fun _ _ h => h.elim
    refine quiet_alone quietClosed_inStep ?_ hc
    exact replyAndConclude_always covers_quiet out coversMarks_quiet msg trivial _ _ _ _ _ _ fun _ _ _ => trivial

theorem continueClarification_alone (msg : EmailMessage) (senderEmail jobId : Text) {c : World × Unit}
    (hc : InStep c.1) :
    Alone (fun _ c => InStep c.1) (EmailProcessingPipeline.continueClarification out msg senderEmail jobId) c := by
  have hget : Always Quiet (PendingClarificationStore.get jobId) := always_observe (covers_quiet.look _ rfl) _
  refine rg_watch_bind Eq.refl (quiet_alone quietClosed_inStep hget hc) (fun pending c hc => ?_) fun _ _ h => h
  cases pending with
  | none => exact rg_ret (fun _ => stable_eq _) hc
  | some pending =>
    simp only
    split
    · exact applyClarification_alone out msg senderEmail jobId _ hc
    · refine quiet_alone quietClosed_inStep ?_ hc
      exact replyAndConclude_always covers_quiet out coversMarks_quiet msg trivial _ _ _ _ _ _ fun _ _ _ => trivial

theorem continueClarification_untouched (msg : EmailMessage) (senderEmail : Text) {jobId : Text} {w : World}
    (hnone : ¬ HasQuestion w jobId) {x : Except Exc Bool} {w' : World}
    (hsteps : Steps StoresHold (EmailProcessingPipeline.continueClarification out msg senderEmail jobId, w)
      (Prog.ofExcept x, w')) : x = .ok false ∧ w' = w := by
  have hfind : w.pendingClarifications.find? jobId = none := Option.not_isSome_iff_eq_none.1 hnone
  have hread : Alone (fun x c => x = .ok none ∧ c.1 = w) (PendingClarificationStore.get jobId) (w, ()) := by
    rw [Alone, PendingClarificationStore.get, watch_observe]
    refine rg_atomic (P := fun c => c.1 = w) (stable_eq _) (fun _ => stable_eq _) (fun c hc _ => ⟨trivial, ?_, hc⟩)
      (fun c e _ he => by cases he.1) rfl
    rw [hc, hfind]
  have hjudge : Alone (fun x c => x = .ok false ∧ c.1 = w)
      (EmailProcessingPipeline.continueClarification out msg senderEmail jobId) (w, ()) := by
    refine rg_watch_bind Eq.refl hread (fun pending c hc => ?_) fun e c hc => by cases hc.1
    rw [Except.ok.inj hc.1]
    exact rg_ret (fun _ => stable_eq _) ⟨rfl, hc.2⟩
  exact hjudge.ends hsteps

/-! ### Sequences of calls -/

/-- The calls that this is about. The worker has listed the job at some time before. -/
inductive JobCall where
  | submitAccept (cmd : ValidatedCommand) (req : Request) (storage : StorageSettings) (attachments : List Attachment)
      (userId : Nat) (sourceMessageId : Text) (receivedAt : Datetime)
  | assessAccept (cmd : ValidatedCommand) (req : Request) (userId : Nat) (sourceMessageId : Text)
  | process (worker : JobWorker) (job : Job)
  | continueClarification (msg : EmailMessage) (senderEmail jobId : Text)
  | cancel (cmd : ValidatedCommand) (req : Request)

def JobCall.prog : JobCall → M Unit
  | submitAccept cmd req storage attachments userId sourceMessageId receivedAt => do
    let _ ← SubmitTranscript.accept out cmd req storage attachments userId sourceMessageId receivedAt
  | assessAccept cmd req userId sourceMessageId => do
    let _ ← AssessQuery.accept out cmd req userId sourceMessageId
  | process worker job => worker.processJob out job
  | continueClarification msg senderEmail jobId => do
    let _ ← EmailProcessingPipeline.continueClarification out msg senderEmail jobId
  | cancel cmd req => do
    let _ ← CancelHandler.handle out cmd req

/-- The call cancels no job that waits for an answer. -/
def JobCall.KeepsWaiting (w : World) : JobCall → Prop
  | cancel cmd req => ∀ job, namedIn w cmd req = some job → job.status ≠ .needsClarification
  | _ => True

/-- The world after a sequence of calls, each of which comes to its end, and starts where `ok` allows it. -/
inductive CallRun (ok : World → JobCall → Prop) (w₀ : World) : World → Prop
  | start : CallRun ok w₀ w₀
  | call {w call x w'} : CallRun ok w₀ w → ok w call → Steps StoresHold (call.prog out, w) (Prog.ofExcept x, w') →
      CallRun ok w₀ w'

theorem jobCall_alone (call : JobCall) {w : World} (hw : InStep w) (hcall : call.KeepsWaiting w) :
    Alone (fun _ c => InStep c.1) (call.prog out) (w, ()) := by
  have H := question_course out
  have hends : ∀ {α : Type} (x : Except Exc α) (c : World × Unit),
      Ends (Finished fun last c => KnownIn last c.1) (fun c => InStep c.1) x c → InStep c.1 := by
    intro α x c h
    cases x with
    | ok _ =>
      obtain ⟨jobId, s, -, hc⟩ := h
      exact hc.1
    | error e => exact h
  have hdone : ∀ {α : Type} {p : M α}, Alone (fun _ c => InStep c.1) p (w, ()) →
      Alone (fun _ c => InStep c.1) (p.bind fun _ => ret ()) (w, ()) := fun hp =>
    rg_watch_bind Eq.refl hp (fun _ c hc => rg_ret (fun _ => stable_eq _) hc) fun _ _ h => h
  cases call with
  | submitAccept cmd req storage attachments userId source receivedAt =>
    have haccept := H.submitAccept_course cmd req storage attachments userId source receivedAt (c := (w, ())) hw
    exact hdone (haccept.mono (fun _ _ h => h) hends)
  | assessAccept cmd req userId source =>
    exact hdone ((H.assessAccept_course cmd req userId source (c := (w, ())) hw).mono (fun _ _ h => h) hends)
  | process worker job =>
    refine rg_watch_tryCatch Eq.refl (M := fun _ c => InStep c.1) ?_ (fun _ _ h => h) fun _ c hc =>
      rg_ret (fun _ => stable_eq _) hc
    unfold JobWorker.executeJob
    split_ifs
    · exact (H.submitExecute_course worker job (c := (w, ())) hw).mono (fun _ _ h => h) hends
    · exact (H.assessExecute_course worker job (c := (w, ())) hw).mono (fun _ _ h => h) hends
    · exact rg_ret (fun _ => stable_eq _) hw
  | continueClarification msg senderEmail jobId =>
    exact hdone (continueClarification_alone out msg senderEmail jobId hw)
  | cancel cmd req => exact hdone (cancel_alone out cmd req hw hcall)

theorem callRun_inStep {w₀ w : World} (hstart : InStep w₀)
    (hrun : CallRun out (fun w call => call.KeepsWaiting w) w₀ w) :
    InStep w := by
  induction hrun with
  | start => exact hstart
  | call _ hcall hsteps ih => exact (jobCall_alone out _ ih hcall).ends hsteps

/-- A message on the thread of a job that does not wait is no answer, and is not asked the question again: nothing
happens, and it is handled as any other message. -/
def AnswersOnlyWaiting (w : World) : Prop :=
  ∀ msg senderEmail jobId, statusOf w jobId ≠ some .needsClarification → ∀ x w',
    Steps StoresHold (EmailProcessingPipeline.continueClarification out msg senderEmail jobId, w)
      (Prog.ofExcept x, w') →
      x = .ok false ∧ w' = w

/-- After each of the calls, a question is open on a job exactly if the job waits for its answer. -/
def QuestionsInStep (ok : World → JobCall → Prop) : Prop :=
  ∀ w₀ w, w₀.jobs.rows = [] → w₀.pendingClarifications.rows = [] → CallRun out ok w₀ w →
    InStep w ∧ AnswersOnlyWaiting out w

/-- **While no waiting job is cancelled, a question is open on a job exactly if the job waits for its answer**, and only
then is a message on its thread an answer. -/
theorem inStep_unlessCancelled : QuestionsInStep out fun w call => call.KeepsWaiting w := by
  intro w₀ w hjobs hnone hrun
  have hstart : InStep w₀ := by
    intro jobId
    rw [Agrees, HasQuestion, statusOf, Table.find?, Table.find?, hjobs, hnone]
    exact iff_of_false Bool.false_ne_true fun h => by cases h
  have hin := callRun_inStep out hstart hrun
  refine ⟨hin, fun msg senderEmail jobId hquiet x w' hsteps => ?_⟩
  exact continueClarification_untouched out msg senderEmail (fun hq => hquiet ((hin jobId).1 hq)) hsteps

/-- The world after some calls, in which nothing fails. -/
def runCalls (w : World) (calls : List JobCall) : World := calls.foldl (fun w call => ((call.prog out).run w).2) w

theorem callRun_runCalls (w₀ : World) (calls : List JobCall) :
    CallRun out (fun _ _ => True) w₀ (runCalls out w₀ calls) := by
  induction calls using List.reverseRecOn with
  | nil => exact .start
  | append_singleton calls call ih =>
    rw [runCalls, List.foldl_append]
    exact .call ih trivial (steps_run _ (fun _ _ => trivial) _ _)

end

/-! ### A question that nobody waits for -/

section
attribute [local instance] asciiChars

/-- The owner of two groups asks a question. -/
def acceptTests : JobCall := .assessAccept testsQuestion aliceRequest 12 "<1@uni.ac.uk>"

/-- The worker cannot tell which group it is about. -/
def processTests : JobCall := .process (smallWorker [⟨7, "Team A"⟩, ⟨8, "Team B"⟩]) questionJob

/-- Then she cancels the job. -/
def cancelTests : JobCall := .cancel { operation := .cancel, jobId := some questionJob.jobId } aliceRequest

/-- The worker's question is open, and its job waits. -/
theorem question_waits : ∃ w, CallRun .plain (fun w call => call.KeepsWaiting w) {} w ∧ InStep w ∧
    HasQuestion w questionJob.jobId := by
  have haccept : acceptTests.KeepsWaiting {} := trivial
  have hprocess : processTests.KeepsWaiting (runCalls .plain {} [acceptTests]) := trivial
  have hrun : CallRun .plain (fun w call => call.KeepsWaiting w) {} (runCalls .plain {} [acceptTests, processTests]) :=
    .call (.call .start haccept (steps_run _ (fun _ _ => trivial) _ _)) hprocess (steps_run _ (fun _ _ => trivial) _ _)
  exact ⟨_, hrun, (inStep_unlessCancelled .plain _ _ rfl rfl hrun).1, by decide +kernel⟩

/-- The job is cancelled, and its question stays open. -/
theorem question_left_open : ¬ QuestionsInStep .plain fun _ _ => True := by
  intro h
  have hrun := callRun_runCalls .plain {} [acceptTests, processTests, cancelTests]
  have hin := (h {} _ rfl rfl hrun).1 questionJob.jobId
  have hquestion : HasQuestion (runCalls .plain {} [acceptTests, processTests, cancelTests]) questionJob.jobId := by
    decide +kernel
  exact absurd (hin.1 hquestion) (by decide +kernel)

end

end GroupAssessmentAgent
