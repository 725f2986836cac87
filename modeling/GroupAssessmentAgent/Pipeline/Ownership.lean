import GroupAssessmentAgent.Commands.JobReference
import GroupAssessmentAgent.Pipeline.Frame

/-!
# Whose jobs a command touches

The pipeline validates what the model made of a message, dispatches it, and replies to a refusal. Whatever the command
is, the jobs of other senders stay as they are, and each new mail goes to the sender, with no attachment but the stored
file of one of the sender's own jobs (`Confined`, `command_confined`). The reads decide: `get_owned` finds only the
sender's jobs, and `create_job` takes a free id and writes the sender's address. From there on the handlers write the
row of the one id they hold, which is no foreign one (`NotForeign`), so that all their statements keep `Confined`, in
whichever order they come and wherever one of them raises.
-/

namespace GroupAssessmentAgent
open Prog

section
variable [PyChars]

/-- The job is the sender's, up to case. -/
def Job.OwnedBy (j : Job) (senderEmail : Text) : Prop := lower j.senderEmail = lower senderEmail

instance (j : Job) (senderEmail : Text) : Decidable (j.OwnedBy senderEmail) := inferInstanceAs (Decidable (_ = _))

/-- The jobs of the other senders. -/
def foreignJobs (senderEmail : Text) (w : World) : List Job :=
  w.jobs.rows.filter fun j => ¬ j.OwnedBy senderEmail

/-- The path is where the attachment of one of the sender's jobs is stored. -/
def OwnFile (senderEmail : Text) (w : World) (path : Text) : Prop :=
  ∃ j ∈ w.jobs.rows, j.OwnedBy senderEmail ∧ j.attachmentStoragePath = some path

/-- A mail to the sender's address, as the authoriser reads addresses, with own files only. -/
def OwnMail (senderEmail : Text) (w : World) (m : OutboxMessage) : Prop :=
  normaliseEmail m.toEmail = some senderEmail ∧ ∀ path ∈ m.attachments, OwnFile senderEmail w path

/-- From `w` to `w'` the jobs of the others are unchanged, and only own mails are new. -/
structure Confined (senderEmail : Text) (w w' : World) : Prop where
  foreign : foreignJobs senderEmail w' = foreignJobs senderEmail w
  mails : NewMails (OwnMail senderEmail w) w w'

/-- No other sender has a job of this id. -/
def NotForeign (senderEmail : Text) (w : World) (jobId : Text) : Prop :=
  ∀ j ∈ foreignJobs senderEmail w, j.jobId ≠ jobId

variable {senderEmail : Text} {w₀ : World}

theorem Confined.refl (w : World) : Confined senderEmail w w := ⟨rfl, [], by simp, by simp⟩

theorem Confined.of_same {w w' : World} (h : Confined senderEmail w₀ w) (hjobs : w'.jobs = w.jobs)
    (houtbox : w'.outbox = w.outbox) : Confined senderEmail w₀ w' := by
  obtain ⟨hforeign, hmails⟩ := h
  refine ⟨?_, ?_⟩
  · rw [foreignJobs, hjobs]
    exact hforeign
  · rw [NewMails, houtbox]
    exact hmails

/-! ### Statements -/

variable (senderEmail w₀) in
/-- The step keeps `Confined`. -/
def StaysConfined (_ : Stmt) (f : World → World) : Prop :=
  ∀ w, Confined senderEmail w₀ w → Confined senderEmail w₀ (f w)

theorem Confined.modifyJob {w : World} (h : Confined senderEmail w₀ w) {jobId : Text}
    (hjob : NotForeign senderEmail w₀ jobId) (f : Job → Job) (hf : ∀ j, (f j).jobId = j.jobId)
    (hsender : ∀ j, (f j).senderEmail = j.senderEmail) : Confined senderEmail w₀ (w.modifyJob jobId f hf) := by
  refine ⟨?_, h.mails⟩
  have howner : ∀ j, decide (¬ (f j).OwnedBy senderEmail) = decide (¬ j.OwnedBy senderEmail) := by
    intro j
    exact decide_eq_decide.2 (by simp only [Job.OwnedBy, hsender])
  rw [foreignJobs, World.modifyJob, Table.filter_modify _ _ _ _ _ howner]
  have hsame : (foreignJobs senderEmail w).map (fun j => if j.jobId = jobId then f j else j) =
      foreignJobs senderEmail w := by
    have hid : ∀ j ∈ foreignJobs senderEmail w, (if j.jobId = jobId then f j else j) = id j := by
      intro j hj
      exact if_neg (hjob j (h.foreign ▸ hj))
    rw [List.map_congr_left hid, List.map_id]
  exact hsame.trans h.foreign

theorem coversMarks_staysConfined : CoversMarks (StaysConfined senderEmail w₀) fun _ => True := by
  refine ⟨⟨fun _ f _ hf w h => ?_, fun _ f _ hf w h => ?_⟩, fun _ w h => h.of_same rfl rfl⟩
  · obtain ⟨t, heq, _⟩ := hf w
    rw [heq]
    exact h.of_same rfl rfl
  · obtain ⟨t, heq, _⟩ := hf w
    rw [heq]
    exact h.of_same rfl rfl

theorem covers_staysConfined : Covers (StaysConfined senderEmail w₀) (NotForeign senderEmail w₀)
    (OwnMail senderEmail w₀) where
  look _ _ _ h := h
  ask _ _ h := h
  tick _ h := h.of_same rfl rfl
  job _ _ hjob _ h := h.modifyJob hjob _ _ fun _ => by simp
  status _ _ _ _ hjob _ _ h := h.modifyJob hjob _ _ fun _ => by simp
  outbox row hrow hmail w h := by
    obtain ⟨hforeign, new, hnew, hown⟩ := h
    refine ⟨hforeign, new ++ [row w.outbox.next], ?_, ?_⟩
    · show w.outbox.rows ++ [row w.outbox.next] = _
      rw [hnew, List.append_assoc]
    · intro m hm
      rcases List.mem_append.1 hm with hm | hm
      · exact hown m hm
      · rw [List.mem_singleton.1 hm]
        exact hmail _
  put _ _ _ h := h.of_same rfl rfl
  delete _ _ _ h := h.of_same rfl rfl
  alert _ _ h := h.of_same rfl rfl
  files _ f _ hf w h := by
    obtain ⟨t, n, heq⟩ := hf w
    rw [heq]
    exact h.of_same rfl rfl

theorem Confined.insert {w : World} (h : Confined senderEmail w₀ w) {j : Job} (hown : j.OwnedBy senderEmail)
    {t : Table Job.jobId} (ht : w.jobs.insert? j = some t) : Confined senderEmail w₀ { w with jobs := t } := by
  refine ⟨?_, h.mails⟩
  have hrows : foreignJobs senderEmail { w with jobs := t } = foreignJobs senderEmail w := by
    simp only [foreignJobs, Table.insert?_rows ht, List.filter_append]
    simp [hown]
  exact hrows.trans h.foreign

theorem Confined.notForeign_free {w : World} (h : Confined senderEmail w₀ w) {jobId : Text}
    (hfree : w.jobs.find? jobId = none) : NotForeign senderEmail w₀ jobId := by
  intro j hj hid
  rw [← h.foreign] at hj
  apply Table.find?_eq_none.1 hfree
  exact List.mem_map.2 ⟨j, (List.mem_filter.1 hj).1, hid⟩

theorem notForeign_own {j : Job} (hj : j ∈ w₀.jobs.rows) (hown : j.OwnedBy senderEmail) :
    NotForeign senderEmail w₀ j.jobId := by
  intro j' hj' hid
  obtain ⟨hmem, hforeign⟩ := List.mem_filter.1 hj'
  have heq : j' = j := List.inj_on_of_nodup_map w₀.jobs.nodup hmem hj hid
  subst heq
  simp [hown] at hforeign

/-! ### Programs -/

/-- The jobs and the outbox, which nobody else touches meanwhile. -/
def jobsAndOutbox (w : World) : Table Job.jobId × Table OutboxMessage.id := (w.jobs, w.outbox)

omit [PyChars] in
theorem covers_jobsAndOutbox :
    Covers (fun _ f => ∀ w, jobsAndOutbox (f w) = jobsAndOutbox w) (fun _ => False) fun _ => False where
  look _ _ _ := rfl
  ask _ _ := rfl
  tick _ := rfl
  job _ _ h := h.elim
  status _ _ _ _ h := h.elim
  outbox _ _ h := (h 0).elim
  put _ h := h.elim
  delete _ h := h.elim
  alert _ _ := rfl
  files _ f _ hf w := by
    obtain ⟨t, n, h⟩ := hf w
    rw [h]
    rfl

def SameJobsAndOutbox (w w' : World) : Prop := jobsAndOutbox w' = jobsAndOutbox w

variable (senderEmail w₀) in
/-- What each statement guarantees. -/
def KeepsConfined (w w' : World) : Prop := Confined senderEmail w₀ w → Confined senderEmail w₀ w'

omit [PyChars] in
theorem SameJobsAndOutbox.refl (w : World) : SameJobsAndOutbox w w := rfl

theorem SameJobsAndOutbox.confined {w w' : World} (h : SameJobsAndOutbox w w') : KeepsConfined senderEmail w₀ w w' :=
  fun hw => hw.of_same (congrArg Prod.fst h) (congrArg Prod.snd h)

variable {E : Env Stmt World Exc} {α : Type}

theorem inside_of_always {p : M α} (hp : Always (StaysConfined senderEmail w₀) p) (w : World) :
    Inside E SameJobsAndOutbox (KeepsConfined senderEmail w₀) p w :=
  hp.rg (fun _ _ hf s _ => hf s) w

theorem reads_rg {p : M α} (hp : Keeps jobsAndOutbox p) (w : World) :
    RG E SameJobsAndOutbox (KeepsConfined senderEmail w₀) (fun _ w' => jobsAndOutbox w' = jobsAndOutbox w) p w :=
  hp.rg (fun _ _ h => h) (fun _ _ h => SameJobsAndOutbox.confined h) w

theorem ownedJob_rg (cmd : ValidatedCommand) (req : Request) {w : World}
    (hw : jobsAndOutbox w = jobsAndOutbox w₀) :
    RG E SameJobsAndOutbox (KeepsConfined senderEmail w₀)
      (fun x _ => ∀ job, x = .ok job → job ∈ w₀.jobs.rows ∧ job.OwnedBy req.senderEmail) (ownedJob cmd req) w := by
  have hnamed : RG E SameJobsAndOutbox (KeepsConfined senderEmail w₀)
      (fun x _ => ∀ job, x = .ok (some job) → job ∈ w₀.jobs.rows ∧ job.OwnedBy req.senderEmail)
      (namedJob cmd req) w := by
    unfold namedJob
    cases cmd.jobId with
    | none => exact rg_ret (fun _ _ _ _ h => h) (fun job hjob => by cases hjob)
    | some jobId =>
      refine rg_observe (P := fun s => jobsAndOutbox s = jobsAndOutbox w₀) (fun _ _ h hs => h.trans hs)
        (fun _ _ _ _ h => h) (fun s hs => ⟨id, fun job hjob => ?_⟩) (fun s e hs _ job hjob => by cases hjob) hw
      have hjobs : s.jobs = w₀.jobs := congrArg Prod.fst hs
      have hfound : (s.jobs.find? jobId).filter (fun j => lower j.senderEmail = lower req.senderEmail) = some job :=
        Except.ok.inj hjob
      obtain ⟨hfind, hown⟩ := Option.filter_eq_some_iff.1 hfound
      rw [hjobs] at hfind
      exact ⟨Table.find?_mem hfind, of_decide_eq_true hown⟩
  refine RG.bind SameJobsAndOutbox.refl hnamed (fun job s hs => ?_) fun e s _ job hjob => by cases hjob
  cases job with
  | none => exact rg_raise (fun _ _ _ _ h => h) (fun job hjob => by cases hjob)
  | some job =>
    refine rg_ret (fun _ _ _ _ h => h) fun job' hjob => ?_
    cases hjob
    exact hs job rfl

variable (senderEmail w₀) in
/-- The state is confined, and the job id in the result is no foreign one. -/
def GivesOwn (idOf : α → Option Text) (x : Except Exc α) (w : World) : Prop :=
  Confined senderEmail w₀ w ∧ ∀ a ∈ x.toOption, ∀ jobId ∈ idOf a, NotForeign senderEmail w₀ jobId

theorem stable_confined : Stable SameJobsAndOutbox (Confined senderEmail w₀) := fun _ _ h => h.confined

theorem stable_givesOwn (idOf : α → Option Text) (x : Except Exc α) :
    Stable SameJobsAndOutbox (GivesOwn senderEmail w₀ idOf x) :=
  fun _ _ h hs => ⟨h.confined hs.1, hs.2⟩

theorem Confined.raises {w : World} (h : Confined senderEmail w₀ w) (idOf : α → Option Text) (e : Exc) :
    GivesOwn senderEmail w₀ idOf (.error e) w :=
  ⟨h, by rintro a ⟨⟩⟩

theorem utcnow_confined (out : Outside) {w : World} (hw : Confined senderEmail w₀ w) :
    RG E SameJobsAndOutbox (KeepsConfined senderEmail w₀) (fun _ s => Confined senderEmail w₀ s) (utcnow out) w := by
  refine rg_atomic stable_confined (fun _ => stable_confined) (fun s hs _ => ?_) (fun _ _ hs _ => hs) hw
  exact ⟨fun h => h.of_same rfl rfl, hs.of_same rfl rfl⟩

theorem insertJob_confined (pre : Text) (attempt : Nat) {row : Text → Job} (source : Text)
    (hid : ∀ jobId, (row jobId).jobId = jobId) (hown : ∀ jobId, (row jobId).OwnedBy senderEmail) {w : World}
    (hw : Confined senderEmail w₀ w) :
    RG E SameJobsAndOutbox (KeepsConfined senderEmail w₀) (GivesOwn senderEmail w₀ some)
      (JobStore.insertJob pre attempt row source) w := by
  refine rg_atomic stable_confined (stable_givesOwn some) (fun s hs _ => ?_) (fun s e hs _ => hs.raises _ e) hw
  simp only
  split
  · next t ht =>
    have hconfined := hs.insert (hown _) ht
    have hfree := (Table.insert?_isSome _ _).1 (by rw [ht]; rfl)
    rw [hid] at hfree
    refine ⟨fun _ => hconfined, hconfined, ?_⟩
    rintro _ ⟨⟩ _ ⟨⟩
    exact hs.notForeign_free hfree
  · exact ⟨id, hs.raises _ _⟩

/-- `create_job` gives a job with an id that no job of another sender has. -/
theorem createJob_confined (out : Outside) (userId : Nat) (source operation : Text) (fields : List JobField) {w : World}
    (hw : Confined senderEmail w₀ w) :
    RG E SameJobsAndOutbox (KeepsConfined senderEmail w₀) (GivesOwn senderEmail w₀ (Option.map Job.jobId))
      (JobStore.createJob out senderEmail userId source operation fields) w := by
  refine RG.bind SameJobsAndOutbox.refl (utcnow_confined out hw) (fun now s hs => ?_) fun e s hs => hs.raises _ e
  suffices hrounds : ∀ rounds attempt s, Confined senderEmail w₀ s →
      RG E SameJobsAndOutbox (KeepsConfined senderEmail w₀) (GivesOwn senderEmail w₀ (Option.map Job.jobId))
        (JobStore.createJobFrom out senderEmail userId source operation fields (JobStore.jobIdPrefix now.date) rounds
          attempt) s from hrounds 10 0 s hs
  intro rounds
  induction rounds with
  | zero => exact fun _ s hs => rg_raise (stable_givesOwn _) (hs.raises _ _)
  | succ rounds ih =>
    intro attempt s hs
    refine RG.bind SameJobsAndOutbox.refl (utcnow_confined out hs)
      (fun createdAt s hs => ?_) fun e s hs => hs.raises _ e
    let row := JobStore.received senderEmail userId source operation fields createdAt
    have hid : ∀ jobId, (row jobId).jobId = jobId := fun _ => by simp [row, JobStore.received]
    have hown : ∀ jobId, (row jobId).OwnedBy senderEmail := fun _ => by simp [row, JobStore.received, Job.OwnedBy]
    have hcreate :
        RG E SameJobsAndOutbox (KeepsConfined senderEmail w₀) (GivesOwn senderEmail w₀ (Option.map Job.jobId))
        ((JobStore.insertJob (JobStore.jobIdPrefix now.date) attempt row source).bind JobStore.get) s := by
      refine RG.bind SameJobsAndOutbox.refl (insertJob_confined _ attempt source hid hown hs) (fun jobId s hs => ?_)
        fun e s hs => hs.1.raises _ e
      refine rg_observe stable_confined (stable_givesOwn _) (fun s' hs' => ⟨id, hs', ?_⟩)
        (fun s' e hs' _ => hs'.raises _ e) hs.1
      rintro _ ⟨⟩ _ hjob
      obtain ⟨job, hfound, rfl⟩ := Option.map_eq_some_iff.1 hjob
      rw [Table.find?_key hfound]
      exact hs.2 jobId rfl jobId rfl
    refine RG.tryCatch SameJobsAndOutbox.refl hcreate (fun _ _ hs => hs) fun e s hs => ?_
    split_ifs
    · exact ih _ s hs.1
    · exact rg_raise (stable_givesOwn _) (hs.1.raises _ e)

theorem created_inside {job : Option Job} {k : Text → M α}
    {s : World} (hjob : GivesOwn senderEmail w₀ (Option.map Job.jobId) (.ok job) s)
    (hk : ∀ jobId, NotForeign senderEmail w₀ jobId → Always (StaysConfined senderEmail w₀) (k jobId)) :
    Inside E SameJobsAndOutbox (KeepsConfined senderEmail w₀) ((createdJobId job).bind k) s := by
  cases job with
  | none => exact fun _ _ => trivial
  | some job => exact inside_of_always (hk job.jobId (hjob.2 _ rfl _ rfl)) s

theorem resultFile_rg (job : Job) (w : World) :
    RG E SameJobsAndOutbox (KeepsConfined senderEmail w₀)
      (fun x _ => ∀ paths, x = .ok paths → ∀ path ∈ paths, job.attachmentStoragePath = some path)
      (ResultsHandler.resultFile job) w := by
  unfold ResultsHandler.resultFile
  cases hpath : truthy job.attachmentStoragePath with
  | none =>
    refine rg_ret (fun _ _ _ _ h => h) ?_
    rintro _ ⟨⟩ path hmem
    simp at hmem
  | some path =>
    have hstored := (truthy_eq_some.1 hpath).1
    simp only
    split_ifs
    · refine RG.bind SameJobsAndOutbox.refl (inside_of_always (fileExists_always covers_staysConfined path) w)
        (fun found s _ => ?_) fun e s _ paths hpaths => by cases hpaths
      refine rg_ret (fun _ _ _ _ h => h) ?_
      rintro _ ⟨⟩ path' hmem
      split_ifs at hmem with hfound
      · rw [List.mem_singleton.1 hmem]
        exact hstored
      · simp at hmem
    · refine rg_ret (fun _ _ _ _ h => h) ?_
      rintro _ ⟨⟩ path' hmem
      simp at hmem

/-! ### Commands -/

section
variable (hsender : normaliseEmail senderEmail = some senderEmail) (out : Outside)
include hsender

theorem ownMail_plain {m : OutboxMessage} (hto : m.toEmail = senderEmail) (hplain : m.attachments = []) :
    OwnMail senderEmail w₀ m := by
  refine ⟨by rw [hto, hsender], ?_⟩
  rw [hplain]
  simp

/-- The handlers work on the jobs that are the sender's when the command is carried out. -/
theorem dispatch_inside (p : EmailProcessingPipeline) (cmd : ValidatedCommand) (msg : EmailMessage) (userId : Nat)
    {w : World} (hw : jobsAndOutbox w = jobsAndOutbox w₀) :
    Inside E SameJobsAndOutbox (KeepsConfined senderEmail w₀) (p.dispatch out cmd msg senderEmail userId) w := by
  have hstart : Confined senderEmail w₀ w :=
    (Confined.refl w₀).of_same (congrArg Prod.fst hw) (congrArg Prod.snd hw)
  have hplain : ∀ m : OutboxMessage, m.toEmail = senderEmail → m.attachments = [] → OwnMail senderEmail w₀ m :=
    fun m => ownMail_plain hsender
  refine Inside.bind SameJobsAndOutbox.refl ?_ fun _ _ => rg_ret (fun _ _ _ _ => id) trivial
  unfold EmailProcessingPipeline.callHandler
  cases cmd.operation with
  | submitTranscript =>
    simp only [SubmitTranscript.accept]
    split
    · exact fun _ _ => trivial
    · split
      · exact fun _ _ => trivial
      · refine RG.bind SameJobsAndOutbox.refl (createJob_confined out _ _ _ _ hstart) (fun job s hjob => ?_)
          fun _ _ _ => trivial
        refine created_inside hjob fun jobId hid => ?_
        exact acceptCreated_always covers_staysConfined out cmd _ hplain hid _ _ _ _
  | assessQuery =>
    refine RG.bind SameJobsAndOutbox.refl (createJob_confined out _ _ _ _ hstart) (fun job s hjob => ?_)
      fun _ _ _ => trivial
    refine created_inside hjob fun jobId hid => ?_
    refine (setStatus_always covers_staysConfined out hid _ _).bind fun _ => ?_
    refine (setStatus_always covers_staysConfined out hid _ _).bind fun _ => ?_
    exact (request_always covers_staysConfined out _ _ _ _ hplain).bind fun _ => trivial
  | status => exact inside_of_always (status_always covers_staysConfined out cmd _ hplain) w
  | help => exact inside_of_always (help_always covers_staysConfined out _ hplain) w
  | results =>
    refine RG.bind SameJobsAndOutbox.refl (ownedJob_rg cmd _ hw) (fun job s hjob => ?_) fun _ _ _ => trivial
    obtain ⟨hmem, hown⟩ := hjob job rfl
    refine RG.bind SameJobsAndOutbox.refl (resultFile_rg job s) (fun paths s hpaths => ?_) fun _ _ _ => trivial
    have hmail : ∀ m : OutboxMessage, m.toEmail = senderEmail → m.attachments = paths → OwnMail senderEmail w₀ m := by
      rintro m hto rfl
      exact ⟨by rw [hto, hsender], fun path hpath => ⟨job, hmem, hown, hpaths _ rfl path hpath⟩⟩
    refine inside_of_always ?_ s
    exact (request_always covers_staysConfined out _ _ _ _ hmail).bind fun _ => trivial
  | cancel =>
    refine RG.bind SameJobsAndOutbox.refl (ownedJob_rg cmd _ hw) (fun job s hjob => ?_) fun _ _ _ => trivial
    obtain ⟨hmem, hown⟩ := hjob job rfl
    refine inside_of_always ?_ s
    split_ifs
    · refine (setStatus_always covers_staysConfined out (notForeign_own hmem hown) _ _).bind fun _ => ?_
      exact (request_always covers_staysConfined out _ _ _ _ hplain).bind fun _ => trivial
    · exact (request_always covers_staysConfined out _ _ _ _ hplain).bind fun _ => trivial

theorem runCommand_inside (p : EmailProcessingPipeline) {msg : EmailMessage}
    (hfrom : normaliseEmail msg.fromAddress = some senderEmail) (userId : Nat) (threadJobId : Option Text)
    (cmd : ParsedCommand) :
    Inside E SameJobsAndOutbox (KeepsConfined senderEmail w₀) (p.runCommand out msg senderEmail userId threadJobId cmd)
      w₀ := by
  have hreply : ∀ m : OutboxMessage, m.toEmail = msg.fromAddress → m.attachments = [] → OwnMail senderEmail w₀ m := by
    intro m hto hplain
    refine ⟨by rw [hto, hfrom], ?_⟩
    rw [hplain]
    simp
  have hrefusal : ∀ e operation s, Inside E SameJobsAndOutbox (KeepsConfined senderEmail w₀)
      (EmailProcessingPipeline.replyToRefusal out msg e threadJobId operation) s := by
    intro e operation s
    refine inside_of_always ?_ s
    exact replyToRefusal_always covers_staysConfined out coversMarks_staysConfined msg trivial hreply _ _ _
  refine RG.bind SameJobsAndOutbox.refl
    (reads_rg (catching_always _ (validateCommand_always covers_jobsAndOutbox cmd _)) w₀)
    (fun validated s hs => ?_) fun _ _ _ => trivial
  cases validated with
  | error e => exact hrefusal e _ s
  | ok validated =>
    refine Inside.bind SameJobsAndOutbox.refl ?_ fun jobId s => ?_
    · refine Inside.tryCatch SameJobsAndOutbox.refl ?_ fun e s => ?_
      · refine Inside.bind SameJobsAndOutbox.refl (dispatch_inside hsender out p validated msg userId hs) fun _ _ => ?_
        exact fun _ _ => trivial
      · split_ifs
        · exact fun _ _ => trivial
        · exact fun _ _ => trivial
    · cases jobId with
      | error e => exact hrefusal e _ s
      | ok jobId =>
        exact inside_of_always (conclude_always covers_staysConfined out coversMarks_staysConfined msg trivial _ _ _) s

end

/-- **A command stays within the sender's own jobs.** -/
theorem command_confined (E : Env Stmt World Exc) (out : Outside) (p : EmailProcessingPipeline) (msg : EmailMessage)
    (hauth : (p.authOf msg).reason = .authorised) (userId : Nat) (threadJobId : Option Text) (cmd : ParsedCommand)
    (w : World) {c : M Unit × World}
    (hsteps : Steps E (p.runCommand out msg (p.authOf msg).senderEmail userId threadJobId cmd, w) c) :
    Confined (p.authOf msg).senderEmail w c.2 := by
  obtain ⟨email, id, hfrom, _, _, hresult⟩ := SenderAuthoriser.authorise_authorised hauth
  have hemail : (p.authOf msg).senderEmail = email := by rw [EmailProcessingPipeline.authOf, hresult]
  rw [hemail] at hsteps ⊢
  have hsender : normaliseEmail email = some email := by
    have hlower := normaliseEmail_eq_some hfrom
    rw [hlower, normaliseEmail_lower_strip, hfrom, hlower]
  have hinside : Inside E SameJobsAndOutbox (KeepsConfined email w) _ w :=
    runCommand_inside hsender out p hfrom userId threadJobId cmd
  exact (hinside.steps SameJobsAndOutbox.refl (fun _ _ h => h) (Confined.refl w) hsteps).2

end

section
attribute [local instance] asciiChars

/-- The owner cancels a job. -/
theorem cancel_confined :
    Confined (smallPipeline.authOf cancelMessage).senderEmail aliceJobs
      ((smallPipeline.runCommand Outside.plain cancelMessage (smallPipeline.authOf cancelMessage).senderEmail 12 none
        cancelFirst).run aliceJobs).2 :=
  command_confined Env.calm Outside.plain smallPipeline cancelMessage (by decide +kernel) 12 none cancelFirst aliceJobs
    (steps_run Env.calm (fun _ _ => trivial) _ aliceJobs)

end

end GroupAssessmentAgent
