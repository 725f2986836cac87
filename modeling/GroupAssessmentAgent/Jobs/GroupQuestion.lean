import GroupAssessmentAgent.Jobs.Outcomes
import GroupAssessmentAgent.Jobs.Submission

/-!
# The question on the group

Where `match_group` finds no group the worker asks the sender for one, by name. The reply is compared with the names
under one normalisation (`normalise`), and the name that it selects is compared with them again under another, that of
`match_group`. A name is an answer exactly if it survives the first reading and is the only one of its kind under both
(`answered_iff`). To a sender without groups no name is offered: the mail sends them to the admin.
-/

namespace GroupAssessmentAgent
open Prog EmailProcessingPipeline

section
variable [PyChars]

/-- The question on a group is open on the job of the sender, and the job waits for the answer. -/
structure AskedFor (w : World) (jobId senderEmail : Text) (groups : List GroupSummary) : Prop where
  question : ∃ q, w.pendingClarifications.find? jobId = some q ∧ q.options = groups.map GroupSummary.name
  waiting : ∃ row, JobStore.findOwned w jobId senderEmail = some row ∧ row.status = .needsClarification

/-- The message ends the waiting, and the new hint of the job selects the group. -/
def Selects (out : Outside) (msg : EmailMessage) (jobId senderEmail : Text) (groups : List GroupSummary)
    (group : GroupSummary) (w : World) : Prop :=
  ∃ row, ((continueClarification out msg senderEmail jobId).run w).2.jobs.find? jobId = some row ∧
    row.status = .queued ∧ matchGroup row.groupHint groups = .matched group

/-- The name of the group is read back from a reply, and it tells the group from the others. -/
structure ToldByName (groups : List GroupSummary) (group : GroupSummary) : Prop where
  read : normalise (firstUnquotedLine group.name) = normalise group.name
  offered : (groups.filter fun g => normalise g.name = normalise group.name) = [group]
  hinted : group.name ≠ [] → (groups.filter fun g => lower (strip g.name) = lower (strip group.name)) = [group]
  -- an empty hint is none
  alone : group.name = [] → groups = [group]

/-! ### Names -/

variable {groups : List GroupSummary} {group : GroupSummary}

theorem ToldByName.admitted (h : ToldByName groups group) : OnlyAdmitted (some group.name) groups group := by
  unfold OnlyAdmitted
  cases hname : group.name with
  | nil => exact h.alone hname
  | cons c s =>
    have hne : group.name ≠ [] := by simp [hname]
    have hhinted := h.hinted hne
    rwa [hname] at hhinted

theorem OnlyAdmitted.name {g : GroupSummary} (h : OnlyAdmitted (some g.name) groups group) (hg : g ∈ groups) :
    g = group := by
  unfold OnlyAdmitted at h
  cases hname : g.name with
  | nil =>
    rw [hname] at h
    rw [show groups = [group] from h] at hg
    exact List.mem_singleton.1 hg
  | cons c s =>
    rw [hname] at h
    have hmem : g ∈ groups.filter fun g' => lower (strip g'.name) = lower (strip (c :: s)) := by
      simp [List.mem_filter, hg, hname]
    rw [show (groups.filter fun g' => lower (strip g'.name) = lower (strip (c :: s))) = [group] from h] at hmem
    exact List.mem_singleton.1 hmem

/-- The name of the group is the one option that the reply selects, and it selects the group, exactly if it tells the
group from the others. -/
theorem toldByName_iff (q : PendingClarification) (hoptions : q.options = groups.map GroupSummary.name)
    (hgroup : group ∈ groups) :
    (∃ selected, matchingOptions q (firstUnquotedLine group.name) = [selected] ∧
      matchGroup (some selected) groups = .matched group) ↔ ToldByName groups group := by
  have hmatching : ∀ answer, matchingOptions q answer =
      (groups.filter fun g => normalise g.name = normalise answer).map GroupSummary.name := by
    intro answer
    rw [matchingOptions, hoptions, List.filter_map]
    rfl
  constructor
  · rintro ⟨selected, hselected, hmatched⟩
    rw [hmatching] at hselected
    obtain ⟨g, hg, rfl⟩ := List.map_eq_singleton_iff.1 hselected
    have hmem : g ∈ groups.filter fun g => normalise g.name = normalise (firstUnquotedLine group.name) := by simp [hg]
    obtain ⟨hmem, hread⟩ := List.mem_filter.1 hmem
    have honly := matchGroup_matched.1 hmatched
    obtain rfl := honly.name hmem
    have hread : normalise g.name = normalise (firstUnquotedLine g.name) := by simpa using hread
    refine ⟨hread.symm, by rw [hread]; exact hg, fun hne => ?_, fun hempty => ?_⟩
    · unfold OnlyAdmitted at honly
      cases hname : g.name with
      | nil => exact absurd hname hne
      | cons c s =>
        rw [hname] at honly
        exact honly
    · rw [hempty] at honly
      exact honly
  · intro h
    refine ⟨group.name, ?_, matchGroup_matched.2 h.admitted⟩
    rw [hmatching, h.read, h.offered]
    rfl

/-! ### The reply -/

variable (out : Outside) {w : World} {jobId senderEmail : Text} {msg : EmailMessage}

omit [PyChars] in
theorem holding_calm : Holding Env.calm := fun _ _ _ h => h.elim

omit [PyChars] in
theorem applied_jobsKept (msg : EmailMessage) (senderEmail jobId : Text) (mail : Rendered) : Always JobsKept (do
    PendingClarificationStore.delete jobId
    replyTo out msg senderEmail mail (some jobId)
    conclude out msg "clarification_applied" (some jobId) (some "clarification")
    return true) := by
  refine Always.bind (always_change fun _ => rfl) fun _ => ?_
  exact replyAndConclude_always covers_jobsKept out coversMarks_jobsKept msg trivial _ _ _ _ _ _ fun _ _ _ => trivial

theorem applyClarification_ends (selected : Text) {row : Job} (hrow : JobStore.findOwned w jobId senderEmail = some row)
    (hwaiting : row.status = .needsClarification) :
    Ensures Env.calm (fun _ _ w' => statusOf w' jobId = some .queued ∧
      RowHas jobId (fun j => j.groupHint = some selected) w')
      (applyClarification out msg senderEmail jobId selected) w := by
  have hfind : w.jobs.find? jobId = some row := (Option.filter_eq_some_iff.1 hrow).1
  refine Returns.then (M := fun row' w' => row' = some row ∧ w' = w) ?_ fun h₀ row' w₀ _ hw₀ => ?_
  · exact store_holds holding_calm rfl ⟨hrow, rfl⟩
  obtain ⟨rfl, rfl⟩ := hw₀
  rw [if_neg (by simp [hwaiting])]
  refine Returns.then (update_holds holding_calm jobId (List.cons_ne_nil _ _) w₀) fun h₁ _ w₁ _ hw₁ => ?_
  have hhint₁ : RowHas jobId (fun j => j.groupHint = some selected) w₁ := by
    rw [hw₁]
    exact RowHas.writeJob (P := fun _ => True) (fun _ _ => trivial) fun _ _ => rfl
  have hallowed : Allowed w₁ jobId .queued := by
    refine ⟨.needsClarification, ?_, by decide⟩
    rw [hw₁, statusOf_writeJob, statusOf, hfind, Option.map_some, hwaiting]
  refine Returns.then (setStatus_holds holding_calm out hallowed []) fun h₂ _ w₂ _ hw₂ => ?_
  have hstatus₂ := hw₂.status hallowed
  obtain ⟨stamps, n, hstamps, rfl⟩ := hw₂
  have hhint₂ : RowHas jobId (fun j => j.groupHint = some selected)
      (({ w₁ with ticks := n }).writeStatus jobId .queued ([] ++ stamps)) :=
    hhint₁.writeStatus n hstamps fun _ h => h
  refine (jobsKept_ensures (applied_jobsKept out msg senderEmail jobId _) _).mono fun _ _ w' hjobs => ⟨?_, ?_⟩
  · rw [statusOf, hjobs]
    exact hstatus₂
  · exact hhint₂.congr hjobs

theorem continueClarification_ends {q : PendingClarification} (hasked : w.pendingClarifications.find? jobId = some q)
    {row : Job} (hrow : JobStore.findOwned w jobId senderEmail = some row)
    (hwaiting : row.status = .needsClarification) :
    Ensures Env.calm (fun _ _ w' =>
        (∃ selected, matchingOptions q (firstUnquotedLine msg.bodyText) = [selected] ∧
          statusOf w' jobId = some .queued ∧
          RowHas jobId (fun j => j.groupHint = some selected) w') ∨
        (∀ selected, matchingOptions q (firstUnquotedLine msg.bodyText) ≠ [selected]) ∧ w'.jobs = w.jobs)
      (continueClarification out msg senderEmail jobId) w := by
  refine Returns.then (M := fun q' w' => q' = some q ∧ w' = w) ?_ fun h₀ q' w₀ _ hw₀ => ?_
  · exact store_holds holding_calm rfl ⟨hasked, rfl⟩
  obtain ⟨rfl, rfl⟩ := hw₀
  have hagain : Always JobsKept (do
      replyTo out msg senderEmail (renderClarification q.question (some jobId)) (some jobId)
      conclude out msg "clarification_sent" none (some "clarification")
      return true) :=
    replyAndConclude_always covers_jobsKept out coversMarks_jobsKept msg trivial _ _ _ _ _ _ fun _ _ _ => trivial
  simp only
  split
  · next selected hselected =>
    refine (applyClarification_ends out selected hrow hwaiting).mono fun _ _ w' hw' => .inl ⟨selected, hselected, hw'⟩
  · next hnot => exact (jobsKept_ensures hagain w₀).mono fun _ _ w' hw' => .inr ⟨hnot, hw'⟩

/-- **A reply with the name of an offered group moves the job on to that group exactly if the name is read back from it
and tells the group from the others.** -/
theorem selects_iff (hasked : AskedFor w jobId senderEmail groups) (hgroup : group ∈ groups)
    (hbody : msg.bodyText = group.name) :
    Selects out msg jobId senderEmail groups group w ↔ ToldByName groups group := by
  obtain ⟨⟨q, hq, hoptions⟩, row, hrow, hwaiting⟩ := hasked
  have hfind : w.jobs.find? jobId = some row := (Option.filter_eq_some_iff.1 hrow).1
  obtain ⟨h, hends⟩ := Ensures.run (p := continueClarification out msg senderEmail jobId) (fun _ _ => trivial)
    (continueClarification_ends out hq hrow hwaiting)
  rw [← toldByName_iff q hoptions hgroup, ← hbody]
  rcases hends with ⟨selected, hselected, hstatus, hhint⟩ | ⟨hnot, hjobs⟩
  · obtain ⟨row', hrow', hqueued⟩ := Option.map_eq_some_iff.1 hstatus
    have hhint : row'.groupHint = some selected := hhint row' hrow'
    constructor
    · rintro ⟨row'', hrow'', -, hmatched⟩
      obtain rfl := Option.some.inj (hrow'.symm.trans hrow'')
      exact ⟨selected, hselected, hhint ▸ hmatched⟩
    · rintro ⟨selected', hselected', hmatched⟩
      obtain rfl := List.singleton_inj.1 (hselected.symm.trans hselected')
      exact ⟨row', hrow', hqueued, hhint ▸ hmatched⟩
  · constructor
    · rintro ⟨row', hrow', hqueued, -⟩
      rw [hjobs, hfind] at hrow'
      obtain rfl := Option.some.inj hrow'
      rw [hwaiting] at hqueued
      cases hqueued
    · rintro ⟨selected, hselected, -⟩
      exact absurd hselected (hnot selected)

/-! ### The question -/

omit [PyChars] in
theorem groupsOf_run {d : DiarisationClient} {job : Job} {token : Text} {groups : List GroupSummary} {w : World}
    (hlogin : d.login w.backendCalls job.backendUserId = .ok token)
    (hgroups : d.listGroups (w.backendCalls + 1) token = .ok groups) :
    (groupsOf d job).run w = (.ok (token, groups), { w with backendCalls := w.backendCalls + 2 }) := by
  simp [groupsOf, callBackend, run_bind, hlogin, hgroups]

theorem askForGroup_asks {job row : Job} (groups : List GroupSummary) (subject : Text)
    (hrow : w.jobs.find? job.jobId = some row) (hprocessing : row.status = .processing)
    (hsender : row.senderEmail = job.senderEmail) :
    Returns Env.calm (fun _ w' => AskedFor w' job.jobId job.senderEmail groups)
      (askForGroup out job groups subject) w := by
  have hallowed : Allowed w job.jobId .needsClarification :=
    ⟨.processing, by rw [statusOf, hrow, Option.map_some, hprocessing], by decide⟩
  refine Returns.bind (setStatus_holds holding_calm out hallowed []) fun _ w₁ hw₁ => ?_
  obtain ⟨stamps, n, -, rfl⟩ := hw₁
  refine Returns.bind (put_holds holding_calm out _ _ _ _ _) fun _ w₂ hw₂ => ?_
  obtain ⟨createdAt, rfl⟩ := hw₂
  refine (mail_holds holding_calm out _ _ _ _ _).mono fun _ w' hw' => ?_
  obtain ⟨m, hsent, -⟩ := hw'
  refine ⟨?_, ({ row with status := .needsClarification }).setAll ([] ++ stamps), ?_, Job.setAll_status _ _⟩
  · rw [hsent.questions]
    exact ⟨_, (Table.find?_upsert _ _ _).trans (if_pos rfl), rfl⟩
  · have hfind : w'.jobs.find? job.jobId =
        some (({ row with status := .needsClarification }).setAll ([] ++ stamps)) := by
      rw [hsent.jobs]
      show (World.writeStatus _ _ _ _).jobs.find? job.jobId = _
      rw [World.writeStatus, World.modifyJob, Table.find?_modify, if_pos rfl]
      exact congrArg (Option.map _) hrow
    rw [JobStore.findOwned, hfind]
    refine Option.filter_eq_some_iff.2 ⟨rfl, ?_⟩
    rw [Job.setAll_senderEmail, ← hsender]
    exact decide_eq_true rfl

/-- **Every question on a group offers the sender's groups, and a reply with the name of one of them moves the job on to
that group exactly if the name is read back from it and tells the group from the others**, for a sender with groups. -/
theorem question_answerable {worker : JobWorker} {job row : Job} {token : Text} {p : M Unit}
    (hp : p = SubmitTranscript.attempt out worker job ∨ p = AssessQuery.attempt out worker job)
    (hrow : w.jobs.find? job.jobId = some row) (hprocessing : row.status = .processing)
    (hsender : row.senderEmail = job.senderEmail)
    (hlogin : worker.diarisation.login w.backendCalls job.backendUserId = .ok token)
    (hgroups : worker.diarisation.listGroups (w.backendCalls + 1) token = .ok groups) (hne : groups ≠ [])
    (hunmatched : ∀ group, matchGroup job.groupHint groups ≠ .matched group) :
    AskedFor (p.run w).2 job.jobId job.senderEmail groups ∧ groups.map GroupSummary.name ≠ [] ∧
      ∀ w', AskedFor w' job.jobId job.senderEmail groups → ∀ group ∈ groups, ∀ msg : EmailMessage,
        msg.bodyText = group.name →
          (Selects out msg job.jobId job.senderEmail groups group w' ↔ ToldByName groups group) := by
  refine ⟨?_, by simpa using hne, fun w' hasked group hgroup msg hbody => selects_iff out hasked hgroup hbody⟩
  have hasks : ∃ subject,
      p.run w = (askForGroup out job groups subject).run { w with backendCalls := w.backendCalls + 2 } := by
    have hfound := groupsOf_run hlogin hgroups
    rcases hp with rfl | rfl
    · refine ⟨"this transcript", (run_bind_ok hfound).trans ?_⟩
      cases hmatch : matchGroup job.groupHint groups with
      | matched group => exact absurd hmatch (hunmatched group)
      | ambiguous candidates => rfl
      | noMatch => rfl
    · refine ⟨"this question", (run_bind_ok hfound).trans ?_⟩
      cases hmatch : matchGroup job.groupHint groups with
      | matched group => exact absurd hmatch (hunmatched group)
      | ambiguous candidates => rfl
      | noMatch => rfl
  obtain ⟨subject, hrun⟩ := hasks
  rw [hrun]
  have hasked := askForGroup_asks out (w := { w with backendCalls := w.backendCalls + 2 }) groups subject hrow
    hprocessing hsender
  obtain ⟨h, -, _, -, hend⟩ := Ensures.run (fun _ _ => trivial) hasked
  exact hend

end

/-! ### Names that tell and names that do not -/

section
attribute [local instance] asciiChars

/-- The job of the owner's question, which the worker has begun. -/
def begunWorld : World where
  jobs := Table.empty.upsert { questionJob with status := .processing }

/-- The worker's question to a sender with these groups. -/
def askedWorld (groups : List GroupSummary) : World :=
  ((AssessQuery.attempt .plain (smallWorker groups) questionJob).run begunWorld).2

/-- A reply that is just this text. -/
def replyOf (text : Text) : EmailMessage := { aliceMessage with messageId := "<2@uni.ac.uk>", bodyText := text }

/-- Two groups with different names. -/
theorem answerable_twoTeams : Selects .plain (replyOf "Team A") questionJob.jobId questionJob.senderEmail
    [⟨7, "Team A"⟩, ⟨8, "Team B"⟩] ⟨7, "Team A"⟩ (askedWorld [⟨7, "Team A"⟩, ⟨8, "Team B"⟩]) := by
  have hunmatched : ∀ group, matchGroup questionJob.groupHint [⟨7, "Team A"⟩, ⟨8, "Team B"⟩] ≠ .matched group :=
    fun group h => by cases h
  have hasks : AssessQuery.attempt .plain (smallWorker [⟨7, "Team A"⟩, ⟨8, "Team B"⟩]) questionJob =
      AssessQuery.attempt .plain (smallWorker [⟨7, "Team A"⟩, ⟨8, "Team B"⟩]) questionJob := rfl
  obtain ⟨hasked, -, hselects⟩ := question_answerable .plain (w := begunWorld) (.inr hasks) rfl rfl rfl rfl rfl
    (by simp) hunmatched
  refine (hselects _ hasked ⟨7, "Team A"⟩ (by simp) (replyOf "Team A") rfl).2 ⟨?_, ?_, fun _ => ?_, fun h => ?_⟩
  · decide +kernel
  · decide +kernel
  · decide +kernel
  · exact absurd h (by decide)

/-- To a sender without groups nothing is offered, and of two names that differ in case neither is an answer. -/
theorem unanswerable :
    matchGroup questionJob.groupHint [] = .noMatch ∧
    ((askedWorld []).pendingClarifications.find? questionJob.jobId).map PendingClarification.options = some [] ∧
    AskedFor (askedWorld [⟨7, "Team A"⟩, ⟨8, "team a"⟩]) questionJob.jobId questionJob.senderEmail
      [⟨7, "Team A"⟩, ⟨8, "team a"⟩] ∧
    ¬ Selects .plain (replyOf "Team A") questionJob.jobId questionJob.senderEmail [⟨7, "Team A"⟩, ⟨8, "team a"⟩]
      ⟨7, "Team A"⟩ (askedWorld [⟨7, "Team A"⟩, ⟨8, "team a"⟩]) := by
  refine ⟨rfl, by decide +kernel, ⟨⟨_, rfl, by decide +kernel⟩, _, rfl, by decide +kernel⟩, ?_⟩
  rintro ⟨row, hrow, hqueued, -⟩
  have hwaits : statusOf ((EmailProcessingPipeline.continueClarification .plain (replyOf "Team A")
      questionJob.senderEmail questionJob.jobId).run (askedWorld [⟨7, "Team A"⟩, ⟨8, "team a"⟩])).2 questionJob.jobId =
      some .needsClarification := by
    decide +kernel
  rw [statusOf, hrow, Option.map_some, hqueued] at hwaits
  cases hwaits

end

end GroupAssessmentAgent
