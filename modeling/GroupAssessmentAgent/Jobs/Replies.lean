import GroupAssessmentAgent.Jobs.Executions
import GroupAssessmentAgent.Jobs.WorkerPlaces

/-!
# The reply that a job carries

A reply to a question changes the hint and the parent message of a job and then its status, in separate statements,
while the worker works from rows that it has read before. Two rules keep the two apart, whatever the interleaving. The
mail thread changes no job that is QUEUED or PROCESSING (`SparesScheduled`), so what the worker has read of such a job
is still in its row. The worker changes no hint and no parent message, and schedules no job of its own accord
(`SparesReplies`), so what a reply has written is still there when the reply queues its job.

`ReplyHistory` is a history variable: the options that the reply in hand selects, and for each job the last reply that
has put it back to QUEUED. `reply_carried` puts both threads together.
-/

namespace GroupAssessmentAgent
open Prog EmailProcessingPipeline

/-- What the replies have selected: `options` by the one in hand, `replies` by those that have queued a job, with their
Message-IDs. -/
structure ReplyHistory where
  options : List Text := []
  replies : Text → Option (List Text × Text) := fun _ => none

abbrev ReplyState := World × ReplyHistory

/-- What is recorded of a statement, in a call for the reply `msg` to the question on the job `jobId`. -/
def recordReply [PyChars] (reply : Option (EmailMessage × Text)) (l : Stmt) (w _ : World) (h : ReplyHistory) :
    ReplyHistory :=
  match reply, l with
  | some (msg, jobId), .selectClarifications =>
    { h with options := ((w.pendingClarifications.find? jobId).map fun q =>
        matchingOptions q (firstUnquotedLine msg.bodyText)).getD [] }
  | some (msg, _), .updateStatus jobId _ .queued =>
    { h with replies := Function.update h.replies jobId (some (h.options, msg.messageId)) }
  | _, _ => h

/-- The columns that a reply writes. -/
def Job.carried (j : Job) : Option Text × Option Text := (j.groupHint, j.inReplyToMessageId)

def carriedBy (w : World) (jobId : Text) : Option (Option Text × Option Text) :=
  (w.jobs.find? jobId).map Job.carried

/-- The worker may have the job in hand. -/
def Scheduled (w : World) (jobId : Text) : Prop :=
  statusOf w jobId = some .queued ∨ statusOf w jobId = some .processing

/-- The job carries what the last reply that has queued it has selected. -/
def CarriesReply (c : ReplyState) (jobId : Text) (carried : Option Text × Option Text) : Prop :=
  ∀ options messageId, c.2.replies jobId = some (options, messageId) →
    ∃ hint, options = [hint] ∧ carried = (some hint, some messageId)

/-- The rows of the jobs that the worker may have in hand carry their replies. -/
def RepliesKept (c : ReplyState) : Prop :=
  ∀ jobId, Scheduled c.1 jobId → ∀ carried, carriedBy c.1 jobId = some carried → CarriesReply c jobId carried

/-! ### What the threads rely on -/

/-- What the mail thread does to the jobs. -/
structure SparesScheduled (c c' : ReplyState) : Prop where
  kept : RepliesKept c → RepliesKept c'
  status : ∀ jobId, Scheduled c.1 jobId → statusOf c'.1 jobId = statusOf c.1 jobId
  carried : ∀ jobId, Scheduled c.1 jobId → carriedBy c'.1 jobId = carriedBy c.1 jobId

/-- What the worker does to them. -/
structure SparesReplies (c c' : ReplyState) : Prop where
  history : c'.2 = c.2
  scheduled : ∀ jobId, Scheduled c'.1 jobId → Scheduled c.1 jobId
  carried : ∀ jobId, carriedBy c'.1 jobId = carriedBy c.1 jobId

/-- What the other thread does. -/
def RelyReplies : Thread → ReplyState → ReplyState → Prop
  | .mail => SparesReplies
  | .worker => SparesScheduled

theorem SparesScheduled.scheduled {c c' : ReplyState} (h : SparesScheduled c c') {jobId : Text}
    (hjob : Scheduled c.1 jobId) : Scheduled c'.1 jobId := by
  rw [Scheduled, h.status jobId hjob]
  exact hjob

theorem SparesReplies.kept {c c' : ReplyState} (h : SparesReplies c c') (hc : RepliesKept c) : RepliesKept c' := by
  intro jobId hjob carried hcarried options messageId hreply
  rw [h.carried] at hcarried
  rw [h.history] at hreply
  exact hc jobId (h.scheduled jobId hjob) carried hcarried options messageId hreply

theorem relyReplies_refl (t : Thread) (c : ReplyState) : RelyReplies t c c := by
  cases t with
  | mail => exact ⟨rfl, fun _ h => h, fun _ => rfl⟩
  | worker => exact ⟨id, fun _ _ => rfl, fun _ _ => rfl⟩

theorem relyReplies_trans (t : Thread) (a b c : ReplyState) (h : RelyReplies t a b) (h' : RelyReplies t b c) :
    RelyReplies t a c := by
  cases t with
  | mail =>
    exact ⟨h'.history.trans h.history, fun jobId hjob => h.scheduled jobId (h'.scheduled jobId hjob),
      fun jobId => (h'.carried jobId).trans (h.carried jobId)⟩
  | worker =>
    exact ⟨fun hc => h'.kept (h.kept hc),
      fun jobId hjob => (h'.status jobId (h.scheduled hjob)).trans (h.status jobId hjob),
      fun jobId hjob => (h'.carried jobId (h.scheduled hjob)).trans (h.carried jobId hjob)⟩

theorem repliesKept_stable (t : Thread) : Stable (RelyReplies t) RepliesKept := by
  intro c c' hcc'
  cases t with
  | mail => exact SparesReplies.kept hcc'
  | worker => exact hcc'.kept

/-! ### Statements beside the jobs -/

/-- A step that leaves the jobs alone, and whose label says so. -/
structure BesideJobs (l : Stmt) (f : World → World) : Prop where
  label : l.writesStatus = false
  jobs : ∀ w, (f w).jobs = w.jobs

theorem covers_besideJobs : Covers BesideJobs (fun _ => False) fun _ => True where
  look l hl := ⟨(by cases l <;> first | rfl | cases hl), fun _ => rfl⟩
  ask _ := ⟨rfl, fun _ => rfl⟩
  tick := ⟨rfl, fun _ => rfl⟩
  job _ _ h := h.elim
  status _ _ _ _ h := h.elim
  outbox _ _ _ := ⟨rfl, fun _ => rfl⟩
  put _ h := h.elim
  delete _ h := h.elim
  alert _ := ⟨rfl, fun _ => rfl⟩
  files l f hl hf := by
    refine ⟨(by rcases hl with rfl | rfl <;> rfl), fun w => ?_⟩
    obtain ⟨t, n, h⟩ := hf w
    rw [h]

theorem coversCalls_besideJobs : CoversCalls BesideJobs := fun _ => ⟨rfl, fun _ => rfl⟩

theorem coversModel_besideJobs : CoversModel BesideJobs := ⟨⟨rfl, fun _ => rfl⟩, ⟨rfl, fun _ => rfl⟩⟩

theorem coversMarks_besideJobs : CoversMarks BesideJobs fun _ => True := by
  refine ⟨⟨fun _ f _ hf => ⟨rfl, fun w => ?_⟩, fun _ f _ hf => ⟨rfl, fun w => ?_⟩⟩, fun _ => ⟨rfl, fun _ => rfl⟩⟩
  · obtain ⟨t, h, -⟩ := hf w
    rw [h]
  · obtain ⟨t, h, -⟩ := hf w
    rw [h]

theorem carriedBy_congr {w w' : World} (h : w'.jobs = w.jobs) (jobId : Text) :
    carriedBy w' jobId = carriedBy w jobId := by
  rw [carriedBy, h, carriedBy]

theorem scheduled_congr {w w' : World} (h : w'.jobs = w.jobs) (jobId : Text) :
    Scheduled w' jobId ↔ Scheduled w jobId := by
  rw [Scheduled, statusOf, h]
  rfl

/-! ### Assignments -/

theorem carriedBy_modify (w : World) (jobId : Text) (f : Job → Job) (hf : ∀ j, (f j).jobId = j.jobId) (jobId' : Text) :
    carriedBy (w.modifyJob jobId f hf) jobId' = if jobId' = jobId then
      (w.jobs.find? jobId').map fun j => (f j).carried
    else carriedBy w jobId' := by
  simp only [carriedBy, World.modifyJob, Table.find?_modify]
  split_ifs
  · rw [Option.map_map]
    rfl
  · rfl

/-- An assignment to another column. -/
def JobField.KeepsReply (v : JobField) : Prop := ∀ j : Job, (j.set v).carried = j.carried

theorem JobField.IsStamp.keepsReply {v : JobField} (hv : v.IsStamp) : v.KeepsReply := by
  cases v <;> first | exact fun _ => rfl | simp [IsStamp, isStartedAt, isCompletedAt] at hv

theorem carriedBy_keeps {w : World} {jobId : Text} {f : Job → Job} {hf : ∀ j, (f j).jobId = j.jobId}
    (h : ∀ j, (f j).carried = j.carried) (jobId' : Text) :
    carriedBy (w.modifyJob jobId f hf) jobId' = carriedBy w jobId' := by
  rw [carriedBy_modify, funext h]
  split_ifs <;> rfl

theorem carriedBy_writeJob {w : World} {jobId : Text} {fields : List JobField} (h : ∀ v ∈ fields, v.KeepsReply)
    (jobId' : Text) : carriedBy (w.writeJob jobId fields) jobId' = carriedBy w jobId' :=
  carriedBy_keeps (Job.setAll_keeps h) jobId'

theorem carriedBy_writeStatus (w : World) (jobId : Text) (new : JobState) {fields : List JobField}
    (h : ∀ v ∈ fields, v.KeepsReply) (jobId' : Text) :
    carriedBy (w.writeStatus jobId new fields) jobId' = carriedBy w jobId' :=
  carriedBy_keeps (f := fun j => ({ j with status := new } : Job).setAll fields)
    (fun j => (Job.setAll_keeps h ({ j with status := new } : Job)).trans rfl) jobId'

section
variable [PyChars]

theorem recordReply_replies {reply : Option (EmailMessage × Text)} {l : Stmt} (hl : l.writesStatus = false)
    (w w' : World) (h : ReplyHistory) : (recordReply reply l w w' h).replies = h.replies := by
  unfold recordReply
  split
  · rfl
  · cases hl
  · rfl

theorem BesideJobs.spares {l : Stmt} {f : World → World} (hf : BesideJobs l f) (reply : Option (EmailMessage × Text))
    (c : ReplyState) : SparesScheduled c (f c.1, recordReply reply l c.1 (f c.1) c.2) where
  kept hc jobId hjob carried hcarried options messageId hreply := by
    rw [recordReply_replies hf.label] at hreply
    rw [carriedBy_congr (hf.jobs c.1)] at hcarried
    exact hc jobId ((scheduled_congr (hf.jobs c.1) jobId).1 hjob) carried hcarried options messageId hreply
  status jobId _ := by rw [statusOf, hf.jobs, statusOf]
  carried jobId _ := carriedBy_congr (hf.jobs c.1) jobId

/-! ### A reply -/

/-- The judgement of a program of the thread. -/
abbrev ReplyJudge (E : Env Stmt World Exc) (t : Thread) (reply : Option (EmailMessage × Text)) {β : Type}
    (Q : Except Exc β → ReplyState → Prop) (p : M β) (c : ReplyState) : Prop :=
  RG (E.watched ReplyHistory) (RelyReplies t) (RelyReplies t.other) Q (watch (recordReply reply) p) c

variable {E : Env Stmt World Exc} {reply : Option (EmailMessage × Text)} {c : ReplyState}

theorem besideJobs_rg {β : Type} {p : M β} (hp : Always BesideJobs p) (hc : RepliesKept c) :
    ReplyJudge E .mail reply (fun _ => RepliesKept) p c := by
  have hmoves : Always (Moves (recordReply reply) RepliesKept SparesScheduled) p := hp.mono fun l f hf c hc =>
    ⟨(hf.spares reply c).kept hc, hf.spares reply c⟩
  exact hmoves.moves (repliesKept_stable .mail) hc

/-- The reply in hand selects one option for a job that the worker has not in hand. -/
structure Selecting (jobId selected : Text) (c : ReplyState) : Prop where
  kept : RepliesKept c
  options : c.2.options = [selected]
  free : ¬ Scheduled c.1 jobId

/-- The row of the job has it. -/
structure Selected (jobId selected messageId : Text) (c : ReplyState) : Prop extends Selecting jobId selected c where
  carried : ∀ carried, carriedBy c.1 jobId = some carried → carried = (some selected, some messageId)

omit [PyChars] in
theorem selecting_stable (jobId selected : Text) : Stable (RelyReplies .mail) (Selecting jobId selected) :=
  fun c c' hcc' h => ⟨repliesKept_stable .mail c c' hcc' h.kept, by rw [hcc'.history, h.options],
    fun hjob => h.free (hcc'.scheduled jobId hjob)⟩

omit [PyChars] in
theorem selected_stable (jobId selected messageId : Text) :
    Stable (RelyReplies .mail) (Selected jobId selected messageId) :=
  fun c c' hcc' h => ⟨selecting_stable jobId selected c c' hcc' h.toSelecting, by rw [hcc'.carried]; exact h.carried⟩

variable (out : Outside) (msg : EmailMessage) (senderEmail jobId : Text)

theorem update_selected {selected : Text} (hc : Selecting jobId selected c) :
    ReplyJudge E .mail (some (msg, jobId)) (Ends (Selected jobId selected msg.messageId) RepliesKept)
      (JobStore.update jobId [.groupHint (some selected), .inReplyToMessageId (some msg.messageId)]) c := by
  have hends : ∀ x : Except Exc Unit, Stable (RelyReplies .mail)
      (Ends (Selected jobId selected msg.messageId) RepliesKept x) :=
    (selected_stable jobId selected msg.messageId).ends (repliesKept_stable .mail)
  rw [ReplyJudge, JobStore.update, if_neg (List.cons_ne_nil _ _), watch_change]
  refine rg_change (selecting_stable jobId selected) hends (fun c hc _ => ?_) (fun c e hc _ => hc.kept) hc
  have hstatus := statusOf_writeJob c.1 jobId [.groupHint (some selected), .inReplyToMessageId (some msg.messageId)]
  have hcarried := carriedBy_modify c.1 jobId
    (fun j => j.setAll [.groupHint (some selected), .inReplyToMessageId (some msg.messageId)]) fun _ => by simp
  have hother : ∀ jobId', Scheduled c.1 jobId' → jobId' ≠ jobId := by
    rintro jobId' hjob rfl
    exact hc.free hjob
  have hscheduled : ∀ jobId', Scheduled (c.1.writeJob jobId
      [.groupHint (some selected), .inReplyToMessageId (some msg.messageId)]) jobId' → Scheduled c.1 jobId' :=
    fun jobId' hjob => by rwa [Scheduled, hstatus] at hjob
  have hspares : SparesScheduled c (c.1.writeJob jobId
      [.groupHint (some selected), .inReplyToMessageId (some msg.messageId)], c.2) := by
    refine ⟨fun hkept jobId' hjob carried hcar => ?_, fun jobId' _ => hstatus jobId', fun jobId' hjob => ?_⟩
    · refine hkept jobId' (hscheduled jobId' hjob) carried (Eq.trans ?_ hcar)
      exact ((hcarried jobId').trans (if_neg (hother jobId' (hscheduled jobId' hjob)))).symm
    · exact (hcarried jobId').trans (if_neg (hother jobId' hjob))
  refine ⟨hspares, ⟨hspares.kept hc.kept, hc.options, fun hjob => hc.free (hscheduled jobId hjob)⟩,
    fun carried hcar => ?_⟩
  obtain ⟨j, -, rfl⟩ := Option.map_eq_some_iff.1 (((hcarried jobId).trans (if_pos rfl)).symm.trans hcar)
  rfl

theorem queueReplied_rg {selected : Text} (hc : Selected jobId selected msg.messageId c) :
    ReplyJudge E .mail (some (msg, jobId)) (fun _ => RepliesKept) (JobStore.setStatus out jobId .queued []) c := by
  have hstable := selected_stable jobId selected msg.messageId
  have hbeside : ∀ {l : Stmt} {f : World → World}, BesideJobs l f →
      (∀ w w' h, recordReply (some (msg, jobId)) l w w' h = h) →
      Moves (recordReply (some (msg, jobId))) (Selected jobId selected msg.messageId) SparesScheduled l f := by
    intro l f hf hrecord c hc
    have hspares := hf.spares (some (msg, jobId)) c
    rw [hrecord] at hspares ⊢
    refine ⟨⟨⟨hspares.kept hc.kept, hc.options, fun hjob => hc.free ((scheduled_congr (hf.jobs c.1) jobId).1 hjob)⟩,
      fun carried hcarried => hc.carried carried ?_⟩, hspares⟩
    rwa [carriedBy_congr (hf.jobs c.1)] at hcarried
  refine (setStatus_rg (K := fun _ => Selected jobId selected msg.messageId) (D := RepliesKept) out []
    (relyReplies_refl .mail) hstable (fun _ => hstable) (repliesKept_stable .mail) (fun _ _ h => h) (fun c hc => ?_)
    (fun _ => hbeside covers_besideJobs.tick fun _ _ _ => rfl)
    (fun current fields _ hfields c hc => ?_) hc).mono (fun _ _ h => h)
    fun x c hc => ?_
  · obtain ⟨hnext, hspares⟩ := hbeside (covers_besideJobs.look .selectJobs rfl) (fun _ _ _ => rfl) c hc
    exact ⟨hspares, hnext, fun _ _ => hnext⟩
  · have hcarried := carriedBy_writeStatus c.1 jobId .queued (fun v (hv : v ∈ fields) =>
      JobField.IsStamp.keepsReply ((hfields v hv).resolve_left List.not_mem_nil))
    have hother : ∀ jobId', jobId' ≠ jobId →
        statusOf (c.1.writeStatus jobId .queued fields) jobId' = statusOf c.1 jobId' :=
      fun jobId' hne => (statusOf_writeStatus c.1 jobId .queued fields jobId').trans (if_neg hne)
    have hfree : ∀ jobId', Scheduled c.1 jobId' → jobId' ≠ jobId := by
      rintro jobId' hjob rfl
      exact hc.free hjob
    have hkept : RepliesKept (c.1.writeStatus jobId .queued fields,
        recordReply (some (msg, jobId)) (.updateStatus jobId current .queued) c.1
          (c.1.writeStatus jobId .queued fields) c.2) := by
      intro jobId' hjob carried hcar options messageId hreply
      have hreply : Function.update c.2.replies jobId (some (c.2.options, msg.messageId)) jobId' =
        some (options, messageId) := hreply
      rw [hcarried] at hcar
      by_cases hne : jobId' = jobId
      · subst hne
        rw [Function.update_self, hc.options] at hreply
        obtain ⟨rfl, rfl⟩ := Prod.mk.inj (Option.some.inj hreply)
        exact ⟨selected, rfl, hc.carried carried hcar⟩
      · rw [Function.update_of_ne hne] at hreply
        refine hc.kept jobId' ?_ carried hcar options messageId hreply
        rwa [Scheduled, hother jobId' hne] at hjob
    exact ⟨⟨fun _ => hkept, fun jobId' hjob => hother jobId' (hfree jobId' hjob), fun jobId' _ => hcarried jobId'⟩,
      hkept⟩
  · cases x with
    | ok _ => exact hc
    | error _ => exact hc.kept

theorem applyClarification_rg {selected : Text} (hc : RepliesKept c) (hoptions : c.2.options = [selected]) :
    ReplyJudge E .mail (some (msg, jobId)) (fun _ => RepliesKept)
      (applyClarification out msg senderEmail jobId selected) c := by
  have hrefl := relyReplies_refl .mail
  have hkept := repliesKept_stable .mail
  have hread : ReplyJudge E .mail (some (msg, jobId)) (fun x c => RepliesKept c ∧ ∀ job, x = .ok job →
      job.map Job.status = some .needsClarification → Selecting jobId selected c) (JobStore.getOwned jobId senderEmail)
      c := by
    have hstable : Stable (RelyReplies .mail) fun c => RepliesKept c ∧ c.2.options = [selected] := fun c c' hcc' h =>
      ⟨hkept c c' hcc' h.1, by rw [hcc'.history, h.2]⟩
    have hends : ∀ x : Except Exc (Option Job), Stable (RelyReplies .mail) fun c => RepliesKept c ∧
        ∀ job, x = .ok job → job.map Job.status = some .needsClarification → Selecting jobId selected c :=
      fun x c c' hcc' h => ⟨hkept c c' hcc' h.1, fun job hx hjob =>
        selecting_stable jobId selected c c' hcc' (h.2 job hx hjob)⟩
    have hlook := (covers_besideJobs.look .selectJobs rfl).spares (some (msg, jobId))
    rw [ReplyJudge, JobStore.getOwned, watch_observe]
    refine rg_atomic hstable hends (fun c hc _ => ⟨hlook c, hc.1, fun job hx hjob => ⟨hc.1, hc.2, ?_⟩⟩)
      (fun c e hc _ => ⟨hc.1, fun _ hx => by cases hx⟩) ⟨hc, hoptions⟩
    obtain rfl := Except.ok.inj hx
    obtain ⟨row, hrow, hstatus⟩ := Option.map_eq_some_iff.1 hjob
    have hfind : c.1.jobs.find? jobId = some row := (Option.filter_eq_some_iff.1 hrow).1
    rintro (hqueued | hprocessing)
    · rw [statusOf, hfind, Option.map_some, hstatus] at hqueued
      cases hqueued
    · rw [statusOf, hfind, Option.map_some, hstatus] at hprocessing
      cases hprocessing
  refine rg_watch_bind hrefl hread (fun job c hc => ?_) fun _ _ hc => hc.1
  split_ifs with hwaiting
  · exact rg_ret (fun _ => hkept) hc.1
  · refine rg_watch_bind hrefl (update_selected msg jobId (hc.2 job rfl (not_ne_iff.1 hwaiting))) (fun _ c hc => ?_)
      fun _ _ hc => hc
    refine rg_watch_bind hrefl (queueReplied_rg out msg jobId hc) (fun _ c hc => besideJobs_rg ?_ hc) fun _ _ hc => hc
    refine Always.bind (always_change ⟨rfl, fun _ => rfl⟩) fun _ => ?_
    exact replyAndConclude_always covers_besideJobs out coversMarks_besideJobs msg trivial _ _ _ _ _ _
      fun _ _ _ => trivial

theorem continueClarification_rg (hc : RepliesKept c) : ReplyJudge E .mail (some (msg, jobId)) (fun _ => RepliesKept)
    (continueClarification out msg senderEmail jobId) c := by
  have hkept := repliesKept_stable .mail
  have hread : ReplyJudge E .mail (some (msg, jobId)) (fun x c => RepliesKept c ∧ ∀ q, x = .ok (some q) →
      c.2.options = matchingOptions q (firstUnquotedLine msg.bodyText)) (PendingClarificationStore.get jobId) c := by
    have hends : ∀ x : Except Exc (Option PendingClarification), Stable (RelyReplies .mail) fun c => RepliesKept c ∧
        ∀ q, x = .ok (some q) → c.2.options = matchingOptions q (firstUnquotedLine msg.bodyText) :=
      fun x c c' hcc' h => ⟨hkept c c' hcc' h.1, fun q hx => by rw [hcc'.history, h.2 q hx]⟩
    have hlook := (covers_besideJobs.look .selectClarifications rfl).spares (some (msg, jobId))
    rw [ReplyJudge, PendingClarificationStore.get, watch_observe]
    refine rg_atomic hkept hends (fun c hc _ => ⟨hlook c, (hlook c).kept hc, fun q hx => ?_⟩)
      (fun c e hc _ => ⟨hc, fun _ hx => by cases hx⟩) hc
    have hfind : c.1.pendingClarifications.find? jobId = some q := Except.ok.inj hx
    show ((c.1.pendingClarifications.find? jobId).map _).getD [] = _
    rw [hfind]
    rfl
  refine rg_watch_bind (relyReplies_refl .mail) hread (fun q c hc => ?_) fun _ _ hc => hc.1
  cases q with
  | none => exact rg_ret (fun _ => hkept) hc.1
  | some q =>
    have hoptions := hc.2 q rfl
    simp only
    split
    · next selected hselected =>
      rw [hselected] at hoptions
      exact applyClarification_rg out msg senderEmail jobId hc.1 hoptions
    · refine besideJobs_rg ?_ hc.1
      exact replyAndConclude_always covers_besideJobs out coversMarks_besideJobs msg trivial _ _ _ _ _ _
        fun _ _ _ => trivial

end

end GroupAssessmentAgent
