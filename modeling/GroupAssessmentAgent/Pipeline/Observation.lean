import GroupAssessmentAgent.Lib.TwoRuns
import GroupAssessmentAgent.Pipeline.Ownership

/-!
# What a sender can observe

Two databases that agree on a sender's jobs and on the links to them (`SameView`) may differ in everything else. What
the pipeline does for STATUS, RESULTS and CANCEL is the same on both (`Unobservable`): it finds the same job for the
message, raises the same exception or gives the same outcome, writes the same mail, and leaves the sender's jobs the
same. The lookups decide this: each of them, written as a function of the tables, is one of the sender's own rows
(`findOwned_eq`, `findByLastResponse_eq`, `findByResponse_eq`).
-/

namespace GroupAssessmentAgent
open Prog

section
variable [PyChars] (senderEmail : Text)

/-- The jobs of the sender. -/
def ownJobs (w : World) : List Job := w.jobs.rows.filter fun j => j.OwnedBy senderEmail

def ownIds (w : World) : List Text := (ownJobs senderEmail w).map Job.jobId

/-- The links that point to them. -/
def ownLinks (w : World) : List MessageLink :=
  w.messageLinks.rows.filter fun l => l.jobId ∈ (ownIds senderEmail w).map some

/-- The worlds agree on the sender's jobs and the links to them, on the disk, and on the time. -/
structure SameView (w w' : World) : Prop where
  jobs : ownJobs senderEmail w = ownJobs senderEmail w'
  links : ownLinks senderEmail w = ownLinks senderEmail w'
  files : w.files = w'.files
  ticks : w.ticks = w'.ticks

/-- The mail without its number in the outbox. -/
def OutboxMessage.content (m : OutboxMessage) : OutboxMessage := { m with id := 0 }

/-- The mails that are new since `a` and `b` are the same. -/
def SameMails (a b w w' : World) : Prop :=
  ∃ new new', w.outbox.rows = a.outbox.rows ++ new ∧ w'.outbox.rows = b.outbox.rows ++ new' ∧
    new.map OutboxMessage.content = new'.map OutboxMessage.content

/-- The program does the same for the sender whatever belongs to others. -/
def Unobservable {α : Type} (p : M α) : Prop :=
  ∀ a b, SameView senderEmail a b → (p.run a).1 = (p.run b).1 ∧ SameView senderEmail (p.run a).2 (p.run b).2 ∧
    SameMails a b (p.run a).2 (p.run b).2

/-! ### The lookups -/

variable {senderEmail}

theorem findOwned_eq (w : World) (jobId : Text) :
    JobStore.findOwned w jobId senderEmail = (ownJobs senderEmail w).find? fun j => j.jobId = jobId :=
  (Table.find?_filter w.jobs (fun j => j.OwnedBy senderEmail) jobId).symm

theorem findByLastResponse_eq (w : World) (messageId : Text) :
    JobStore.findByLastResponse w messageId senderEmail =
      latest Job.createdAt ((ownJobs senderEmail w).filter fun j =>
        j.lastResponseMessageId = some messageId ∧ j.senderEmail = senderEmail) := by
  rw [JobStore.findByLastResponse, ownJobs, List.filter_filter]
  refine congrArg (latest Job.createdAt) (List.filter_congr fun j _ => ?_)
  by_cases h : j.senderEmail = senderEmail
  · simp [h, Job.OwnedBy]
  · simp [h]

/-- Addresses that SQLite takes for the same are the same to the program. -/
theorem ownedBy_of_sqlLower {j : Job} (h : sqlLower j.senderEmail = sqlLower senderEmail) : j.OwnedBy senderEmail := by
  have hlower : lower (sqlLower j.senderEmail) = lower (sqlLower senderEmail) := congrArg lower h
  rwa [sqlLower, sqlLower, PyChars.lower_toLower, PyChars.lower_toLower] at hlower

theorem joined_filter (rows : List Job) (messageId : Text) (l : MessageLink) :
    ((rows.filter fun j => l.jobId = some j.jobId).map fun j => (l, j)).filter
        (fun r => r.1.messageId = messageId ∧ sqlLower r.2.senderEmail = sqlLower senderEmail) =
      (((rows.filter fun j => j.OwnedBy senderEmail).filter fun j => l.jobId = some j.jobId).map fun j => (l, j)).filter
        fun r => r.1.messageId = messageId ∧ sqlLower r.2.senderEmail = sqlLower senderEmail := by
  simp only [List.filter_map, List.filter_filter]
  refine congrArg (List.map _) (List.filter_congr fun j _ => ?_)
  by_cases h : sqlLower j.senderEmail = sqlLower senderEmail
  · simp [h, ownedBy_of_sqlLower h]
  · simp [h]

theorem findByResponse_eq (w : World) (messageId : Text) :
    JobStore.findByResponse w messageId senderEmail =
      (latest (fun r : MessageLink × Job => r.1.createdAt) ((ownLinks senderEmail w).flatMap fun l =>
        (((ownJobs senderEmail w).filter fun j => l.jobId = some j.jobId).map fun j => (l, j)).filter fun r =>
          r.1.messageId = messageId ∧ sqlLower r.2.senderEmail = sqlLower senderEmail)).map Prod.snd := by
  have hskip : ∀ links : List MessageLink, (links.flatMap fun l =>
      (((ownJobs senderEmail w).filter fun j => l.jobId = some j.jobId).map fun j => (l, j)).filter fun r =>
          r.1.messageId = messageId ∧ sqlLower r.2.senderEmail = sqlLower senderEmail) =
      (links.filter fun l => l.jobId ∈ (ownIds senderEmail w).map some).flatMap fun l =>
        (((ownJobs senderEmail w).filter fun j => l.jobId = some j.jobId).map fun j => (l, j)).filter fun r =>
          r.1.messageId = messageId ∧ sqlLower r.2.senderEmail = sqlLower senderEmail := by
    intro links
    induction links with
    | nil => rfl
    | cons l links ih =>
      rw [List.flatMap_cons, List.filter_cons, ih]
      split_ifs with hmem
      · rfl
      · have hnone : ((ownJobs senderEmail w).filter fun j => l.jobId = some j.jobId) = [] := by
          refine List.filter_eq_nil_iff.2 fun j hj heq => hmem ?_
          simp only [decide_eq_true_eq] at heq ⊢
          rw [heq]
          exact List.mem_map_of_mem (List.mem_map_of_mem hj)
        simp [hnone]
  rw [JobStore.findByResponse, List.filter_flatMap, ownLinks, ← hskip]
  refine congrArg (fun rows => (latest (fun r : MessageLink × Job => r.1.createdAt) rows).map Prod.snd) ?_
  refine congrArg (fun f => w.messageLinks.rows.flatMap f) ?_
  funext l
  exact joined_filter w.jobs.rows messageId l

theorem SameView.findThread {w w' : World} (h : SameView senderEmail w w') (msg : EmailMessage) :
    ThreadMatcher.findThread w msg senderEmail = ThreadMatcher.findThread w' msg senderEmail := by
  have hreference : ThreadMatcher.findReference w senderEmail = ThreadMatcher.findReference w' senderEmail := by
    funext ref
    rw [ThreadMatcher.findReference, findByResponse_eq, findByLastResponse_eq, h.jobs, h.links,
      ThreadMatcher.findReference,
      findByResponse_eq, findByLastResponse_eq]
  have howned : ∀ jobId, JobStore.findOwned w jobId senderEmail = JobStore.findOwned w' jobId senderEmail := by
    intro jobId
    rw [findOwned_eq, findOwned_eq, h.jobs]
  simp only [ThreadMatcher.findThread, hreference, howned]

/-! ### What is written -/

/-- The view, and the mails since `a` and `b`. -/
def Views (senderEmail : Text) (a b w w' : World) : Prop := SameView senderEmail w w' ∧ SameMails a b w w'

variable {a b w w' : World}

theorem SameView.views (h : SameView senderEmail a b) : Views senderEmail a b a b :=
  ⟨h, [], [], by simp, by simp, rfl⟩

theorem Views.of_same {v v' : World} (h : Views senderEmail a b w w')
    (hv : v = { w with ticks := v.ticks, processedMessages := v.processedMessages, seen := v.seen })
    (hv' : v' = { w' with ticks := v'.ticks, processedMessages := v'.processedMessages, seen := v'.seen })
    (hticks : v.ticks = v'.ticks) : Views senderEmail a b v v' := by
  rw [hv, hv']
  exact ⟨⟨h.1.jobs, h.1.links, h.1.files, hticks⟩, h.2⟩

theorem Views.tick (h : Views senderEmail a b w w') : Views senderEmail a b w.tick w'.tick :=
  h.of_same rfl rfl (congrArg (· + 1) h.1.ticks)

theorem SameView.now (h : SameView senderEmail w w') (out : Outside) : w.now out = w'.now out :=
  congrArg out.clock h.ticks

theorem Views.modifyJob (h : Views senderEmail a b w w') (jobId : Text) (f : Job → Job)
    (hf : ∀ j, (f j).jobId = j.jobId)
    (hsender : ∀ j, (f j).senderEmail = j.senderEmail) :
    Views senderEmail a b (w.modifyJob jobId f hf) (w'.modifyJob jobId f hf) := by
  obtain ⟨⟨hjobs, hlinks, hfiles, hticks⟩, hmails⟩ := h
  have howner : ∀ j, decide ((f j).OwnedBy senderEmail) = decide (j.OwnedBy senderEmail) := by
    intro j
    exact decide_eq_decide.2 (by simp only [Job.OwnedBy, hsender])
  have hrows : ∀ v : World, ownJobs senderEmail (v.modifyJob jobId f hf) =
      (ownJobs senderEmail v).map fun j => if j.jobId = jobId then f j else j :=
    fun v => Table.filter_modify _ _ _ _ hf howner
  have hids : ∀ v : World, ownIds senderEmail (v.modifyJob jobId f hf) = ownIds senderEmail v := by
    intro v
    rw [ownIds, hrows, List.map_map, ownIds]
    refine List.map_congr_left fun j _ => ?_
    show (if j.jobId = jobId then f j else j).jobId = j.jobId
    split_ifs
    · exact hf j
    · rfl
  refine ⟨⟨?_, ?_, hfiles, hticks⟩, hmails⟩
  · rw [hrows, hrows, hjobs]
  · rw [ownLinks, hids, ownLinks, hids]
    exact hlinks

theorem Views.append (h : Views senderEmail a b w w') {row : Nat → OutboxMessage} {hrow : ∀ n, (row n).id = n}
    (hcontent : ∀ n n', (row n).content = (row n').content) :
    Views senderEmail a b { w with outbox := w.outbox.append row hrow }
      { w' with outbox := w'.outbox.append row hrow } := by
  obtain ⟨⟨hjobs, hlinks, hfiles, hticks⟩, new, new', hnew, hnew', hsame⟩ := h
  refine ⟨⟨hjobs, hlinks, hfiles, hticks⟩, new ++ [row w.outbox.next], new' ++ [row w'.outbox.next], ?_, ?_, ?_⟩
  · show w.outbox.rows ++ [row w.outbox.next] = _
    rw [hnew, List.append_assoc]
  · show w'.outbox.rows ++ [row w'.outbox.next] = _
    rw [hnew', List.append_assoc]
  · rw [List.map_append, List.map_append, hsame]
    exact congrArg (fun m => new'.map OutboxMessage.content ++ [m]) (hcontent _ _)

/-! ### Programs -/

variable {α : Type}

/-- The program keeps the views the same, and gives one result. -/
abbrev AlikeFor (senderEmail : Text) (a b : World) (p : M α) : Prop :=
  Alike (Views senderEmail a b) (fun _ => Views senderEmail a b) p

/-- The worlds are still related, and the result, if there is one, is in `P`. -/
def Giving (senderEmail : Text) (a b : World) (P : α → Prop) (x : Except Exc α) (w w' : World) : Prop :=
  Views senderEmail a b w w' ∧ ∀ y, x = .ok y → P y

theorem Views.raises (h : Views senderEmail a b w w') (P : α → Prop) (e : Exc) :
    Giving senderEmail a b P (.error e) w w' :=
  ⟨h, by rintro y ⟨⟩⟩

theorem Views.gives (h : Views senderEmail a b w w') {P : α → Prop} {y : α} (hy : P y) :
    Giving senderEmail a b P (.ok y) w w' :=
  ⟨h, by rintro _ ⟨⟩; exact hy⟩

theorem utcnow_alike (out : Outside) : AlikeFor senderEmail a b (utcnow out) :=
  alike_atomic (fun _ _ h => congrArg Except.ok (h.1.now out)) fun _ _ h => h.tick

omit [PyChars] in
theorem catching_alike (kinds : List ExcKind) {S : World → World → Prop} {T : Except Exc α → World → World → Prop}
    {p : M α} (hp : Alike S T p) : Alike S (fun x => T (x.bind id)) (catching kinds p) := by
  have hvalue : Alike S (fun x => T (x.bind id)) (Except.ok <$> p) :=
    hp.bind (fun _ => alike_ret fun _ _ h => h) fun _ _ _ h => h
  refine hvalue.tryCatch (fun _ _ _ h => h) fun e => ?_
  split_ifs
  · exact alike_ret fun _ _ h => h
  · exact alike_raise fun _ _ h => h

theorem matchJob_alike (msg : EmailMessage) : AlikeFor senderEmail a b (ThreadMatcher.matchJob msg senderEmail) := by
  intro s s' hs
  rw [ThreadMatcher.matchJob_run, ThreadMatcher.matchJob_run]
  exact ⟨congrArg Except.ok (hs.1.findThread msg), hs⟩

theorem getOwned_alike (jobId : Text) :
    Alike (Views senderEmail a b)
      (fun x s s' => Views senderEmail a b s s' ∧ ∀ job, x = .ok (some job) → job ∈ ownJobs senderEmail s)
      (JobStore.getOwned jobId senderEmail) := by
  refine alike_observe (fun s s' h => ?_) fun s s' h => ⟨h, fun job hjob => ?_⟩
  · rw [findOwned_eq, findOwned_eq, h.1.jobs]
  · rw [findOwned_eq] at hjob
    exact List.mem_of_find?_eq_some (Except.ok.inj hjob)

theorem stamp_alike (out : Outside) (wanted : Prop) [Decidable wanted] (column : Option Instant → JobField) :
    AlikeFor senderEmail a b (JobStore.stamp out wanted column) := by
  unfold JobStore.stamp
  split_ifs
  · exact (utcnow_alike out).then fun _ => alike_ret fun _ _ h => h
  · exact alike_ret fun _ _ h => h

theorem setStatus_alike (out : Outside) (job : Job) (new : JobState) (extra : List JobField) :
    Alike (fun s s' => Views senderEmail a b s s' ∧ job ∈ ownJobs senderEmail s) (fun _ => Views senderEmail a b)
      (JobStore.setStatus out job.jobId new extra) := by
  have hread : Alike (fun s s' => Views senderEmail a b s s' ∧ job ∈ ownJobs senderEmail s)
      (fun _ => Views senderEmail a b)
      (observe .selectJobs fun w : World => (w.jobs.find? job.jobId).map Job.status : M (Option JobState)) := by
    refine alike_observe (fun s s' h => ?_) fun _ _ h => h.1
    have hmem' : job ∈ ownJobs senderEmail s' := h.1.1.jobs ▸ h.2
    rw [Table.find?_of_mem (List.mem_filter.1 h.2).1, Table.find?_of_mem (List.mem_filter.1 hmem').1]
  refine hread.bind (fun row => ?_) fun _ _ _ h => h
  cases row with
  | none => exact alike_raise fun _ _ h => h
  | some current =>
    simp only
    split_ifs
    · exact alike_raise fun _ _ h => h
    · refine (stamp_alike out _ _).then fun started => (stamp_alike out _ _).then fun completed => ?_
      exact alike_change fun _ _ h => h.modifyJob _ _ _ fun _ => by simp

/-- A mail to the sender. The number that the outbox gives it is not used. -/
theorem enqueue_alike (out : Outside) (toEmail subject bodyText : Text) (jobId : Option Text) (attachments : List Text)
    (inReplyTo references : Option Text) :
    AlikeFor senderEmail a b
      ((Outbox.enqueue out toEmail subject bodyText jobId attachments inReplyTo references).bind fun _ => ret ()) := by
  rw [Outbox.enqueue, bind_eq, bind_assoc]
  refine (utcnow_alike out).then fun createdAt => ?_
  intro s s' hs
  exact ⟨rfl, hs.append fun _ _ => rfl⟩

theorem fileExists_alike (path : Text) : AlikeFor senderEmail a b (fileExists path) :=
  alike_observe (fun _ _ h => by rw [h.1.files]) fun _ _ h => h

theorem resultFile_alike (job : Job) : AlikeFor senderEmail a b (ResultsHandler.resultFile job) := by
  unfold ResultsHandler.resultFile
  cases truthy job.attachmentStoragePath with
  | none => exact alike_ret fun _ _ h => h
  | some path =>
    simp only
    split_ifs
    · exact (fileExists_alike path).then fun _ => alike_ret fun _ _ h => h
    · exact alike_ret fun _ _ h => h

section
variable (out : Outside) (cmd : ValidatedCommand) (req : Request)

theorem request_alike (mail : Rendered) (jobId : Option Text) (attachments : List Text) :
    AlikeFor senderEmail a b (req.enqueue out mail jobId attachments) :=
  enqueue_alike out _ _ _ _ _ _ _

theorem reply_alike (mail : Rendered) (jobId : Option Text) (attachments : List Text) (outcome : HandlerOutcome) :
    AlikeFor senderEmail a b ((req.enqueue out mail jobId attachments).bind fun _ => ret outcome) :=
  (request_alike out req mail jobId attachments).then fun _ => alike_ret fun _ _ h => h

variable (hreq : req.senderEmail = senderEmail)
include hreq

theorem ownedJob_alike :
    Alike (Views senderEmail a b)
      (fun x s s' => Views senderEmail a b s s' ∧ ∀ job, x = .ok job → job ∈ ownJobs senderEmail s)
      (ownedJob cmd req) := by
  subst hreq
  have hnamed : Alike (Views req.senderEmail a b)
      (fun x s s' => Views req.senderEmail a b s s' ∧ ∀ job, x = .ok (some job) → job ∈ ownJobs req.senderEmail s)
      (namedJob cmd req) := by
    unfold namedJob
    cases cmd.jobId with
    | some jobId => exact getOwned_alike jobId
    | none => exact alike_ret fun _ _ h => ⟨h, by rintro job ⟨⟩⟩
  refine hnamed.bind (fun job => ?_) fun _ _ _ h => ⟨h.1, by rintro job ⟨⟩⟩
  cases job with
  | none => exact alike_raise fun _ _ h => ⟨h.1, by rintro job ⟨⟩⟩
  | some job =>
    refine alike_ret fun _ _ h => ⟨h.1, ?_⟩
    rintro job' ⟨⟩
    exact h.2 job rfl

theorem status_alike : AlikeFor senderEmail a b (StatusHandler.handle out cmd req) := by
  refine (ownedJob_alike cmd req hreq).bind (fun job => ?_) fun _ _ _ h => h.1
  exact (reply_alike out req _ _ _ _).weaken fun _ _ h => h.1

theorem results_alike : AlikeFor senderEmail a b (ResultsHandler.handle out cmd req) := by
  refine (ownedJob_alike cmd req hreq).bind (fun job => ?_) fun _ _ _ h => h.1
  refine Alike.weaken ?_ fun _ _ h => h.1
  exact (resultFile_alike job).then fun _ => reply_alike out req _ _ _ _

theorem cancel_alike : AlikeFor senderEmail a b (CancelHandler.handle out cmd req) := by
  refine (ownedJob_alike cmd req hreq).bind (fun job => ?_) fun _ _ _ h => h.1
  split_ifs
  · refine Alike.bind (T := fun _ => Views senderEmail a b) ?_ (fun _ => reply_alike out req _ _ _ _) fun _ _ _ h => h
    exact (setStatus_alike out job _ _).weaken fun _ _ h => ⟨h.1, h.2 job rfl⟩
  · exact (reply_alike out req _ _ _ _).weaken fun _ _ h => h.1

end

section
variable {cmd : ParsedCommand} (hop : cmd.operation.NamesJob)

include hop in
theorem validateCommand_alike (attachments : List AttachmentMeta) (threadJobId : Option Text)
    (limits : LimitsSettings) :
    Alike (Views senderEmail a b) (Giving senderEmail a b fun validated => validated.operation.NamesJob)
      (validateCommand cmd { attachments, threadJobId, senderEmail, limits }) := by
  cases hclear : cmd.requiresClarification with
  | true =>
    rw [validateCommand, if_pos hclear]
    exact alike_raise fun _ _ h => h.raises _ _
  | false =>
    rw [validateCommand_namesJob hop hclear, validateJobReferenceOperation]
    split
    · exact alike_raise fun _ _ h => h.raises _ _
    · refine (getOwned_alike _).bind (fun job => ?_) fun _ _ _ h => h.1.raises _ _
      cases job with
      | none => exact alike_raise fun _ _ h => h.1.raises _ _
      | some job => exact alike_ret fun _ _ h => h.1.gives hop

end

/-! ### Commands -/

section
variable (out : Outside) (p : EmailProcessingPipeline) (cmd : ParsedCommand) (msg : EmailMessage) (senderUserId : Nat)

/-- Match the thread, validate the command, and call its handler. -/
def handleFor (senderEmail : Text) : M HandlerOutcome := do
  let found ← validateFor p.limits cmd msg senderEmail
  p.callHandler out found.2 msg senderEmail senderUserId

/-- Match the thread, and carry out the command, with the replies to refusals. -/
def serve (senderEmail : Text) : M Unit := do
  let threadJobId ← ThreadMatcher.matchJob msg senderEmail
  p.runCommand out msg senderEmail senderUserId threadJobId cmd

variable {cmd}

theorem conclude_alike (outcome : Text) (jobId operation : Option Text) :
    AlikeFor senderEmail a b (EmailProcessingPipeline.conclude out msg outcome jobId operation) := by
  refine ((utcnow_alike out).then fun _ => ?_).then fun _ => ?_
  · exact alike_change fun _ _ h => h.of_same rfl rfl h.1.ticks
  · exact alike_change fun _ _ h => h.of_same rfl rfl h.1.ticks

theorem replyToRefusal_alike (e : Exc) (threadJobId : Option Text) (operation : Operation) :
    AlikeFor senderEmail a b (EmailProcessingPipeline.replyToRefusal out msg e threadJobId operation) := by
  unfold EmailProcessingPipeline.replyToRefusal
  split_ifs
  · exact (enqueue_alike out _ _ _ _ _ _ _).then fun _ => conclude_alike out msg _ _ _
  · exact (enqueue_alike out _ _ _ _ _ _ _).then fun _ => conclude_alike out msg _ _ _

theorem callHandler_alike (validated : ValidatedCommand) (hop : validated.operation.NamesJob) :
    AlikeFor senderEmail a b (p.callHandler out validated msg senderEmail senderUserId) := by
  unfold EmailProcessingPipeline.callHandler
  rcases hop with hop | hop | hop <;> rw [hop]
  · exact status_alike out validated _ rfl
  · exact results_alike out validated _ rfl
  · exact cancel_alike out validated _ rfl

variable (hop : cmd.operation.NamesJob)
include hop

theorem handleFor_alike : AlikeFor senderEmail a b (handleFor out p cmd msg senderUserId senderEmail) := by
  have hvalidate : Alike (Views senderEmail a b) (Giving senderEmail a b fun found => found.2.operation.NamesJob)
      (validateFor p.limits cmd msg senderEmail) := by
    refine (matchJob_alike msg).bind (fun threadJobId => ?_) fun _ _ _ h => h.raises _ _
    refine (validateCommand_alike hop _ _ _).bind (fun validated => ?_) fun _ _ _ h => h.1.raises _ _
    exact alike_ret fun _ _ h => h.1.gives (h.2 validated rfl)
  refine hvalidate.bind (fun found => alike_of_fact fun hfound => ?_) fun _ _ _ h => h.1
  exact callHandler_alike out p msg senderUserId found.2 (hfound found rfl)

theorem serve_alike : AlikeFor senderEmail a b (serve out p cmd msg senderUserId senderEmail) := by
  refine (matchJob_alike msg).then fun threadJobId => ?_
  refine (catching_alike _ (validateCommand_alike hop _ _ _)).bind (fun validated => ?_) fun _ _ _ h => h.1
  refine alike_of_fact fun hvalidated => ?_
  cases validated with
  | error e => exact replyToRefusal_alike out msg e threadJobId _
  | ok validated =>
    have hdispatch : AlikeFor senderEmail a b (p.dispatch out validated msg senderEmail senderUserId) :=
      (callHandler_alike out p msg senderUserId validated (hvalidated validated rfl)).then fun _ =>
        alike_ret fun _ _ h => h
    refine (catching_alike _ hdispatch).then fun jobId => ?_
    cases jobId with
    | error e => exact replyToRefusal_alike out msg e threadJobId _
    | ok jobId => exact conclude_alike out msg _ _ _

end

theorem unobservable_of_alike {p : M α} (hp : ∀ a b, AlikeFor senderEmail a b p) : Unobservable senderEmail p := by
  intro a b hview
  obtain ⟨hres, hend, hmails⟩ := hp a b a b hview.views
  exact ⟨hres, hend, hmails⟩

end

section
variable [PyChars]

/-- **The jobs of others cannot be observed.** -/
theorem othersJobs_unobservable (out : Outside) (p : EmailProcessingPipeline) (cmd : ParsedCommand)
    (hop : cmd.operation.NamesJob) (msg : EmailMessage) (senderUserId : Nat) (senderEmail : Text) :
    Unobservable senderEmail (ThreadMatcher.matchJob msg senderEmail) ∧
      Unobservable senderEmail (handleFor out p cmd msg senderUserId senderEmail) ∧
        Unobservable senderEmail (serve out p cmd msg senderUserId senderEmail) :=
  ⟨unobservable_of_alike fun _ _ => matchJob_alike msg,
    unobservable_of_alike fun _ _ => handleFor_alike out p msg senderUserId hop,
    unobservable_of_alike fun _ _ => serve_alike out p msg senderUserId hop⟩

end

section
attribute [local instance] asciiChars

/-- The command that cancels a job. -/
theorem cancel_unobservable :
    Unobservable "alice@uni.ac.uk" (ThreadMatcher.matchJob cancelMessage "alice@uni.ac.uk") ∧
      Unobservable "alice@uni.ac.uk" (handleFor .plain smallPipeline cancelFirst cancelMessage 12 "alice@uni.ac.uk") ∧
        Unobservable "alice@uni.ac.uk" (serve .plain smallPipeline cancelFirst cancelMessage 12 "alice@uni.ac.uk") :=
  othersJobs_unobservable .plain smallPipeline cancelFirst (by decide) cancelMessage 12 "alice@uni.ac.uk"

end

end GroupAssessmentAgent
