import GroupAssessmentAgent.Jobs.Effects
import GroupAssessmentAgent.Pipeline

/-!
# What handling a message leaves alone

Everything on the way from `begin` to `conclude` consists of the statements that `Covers` lists, with those of
`CoversModel` where the model is asked, of `CoversNewJobs` in the accepting handlers, and of `CoversMarks` in
`conclude`: one lemma for each operation, from the handlers to the branches of the pipeline and to the whole poll. In
particular a `φ` that overlooks these statements is kept (`Keeps φ` is an instance of `Always`).
-/

namespace GroupAssessmentAgent
open Prog

/-- A mail to this address, filed under this job, with these attachments. -/
structure MailTo (toEmail : Text) (jobId : Option Text) (attachments : List Text) (m : OutboxMessage) : Prop where
  address : m.toEmail = toEmail
  job : m.jobId = jobId
  files : m.attachments = attachments

section
variable {A : Stmt → (World → World) → Prop} {J : Text → Prop} {T : OutboxMessage → Prop} (hA : Covers A J T)
  (out : Outside)
include hA

/-! ### Mails -/

theorem request_mails (req : Request) (mail : Rendered) (jobId : Option Text) (attachments : List Text)
    (hmail : ∀ m, MailTo req.senderEmail jobId attachments m → T m) :
    Always A (req.enqueue out mail jobId attachments) :=
  (enqueue_always hA out _ _ _ _ _ _ _ fun _ _ => hmail _ ⟨rfl, rfl, rfl⟩).bind fun _ => trivial

theorem request_always (req : Request) (mail : Rendered) (jobId : Option Text) (attachments : List Text)
    (hmail : ∀ m : OutboxMessage, m.toEmail = req.senderEmail → m.attachments = attachments → T m) :
    Always A (req.enqueue out mail jobId attachments) :=
  request_mails hA out req mail jobId attachments fun m hm => hmail m hm.address hm.files

theorem replyTo_mails (msg : EmailMessage) (toEmail : Text) (mail : Rendered) (jobId : Option Text)
    (hmail : ∀ m, MailTo toEmail jobId [] m → T m) :
    Always A (EmailProcessingPipeline.replyTo out msg toEmail mail jobId) :=
  (enqueue_always hA out _ _ _ _ _ _ _ fun _ _ => hmail _ ⟨rfl, rfl, rfl⟩).bind fun _ => trivial

theorem replyTo_always (msg : EmailMessage) (toEmail : Text) (mail : Rendered) (jobId : Option Text)
    (hmail : ∀ m : OutboxMessage, m.toEmail = toEmail → m.attachments = [] → T m) :
    Always A (EmailProcessingPipeline.replyTo out msg toEmail mail jobId) :=
  replyTo_mails hA out msg toEmail mail jobId fun m hm => hmail m hm.address hm.files

/-! ### Files -/

theorem saveIncoming_always (content : Bytes) (name dir : Text) : Always A (saveIncoming out content name dir) :=
  always_atomic (hA.files _ _ (.inl rfl) fun _ => ⟨_, _, rfl⟩)

theorem moveTo_always (path dir : Text) : Always A (moveTo path dir) := by
  refine always_atomic (hA.files _ _ (.inr rfl) fun w => ?_)
  simp only
  split
  · exact ⟨_, w.uuids, rfl⟩
  · exact ⟨w.files, w.uuids, rfl⟩

theorem fileExists_always (path : Text) : Always A (fileExists path) :=
  always_observe (hA.look _ rfl) _

theorem readBytes_always (path : Text) : Always A (readBytes path) :=
  always_observeE (hA.look _ rfl) _

theorem parseVtt_always [PyChars] (path : Text) : Always A (parseVtt out path) :=
  (readBytes_always hA path).bind fun _ => (always_ofExcept _).bind fun _ => always_ofExcept _

/-! ### The model -/

omit hA in
theorem generateText_always (hmodel : CoversModel A) (systemPrompt userPrompt : Text) :
    Always A (generateText out systemPrompt userPrompt) :=
  always_atomic hmodel.generate

theorem reply_mails (hmodel : CoversModel A) (msg : EmailMessage) (reportId : Text)
    (hmail : ∀ m, MailTo msg.fromAddress (some reportId) [] m → T m) :
    Always A (WeeklyReportReplyService.reply out msg reportId) := by
  refine ⟨hA.look .selectReports rfl, fun w => ?_, fun _ => trivial⟩
  simp only [ret_bind]
  cases hreport : w.weeklyReports.find? reportId with
  | none => trivial
  | some report =>
    refine Always.bind (always_observe (hA.look _ rfl) _) fun items => ?_
    refine (generateText_always out hmodel _ _).bind fun _ => ?_
    refine (enqueue_always hA out _ _ _ _ _ _ _ fun _ _ => hmail _ ⟨rfl, ?_, rfl⟩).bind fun _ => trivial
    exact congrArg some (Table.find?_key hreport)

theorem reply_always (hmodel : CoversModel A) (msg : EmailMessage) (reportId : Text)
    (hmail : ∀ m : OutboxMessage, m.toEmail = msg.fromAddress → m.attachments = [] → T m) :
    Always A (WeeklyReportReplyService.reply out msg reportId) :=
  reply_mails hA out hmodel msg reportId fun m hm => hmail m hm.address hm.files

section
variable [PyChars]

omit hA in
theorem parseEmail_always (hmodel : CoversModel A) (p : EmailCommandParser) (bodyText : Text) (names : List Text)
    (threadJobId : Option Text) : Always A (p.parseEmail out bodyText names threadJobId) := by
  have hattempts : ∀ (n : Nat) (userPrompt systemPrompt lastError : Text),
      Always A (p.attemptFrom out userPrompt n systemPrompt lastError) := by
    intro n userPrompt
    induction n with
    | zero => exact fun _ _ => trivial
    | succ n ih =>
      intro systemPrompt lastError
      refine (generateText_always out hmodel systemPrompt userPrompt).bind fun raw => ?_
      cases EmailCommandParser.readCommand out raw with
      | ok cmd => trivial
      | error text => exact ih _ _
  exact hattempts _ _ _ _

/-! ### Reading -/

omit [PyChars] in
theorem matchReferences_always (senderEmail : Text) (refs : List Text) :
    Always A (ThreadMatcher.matchReferences senderEmail refs) := by
  induction refs with
  | nil => trivial
  | cons ref refs ih =>
    have hone : Always A (ThreadMatcher.matchReference senderEmail ref) := by
      refine Always.bind (always_observe (hA.look _ rfl) _) fun job => ?_
      cases job with
      | some job => trivial
      | none => exact always_observe (hA.look _ rfl) _
    refine hone.bind fun job => ?_
    cases job with
    | some job => trivial
    | none => exact ih

theorem matchJob_always (msg : EmailMessage) (senderEmail : Text) :
    Always A (ThreadMatcher.matchJob msg senderEmail) := by
  refine (matchReferences_always hA senderEmail _).bind fun found => ?_
  cases found with
  | some jobId => trivial
  | none =>
    simp only
    split
    · exact Always.bind (always_observe (hA.look _ rfl) _) fun _ => trivial
    · trivial

theorem matchReport_always (msg : EmailMessage) (senderEmail : Text) :
    Always A (EmailProcessingPipeline.matchReport msg senderEmail) := by
  have hmessage : ∀ ids, Always A (EmailProcessingPipeline.reportByMessageId senderEmail ids) := by
    intro ids
    induction ids with
    | nil => trivial
    | cons id ids ih =>
      refine Always.bind (always_observe (hA.look _ rfl) _) fun report => ?_
      cases report with
      | some report => trivial
      | none => exact ih
  have hid : ∀ ids, Always A (EmailProcessingPipeline.reportById senderEmail ids) := by
    intro ids
    induction ids with
    | nil => trivial
    | cons id ids ih =>
      refine Always.bind (always_observe (hA.look _ rfl) _) fun report => ?_
      split
      · trivial
      · exact ih
  refine Always.bind (always_ofExcept _) fun ids => (hmessage ids).bind fun report => ?_
  cases report with
  | some report => trivial
  | none => exact hid _

theorem getOwned_always (jobId senderEmail : Text) : Always A (JobStore.getOwned jobId senderEmail) :=
  always_observe (hA.look _ rfl) _

theorem validateCommand_always (cmd : ParsedCommand) (ctx : ValidationContext) :
    Always A (validateCommand cmd ctx) := by
  have hreference : Always A (validateJobReferenceOperation cmd ctx) := by
    unfold validateJobReferenceOperation
    split
    · trivial
    · refine (getOwned_always hA _ _).bind fun job => ?_
      cases job <;> trivial
  unfold validateCommand
  split_ifs
  · trivial
  · cases cmd.operation with
    | submitTranscript => exact always_ofExcept _
    | assessQuery => exact always_ofExcept _
    | help => trivial
    | status => exact hreference
    | results => exact hreference
    | cancel => exact hreference

/-! ### Handlers -/

theorem ownedJob_always (cmd : ValidatedCommand) (req : Request) : Always A (ownedJob cmd req) := by
  have hnamed : Always A (namedJob cmd req) := by
    unfold namedJob
    cases cmd.jobId with
    | some jobId => exact getOwned_always hA _ _
    | none => trivial
  refine hnamed.bind fun job => ?_
  cases job <;> trivial

omit [PyChars] in
theorem resultFile_always (job : Job) : Always A (ResultsHandler.resultFile job) := by
  unfold ResultsHandler.resultFile
  cases truthy job.attachmentStoragePath with
  | none => trivial
  | some path =>
    simp only
    split_ifs
    · exact (fileExists_always hA path).bind fun _ => trivial
    · trivial

section
variable (cmd : ValidatedCommand) (req : Request)

section
variable (hmail : ∀ m : OutboxMessage, m.toEmail = req.senderEmail → m.attachments = [] → T m)
include hmail

theorem status_always : Always A (StatusHandler.handle out cmd req) :=
  (ownedJob_always hA cmd req).bind fun _ => (request_always hA out req _ _ _ hmail).bind fun _ => trivial

theorem cancel_always (hJ : ∀ jobId, J jobId) : Always A (CancelHandler.handle out cmd req) := by
  refine (ownedJob_always hA cmd req).bind fun job => ?_
  split_ifs
  · refine (setStatus_always hA out (hJ _) _ _).bind fun _ => ?_
    exact (request_always hA out req _ _ _ hmail).bind fun _ => trivial
  · exact (request_always hA out req _ _ _ hmail).bind fun _ => trivial

omit [PyChars] in
theorem help_always : Always A (HelpHandler.handle out req) :=
  (request_always hA out req _ _ _ hmail).bind fun _ => trivial

end

section
variable {jobId : Text} (hjob : J jobId) (hmail : ∀ m, MailTo req.senderEmail (some jobId) [] m → T m)
include hjob hmail

omit [PyChars] in
theorem acceptParsed_mails (filename : Text) (receivedAt : Datetime) (vtt : ParsedVtt) :
    Always A (SubmitTranscript.acceptParsed out cmd req jobId filename receivedAt vtt) := by
  refine Always.bind (always_ofExcept _) fun date => ?_
  refine (update_always hA hjob _).bind fun _ => (setStatus_always hA out hjob _ _).bind fun _ => ?_
  exact (request_mails hA out req _ _ _ hmail).bind fun _ => trivial

omit [PyChars] in
theorem acceptFailed_mails (storage : StorageSettings) (storedPath : Text) (e : Exc) :
    Always A (SubmitTranscript.acceptFailed out req storage jobId storedPath e) := by
  have hmove : Always A (SubmitTranscript.moveFailed storage jobId storedPath) := by
    refine (fileExists_always hA storedPath).bind fun found => ?_
    split_ifs
    · exact (moveTo_always hA _ _).bind fun _ => update_always hA hjob _
    · trivial
  refine (setStatus_always hA out hjob _ _).bind fun _ => Always.bind ?_ fun _ => trivial
  exact hmove.bind fun _ => request_mails hA out req _ _ _ hmail

theorem acceptCreated_mails (storage : StorageSettings) (receivedAt : Datetime) (attachment : Attachment)
    (filename : Text) :
    Always A (SubmitTranscript.acceptCreated out cmd req storage receivedAt attachment filename jobId) := by
  refine (setStatus_always hA out hjob _ _).bind fun _ => (saveIncoming_always hA out _ _ _).bind fun storedPath => ?_
  refine (update_always hA hjob _).bind fun _ => (catching_always _ (parseVtt_always hA out _)).bind fun parsed => ?_
  cases parsed with
  | ok vtt => exact acceptParsed_mails hA out cmd req hjob hmail _ _ vtt
  | error e => exact acceptFailed_mails hA out req hjob hmail storage _ e

end

section
variable (hmail : ∀ m : OutboxMessage, m.toEmail = req.senderEmail → m.attachments = [] → T m)
include hmail

theorem acceptCreated_always {jobId : Text} (hjob : J jobId) (storage : StorageSettings) (receivedAt : Datetime)
    (attachment : Attachment) (filename : Text) :
    Always A (SubmitTranscript.acceptCreated out cmd req storage receivedAt attachment filename jobId) :=
  acceptCreated_mails hA out cmd req hjob (fun m hm => hmail m hm.address hm.files) storage receivedAt attachment filename

end

theorem results_always (hmail : ∀ m : OutboxMessage, m.toEmail = req.senderEmail → T m) :
    Always A (ResultsHandler.handle out cmd req) := by
  refine (ownedJob_always hA cmd req).bind fun job => (resultFile_always hA job).bind fun _ => ?_
  exact (request_always hA out req _ _ _ fun m hm _ => hmail m hm).bind fun _ => trivial

end

omit [PyChars] hA in
theorem createdJobId_always (job : Option Job) : Always A (createdJobId job) := by
  cases job <;> trivial

theorem dispatch_always (hJ : ∀ jobId, J jobId) (hnew : CoversNewJobs A fun _ => True) (p : EmailProcessingPipeline)
    (cmd : ValidatedCommand) (msg : EmailMessage) (senderEmail : Text) (userId : Nat)
    (hmail : ∀ m : OutboxMessage, m.toEmail = senderEmail → T m) :
    Always A (p.dispatch out cmd msg senderEmail userId) := by
  have hplain : ∀ m : OutboxMessage, m.toEmail = senderEmail → m.attachments = [] → T m := fun m hm _ => hmail m hm
  refine Always.bind ?_ fun _ => trivial
  unfold EmailProcessingPipeline.callHandler
  cases cmd.operation with
  | submitTranscript =>
    simp only [SubmitTranscript.accept]
    split
    · trivial
    · split
      · trivial
      · refine (createJob_always hA out hnew _ _ _ _ _ fun _ _ => trivial).bind fun job => ?_
        refine (createdJobId_always job).bind fun jobId => ?_
        exact acceptCreated_always hA out cmd _ hplain (hJ jobId) _ _ _ _
  | status => exact status_always hA out cmd _ hplain
  | results => exact results_always hA out cmd _ hmail
  | cancel => exact cancel_always hA out cmd _ hplain hJ
  | assessQuery =>
    refine (createJob_always hA out hnew _ _ _ _ _ fun _ _ => trivial).bind fun job => ?_
    refine (createdJobId_always job).bind fun jobId => (setStatus_always hA out (hJ jobId) _ _).bind fun _ => ?_
    refine (setStatus_always hA out (hJ jobId) _ _).bind fun _ => ?_
    exact (request_always hA out _ _ _ _ hplain).bind fun _ => trivial
  | help => exact help_always hA out _ hplain

/-! ### Concluding -/

section
variable {K : Text → Prop} (hledger : CoversMarks A K)
include hledger

omit [PyChars] hA in
theorem markProcessed_always (providerRef : Text) : Always A (markProcessed providerRef) :=
  always_change (hledger.mark _)

section
variable (msg : EmailMessage) (hid : K msg.messageId)
include hid

omit [PyChars] in
theorem conclude_always (outcome : Text) (jobId operation : Option Text) :
    Always A (EmailProcessingPipeline.conclude out msg outcome jobId operation) :=
  (finalize_always hA out hledger.toCoversLedger hid _ _ _).bind fun _ => markProcessed_always hledger _

omit [PyChars] in
theorem replyAndConclude_mails (toEmail : Text) (mail : Rendered) (replyJobId : Option Text) (outcome : Text)
    (jobId operation : Option Text) (hmail : ∀ m, MailTo toEmail replyJobId [] m → T m) :
    Always A (do
      EmailProcessingPipeline.replyTo out msg toEmail mail replyJobId
      EmailProcessingPipeline.conclude out msg outcome jobId operation
      return true) := by
  refine (replyTo_mails hA out _ _ _ _ hmail).bind fun _ => ?_
  exact (conclude_always hA out hledger msg hid _ _ _).bind fun _ => trivial

omit [PyChars] in
theorem replyAndConclude_always (toEmail : Text) (mail : Rendered) (replyJobId : Option Text) (outcome : Text)
    (jobId operation : Option Text) (hmail : ∀ m : OutboxMessage, m.toEmail = toEmail → m.attachments = [] → T m) :
    Always A (do
      EmailProcessingPipeline.replyTo out msg toEmail mail replyJobId
      EmailProcessingPipeline.conclude out msg outcome jobId operation
      return true) :=
  replyAndConclude_mails hA out hledger msg hid toEmail mail replyJobId outcome jobId operation
    fun m hm => hmail m hm.address hm.files

section
variable (hmail : ∀ m, MailTo msg.fromAddress none [] m → T m)
include hmail

omit [PyChars] in
theorem replyAndFinalize_mails (mail : Rendered) (outcome : Text) (operation : Option Text) :
    Always A (EmailProcessingPipeline.replyAndFinalize out msg mail outcome operation) :=
  (replyTo_mails hA out _ _ _ _ hmail).bind fun _ => conclude_always hA out hledger msg hid _ _ _

omit [PyChars] in
theorem replyToRefusal_mails (e : Exc) (threadJobId : Option Text) (operation : Operation) :
    Always A (EmailProcessingPipeline.replyToRefusal out msg e threadJobId operation) := by
  unfold EmailProcessingPipeline.replyToRefusal
  split_ifs
  · exact replyAndFinalize_mails hA out hledger msg hid hmail _ _ _
  · exact replyAndFinalize_mails hA out hledger msg hid hmail _ _ _

end

section
variable (hmail : ∀ m : OutboxMessage, m.toEmail = msg.fromAddress → m.attachments = [] → T m)
include hmail

omit [PyChars] in
theorem replyAndFinalize_always (mail : Rendered) (outcome : Text) (operation : Option Text) :
    Always A (EmailProcessingPipeline.replyAndFinalize out msg mail outcome operation) :=
  replyAndFinalize_mails hA out hledger msg hid (fun m hm => hmail m hm.address hm.files) mail outcome operation

omit [PyChars] in
theorem replyToRefusal_always (e : Exc) (threadJobId : Option Text) (operation : Operation) :
    Always A (EmailProcessingPipeline.replyToRefusal out msg e threadJobId operation) :=
  replyToRefusal_mails hA out hledger msg hid (fun m hm => hmail m hm.address hm.files) e threadJobId operation

end

theorem continueThread_mails (hJ : ∀ jobId, J jobId) (senderEmail : Text) (threadJobId : Option Text)
    (hmail : ∀ jobId, truthy threadJobId = some jobId → ∀ m, MailTo senderEmail (some jobId) [] m → T m) :
    Always A (EmailProcessingPipeline.continueThread out msg senderEmail threadJobId) := by
  unfold EmailProcessingPipeline.continueThread
  cases hthread : truthy threadJobId with
  | none => trivial
  | some jobId =>
    have happly : ∀ selected,
        Always A (EmailProcessingPipeline.applyClarification out msg senderEmail jobId selected) := by
      intro selected
      refine (getOwned_always hA _ _).bind fun job => ?_
      split_ifs
      · trivial
      · refine (update_always hA (hJ _) _).bind fun _ => (setStatus_always hA out (hJ _) _ _).bind fun _ => ?_
        refine (delete_always hA (hJ _)).bind fun _ => ?_
        exact replyAndConclude_mails hA out hledger msg hid _ _ _ _ _ _ (hmail jobId hthread)
    refine Always.bind (always_observe (hA.look _ rfl) _) fun pending => ?_
    cases pending with
    | none => trivial
    | some pending =>
      simp only
      split
      · exact happly _
      · exact replyAndConclude_mails hA out hledger msg hid _ _ _ _ _ _ (hmail jobId hthread)

theorem continueThread_always (hJ : ∀ jobId, J jobId) (senderEmail : Text) (threadJobId : Option Text)
    (hmail : ∀ m : OutboxMessage, m.toEmail = senderEmail → m.attachments = [] → T m) :
    Always A (EmailProcessingPipeline.continueThread out msg senderEmail threadJobId) :=
  continueThread_mails hA out hledger msg hid hJ senderEmail threadJobId
    fun _ _ m hm => hmail m hm.address hm.files

omit [PyChars] in
theorem handleStranger_mails (p : EmailProcessingPipeline) (auth : SenderAuthResult)
    (hadmin : ∀ m : OutboxMessage, some m.toEmail = truthy p.admin.adminEmail → m.attachments = [] → m.jobId = none →
      T m)
    (hmail : auth.reason = .unrecognisedInDomain → ∀ m, MailTo auth.senderEmail none [] m → T m) :
    Always A (p.handleStranger out msg auth) := by
  -- both branches alert the admin and conclude
  have hrest : ∀ summary outcome, Always A (do
      let _ ← p.admin.alert out .unauthorisedSender summary []
      EmailProcessingPipeline.conclude out msg outcome none none) := by
    intro summary outcome
    refine (alert_always hA out _ _ _ _ hadmin).bind fun _ => ?_
    exact conclude_always hA out hledger msg hid _ _ _
  unfold EmailProcessingPipeline.handleStranger
  split_ifs with hdomain
  · exact (replyTo_mails hA out _ _ _ _ (hmail hdomain)).bind fun _ => hrest _ _
  · exact hrest _ _

omit [PyChars] in
theorem handleStranger_always (p : EmailProcessingPipeline) (auth : SenderAuthResult)
    (hadmin : ∀ m : OutboxMessage, some m.toEmail = truthy p.admin.adminEmail → m.attachments = [] → T m)
    (hmail : ∀ m : OutboxMessage, m.toEmail = auth.senderEmail → m.attachments = [] → T m) :
    Always A (p.handleStranger out msg auth) :=
  handleStranger_mails hA out hledger msg hid p auth (fun m hto hplain _ => hadmin m hto hplain)
    fun _ m hm => hmail m hm.address hm.files

end

end

end

end

/-! ### A whole poll -/

section
variable [PyChars] {A : Stmt → (World → World) → Prop} (hA : Covers A (fun _ => True) fun _ => True)
  (hmarks : CoversMarks A fun _ => True) (hnew : CoversNewJobs A fun _ => True) (hmodel : CoversModel A)
  (out : Outside) (p : EmailProcessingPipeline)
include hA hmarks hnew hmodel

omit hmodel in
theorem runCommand_always (msg : EmailMessage) (senderEmail : Text) (userId : Nat) (threadJobId : Option Text)
    (cmd : ParsedCommand) : Always A (p.runCommand out msg senderEmail userId threadJobId cmd) := by
  have hrefusal : ∀ e operation, Always A (EmailProcessingPipeline.replyToRefusal out msg e threadJobId operation) :=
    fun e operation => replyToRefusal_always hA out hmarks msg trivial (fun _ _ _ => trivial) e threadJobId operation
  refine (catching_always _ (validateCommand_always hA cmd _)).bind fun validated => ?_
  cases validated with
  | error e => exact hrefusal e _
  | ok cmd =>
    have hdispatch := dispatch_always hA out (fun _ => trivial) hnew p cmd msg senderEmail userId fun _ _ => trivial
    refine (catching_always _ hdispatch).bind fun jobId => ?_
    cases jobId with
    | error e => exact hrefusal e _
    | ok jobId => exact conclude_always hA out hmarks msg trivial _ _ _

theorem handleRequest_always (msg : EmailMessage) (senderEmail : Text) (userId : Nat) :
    Always A (p.handleRequest out msg senderEmail userId) := by
  have halert : ∀ category summary, Always A (p.admin.alert out category summary []) :=
    fun category summary => alert_always hA out _ _ _ _ fun _ _ _ _ => trivial
  refine (matchJob_always hA msg senderEmail).bind fun threadJobId => ?_
  refine (continueThread_always hA out hmarks msg trivial (fun _ => trivial) senderEmail threadJobId
    fun _ _ _ => trivial).bind fun continued => ?_
  split_ifs
  · trivial
  · refine Always.bind (always_observe hmodel.available _) fun available => ?_
    split_ifs
    · refine (catching_always _ (parseEmail_always out hmodel p.parser _ _ _)).bind fun parsed => ?_
      cases parsed with
      | error e =>
        refine (replyAndFinalize_always hA out hmarks msg trivial (fun _ _ _ => trivial) _ _ _).bind fun _ => ?_
        exact (halert _ _).bind fun _ => trivial
      | ok cmd => exact runCommand_always hA hmarks hnew out p msg senderEmail userId threadJobId cmd
    · exact (halert _ _).bind fun _ => trivial

theorem handleOwner_always (msg : EmailMessage) (senderEmail : Text) (userId : Nat) :
    Always A (p.handleOwner out EmailProcessingPipeline.matchReport msg senderEmail userId) := by
  unfold EmailProcessingPipeline.handleOwner
  refine (matchReport_always hA msg senderEmail).bind fun report => ?_
  cases report with
  | none => exact handleRequest_always hA hmarks hnew hmodel out p msg senderEmail userId
  | some report =>
    refine Always.bind (always_observe hmodel.available _) fun available => ?_
    split_ifs
    · refine (reply_always hA out hmodel msg _ fun _ _ _ => trivial).bind fun _ => ?_
      exact conclude_always hA out hmarks msg trivial _ _ _
    · trivial

theorem processMessage_always (msg : EmailMessage) : Always A (p.processMessage out msg) := by
  refine (begin_always hA out hmarks.toCoversLedger trivial _ _).bind fun fresh => ?_
  split_ifs
  · exact markProcessed_always hmarks _
  · exact handleOwner_always hA hmarks hnew hmodel out p msg _ _
  · exact handleStranger_always hA out hmarks msg trivial p _ (fun _ _ _ => trivial) fun _ _ _ => trivial

theorem pollOnce_always (fetched : Except Exc (List EmailMessage)) : Always A (p.pollOnce out fetched) := by
  have hall : ∀ msgs, Always A (p.processAllWith out EmailProcessingPipeline.matchReport msgs) := by
    intro msgs
    induction msgs with
    | nil => trivial
    | cons msg msgs ih =>
      refine Always.bind (Always.tryCatch ?_ fun _ => always_ret ()) fun _ => ih
      exact processMessage_always hA hmarks hnew hmodel out p msg
  refine Always.bind (always_observeE (hA.look _ rfl) _) fun msgs => ?_
  exact (hall msgs).bind fun _ => always_ret _

end

end GroupAssessmentAgent
