import GroupAssessmentAgent.Service.Bookkeeping

/-!
# The mail loop keeps the books

From the handlers to the whole poll: each has one lemma, which begins with what it finds or opens. `KnowsPeople` says
whom an installation knows. The match against the weekly reports may be any that finds only reports of the sender
(`FindsOwn`), and the program's own is one of these.
-/

namespace GroupAssessmentAgent
open Prog

section
variable [PyChars] {known : Text → Prop} {E : Env Stmt World Exc} (out : Outside)

/-! ### Mails -/

omit out in
theorem addressed_about {id address : Text} {files : List Text} {m : OutboxMessage}
    (hm : MailTo address (some id) files m) {w : World} (hw : BelongsTo id address w) :
    w.books.Addressed known m.letter := by
  have hjob : m.letter.jobId = some id := hm.job
  rw [Books.Addressed, hjob]
  show w.books.BelongsTo id m.toEmail
  rw [hm.address]
  exact hw

omit out in
theorem addressed_plain {m : OutboxMessage} (hjob : m.jobId = none) (hknown : known m.toEmail) (w : World) :
    w.books.Addressed known m.letter := by
  have hnone : m.letter.jobId = none := hjob
  rw [Books.Addressed, hnone]
  exact hknown

omit out in
theorem catching_keeping {α : Type} (kinds : List ExcKind) {p : M α} {w : World}
    (hp : Keeping known E (fun _ _ => True) p w) : Keeping known E (fun _ _ => True) (catching kinds p) w := by
  refine Inside.tryCatch BookMoves.refl (Inside.bind BookMoves.refl hp fun _ _ _ _ => trivial) fun e s => ?_
  split_ifs
  · exact fun _ _ => trivial
  · exact fun _ _ => trivial

/-! ### Commands -/

section
variable {senderEmail : Text}

omit out in
theorem ownedJob_bind {α : Type} (cmd : ValidatedCommand) (req : Request) {k : Job → M α}
    (hk : ∀ job, Always (MovesBooks known (BelongsTo job.jobId req.senderEmail)) (k job)) (w : World) :
    Keeping known E (fun _ _ => True) ((ownedJob cmd req).bind k) w := by
  refine RG.bind BookMoves.refl (ownedJob_keeping cmd req w) (fun job s hs => ?_) fun _ _ _ => trivial
  exact (keeping_of_always (belongsTo_stable _ _) (hk job) (hs job rfl _ rfl)).inside

theorem createJob_bind (hsender : known senderEmail) {α : Type} (userId : Nat) (source operation : Text)
    (fields : List JobField) {k : Text → M α}
    (hk : ∀ jobId, Always (MovesBooks known (BelongsTo jobId senderEmail)) (k jobId)) (w : World) :
    Keeping known E (fun _ _ => True)
      ((JobStore.createJob out senderEmail userId source operation fields).bind fun job => (createdJobId job).bind k)
      w := by
  refine RG.bind BookMoves.refl (createJob_keeping hsender out userId source operation fields w) (fun job s hs => ?_)
    fun _ _ _ => trivial
  cases job with
  | none => exact fun _ _ => trivial
  | some job => exact (keeping_of_always (belongsTo_stable _ _) (hk job.jobId) (hs _ rfl _ rfl)).inside

theorem callHandler_keeping (hsender : known senderEmail) (p : EmailProcessingPipeline) (cmd : ValidatedCommand)
    (msg : EmailMessage) (userId : Nat) (w : World) :
    Keeping known E (fun _ _ => True) (p.callHandler out cmd msg senderEmail userId) w := by
  let req : Request := ⟨senderEmail, some msg.messageId, some (replyReferences msg)⟩
  -- the mails of a handler are about the job that it holds
  have hmail : ∀ (jobId : Text) (mail : Rendered) (files : List Text),
      Always (MovesBooks known (BelongsTo jobId senderEmail)) (req.enqueue out mail (some jobId) files) :=
    fun jobId mail files => request_mails covers_books out req mail _ _ fun m hm w hw => addressed_about hm hw
  unfold EmailProcessingPipeline.callHandler
  cases cmd.operation with
  | submitTranscript =>
    simp only [SubmitTranscript.accept]
    split
    · exact fun _ _ => trivial
    · split
      · exact fun _ _ => trivial
      · refine createJob_bind out hsender _ _ _ _ (fun jobId => ?_) w
        exact acceptCreated_mails covers_books out cmd req trivial (fun m hm w hw => addressed_about hm hw) _ _ _ _
  | status =>
    refine ownedJob_bind cmd req (fun job => ?_) w
    exact (hmail _ _ _).bind fun _ => trivial
  | results =>
    refine ownedJob_bind cmd req (fun job => (resultFile_always covers_books job).bind fun files => ?_) w
    exact (hmail _ _ _).bind fun _ => trivial
  | cancel =>
    refine ownedJob_bind cmd req (fun job => ?_) w
    split_ifs
    · refine (setStatus_always covers_books out trivial _ _).bind fun _ => ?_
      exact (hmail _ _ _).bind fun _ => trivial
    · exact (hmail _ _ _).bind fun _ => trivial
  | assessQuery =>
    refine createJob_bind out hsender _ _ _ _ (fun jobId => ?_) w
    refine (setStatus_always covers_books out trivial _ _).bind fun _ => ?_
    refine (setStatus_always covers_books out trivial _ _).bind fun _ => ?_
    exact (hmail _ _ _).bind fun _ => trivial
  | help =>
    refine keeping ?_ w
    refine Always.bind ?_ fun _ => trivial
    refine request_mails covers_books out req _ none [] fun m hm w _ => addressed_plain hm.job ?_ w
    exact hm.address.symm ▸ hsender

end

/-! ### Messages -/

/-- The installation knows its owners, its admin, and everybody in its domains; and who is known is known by each
spelling of his address. -/
structure KnowsPeople (known : Text → Prop) (p : EmailProcessingPipeline) : Prop where
  closed : ∀ a a', mailboxOf a = mailboxOf a' → known a → known a'
  admin : ∀ a, some a = truthy p.admin.adminEmail → known a
  owners : ∀ email userId, p.authoriser.ownerId email = some userId → known email
  domains : ∀ address email, normaliseEmail address = some email → p.authoriser.knowsDomain (domainOf email) →
    known email

/-- The match only reads, and the reports it finds are the sender's. -/
def FindsOwn (E : Env Stmt World Exc) (matchReport : EmailMessage → Text → M (Option WeeklyReport)) : Prop :=
  ∀ msg senderEmail w, RG E BooksGrow (fun w w' => w' = w)
    (GivesOwned senderEmail (Option.map WeeklyReport.reportId)) (matchReport msg senderEmail) w

omit out in
/-- The program's own match always raises. -/
theorem matchReport_findsOwn : FindsOwn E EmailProcessingPipeline.matchReport :=
  fun _ _ _ _ _ => gives_error

omit out in
theorem noReport_findsOwn : FindsOwn E EmailProcessingPipeline.noReport :=
  fun _ _ _ _ _ => gives_ok nofun

section
variable {p : EmailProcessingPipeline} (hpeople : KnowsPeople known p)
include hpeople

theorem alert_books {P : World → Prop} (category : AdminCategory) (summary : Text) (detail : List (Text × Text)) :
    Always (MovesBooks known P) (p.admin.alert out category summary detail) :=
  alert_always covers_books out p.admin category summary detail fun _ hto _ hjob w _ =>
    addressed_plain hjob (hpeople.admin _ hto) w

section
variable {msg : EmailMessage} (hfrom : known msg.fromAddress)
include hfrom

omit hpeople in
theorem refusal_books (e : Exc) (threadJobId : Option Text) (operation : Operation) :
    Always (MovesBooks known fun _ => True)
      (EmailProcessingPipeline.replyToRefusal out msg e threadJobId operation) :=
  replyToRefusal_mails covers_books out coversMarks_books msg trivial
    (fun _ hm w _ => addressed_plain hm.job (hm.address.symm ▸ hfrom) w) e threadJobId operation

section
variable {senderEmail : Text} (hsender : known senderEmail)
include hsender

omit hpeople in
theorem runCommand_keeping (userId : Nat) (threadJobId : Option Text) (cmd : ParsedCommand) (w : World) :
    Keeping known E (fun _ _ => True) (p.runCommand out msg senderEmail userId threadJobId cmd) w := by
  refine Inside.bind BookMoves.refl (keeping (catching_always _ (validateCommand_always covers_books cmd _)) w)
    fun validated s => ?_
  cases validated with
  | error e => exact keeping (refusal_books out hfrom e threadJobId _) s
  | ok cmd =>
    have hdispatch : ∀ s, Keeping known E (fun _ _ => True) (p.dispatch out cmd msg senderEmail userId) s :=
      fun s => Inside.bind BookMoves.refl (callHandler_keeping out hsender p cmd msg userId s) fun _ _ _ _ => trivial
    refine Inside.bind BookMoves.refl (catching_keeping _ (hdispatch s)) fun jobId s => ?_
    cases jobId with
    | error e => exact keeping (refusal_books out hfrom e threadJobId _) s
    | ok jobId => exact keeping (conclude_always covers_books out coversMarks_books msg trivial _ _ _) s

theorem interpret_keeping (userId : Nat) (threadJobId : Option Text) (w : World) :
    Keeping known E (fun _ _ => True) (p.interpret out msg senderEmail userId threadJobId) w := by
  have hparse : Always (MovesBooks known fun _ => True) (catching [.commandParsingFailed]
      (p.parser.parseEmail out msg.bodyText (msg.attachments.map Attachment.filename) threadJobId)) :=
    catching_always _ (parseEmail_always out coversModel_books p.parser _ _ _)
  refine Inside.bind BookMoves.refl (keeping hparse w) fun parsed s => ?_
  cases parsed with
  | ok cmd => exact runCommand_keeping out hfrom hsender userId threadJobId cmd s
  | error e =>
    refine keeping ?_ s
    refine Always.bind ?_ fun _ => (alert_books out hpeople _ _ _).bind fun _ => trivial
    exact replyAndFinalize_mails covers_books out coversMarks_books msg trivial
      (fun _ hm w _ => addressed_plain hm.job (hm.address.symm ▸ hfrom) w) _ _ _

theorem handleRequest_keeping (userId : Nat) (w : World) :
    Keeping known E (fun _ _ => True) (p.handleRequest out msg senderEmail userId) w := by
  refine RG.bind BookMoves.refl (matchJob_keeping msg senderEmail w) (fun threadJobId s hs => ?_)
    fun _ _ _ => trivial
  let Mine := fun w : World => ∀ jobId ∈ threadJobId, BelongsTo jobId senderEmail w
  have hmine : Stable BooksGrow Mine := fun w w' h hw jobId hid => belongsTo_stable _ _ w w' h (hw jobId hid)
  have hcontinue : Always (MovesBooks known Mine)
      (EmailProcessingPipeline.continueThread out msg senderEmail threadJobId) :=
    continueThread_mails covers_books out coversMarks_books msg trivial (fun _ => trivial) senderEmail threadJobId
      fun jobId hid m hm w hw => addressed_about hm (hw jobId (truthy_eq_some.1 hid).1)
  refine Inside.bind BookMoves.refl (keeping_of_always hmine hcontinue (hs threadJobId rfl)).inside
    fun continued s => ?_
  split_ifs
  · exact fun _ _ => trivial
  · refine Inside.bind BookMoves.refl (keeping (always_observe (coversModel_books.available) _) s)
      fun available s => ?_
    split_ifs
    · exact interpret_keeping out hpeople hfrom hsender userId threadJobId s
    · refine keeping ?_ s
      exact (alert_books out hpeople _ _ _).bind fun _ => trivial

end

variable {matchReport : EmailMessage → Text → M (Option WeeklyReport)} (hmatch : FindsOwn E matchReport)
include hmatch

theorem handleOwner_keeping {senderEmail : Text} (hspelling : mailboxOf senderEmail = mailboxOf msg.fromAddress)
    (userId : Nat) (w : World) :
    Keeping known E (fun _ _ => True) (p.handleOwner out matchReport msg senderEmail userId) w := by
  have hfound : Keeping known E (GivesOwned senderEmail (Option.map WeeklyReport.reportId))
      (matchReport msg senderEmail) w := by
    refine ((hmatch msg senderEmail w).among fun _ _ h => h.grow).mono (fun s s' h => ?_) fun _ _ h => h
    rw [h]
    exact .refl s
  refine RG.bind BookMoves.refl hfound (fun report s hs => ?_) fun _ _ _ => trivial
  cases report with
  | none => exact handleRequest_keeping out hpeople hfrom (hpeople.closed _ _ hspelling.symm hfrom) userId s
  | some report =>
    refine (keeping_of_always (belongsTo_stable senderEmail report.reportId) ?_ (hs _ rfl _ rfl)).inside
    refine Always.bind (always_observe coversModel_books.available _) fun available => ?_
    split_ifs
    · refine Always.bind ?_ fun _ => conclude_always covers_books out coversMarks_books msg trivial _ _ _
      refine reply_mails covers_books out coversModel_books msg _ fun m hm w hw => addressed_about hm ?_
      exact Books.BelongsTo.congr hw hspelling
    · trivial

end

variable {matchReport : EmailMessage → Text → M (Option WeeklyReport)} (hmatch : FindsOwn E matchReport)
include hmatch

theorem processMessage_keeping (msg : EmailMessage) (w : World) :
    Keeping known E (fun _ _ => True) (p.processMessageWith out matchReport msg) w := by
  have hbegin : Always (MovesBooks known fun _ => True) (ProcessedMessageStore.begin out msg.messageId
      (orText (p.authOf msg).senderEmail msg.fromAddress) (p.authOf msg).reason.value) :=
    begin_always covers_books out coversMarks_books.toCoversLedger trivial _ _
  refine Inside.bind BookMoves.refl (keeping hbegin w) fun fresh s => ?_
  split_ifs with hfresh hauth
  · exact keeping (markProcessed_always coversMarks_books _) s
  · obtain ⟨email, userId, hemail, howner, -, hresult⟩ := SenderAuthoriser.authorise_authorised hauth
    have hspelling : mailboxOf email = mailboxOf msg.fromAddress := by
      rw [normaliseEmail_eq_some hemail, mailboxOf, PyChars.strip_lower, strip_strip, PyChars.lower_lower, mailboxOf]
    have hfrom := hpeople.closed _ _ hspelling (hpeople.owners email userId howner)
    have hsender : (p.authOf msg).senderEmail = email := congrArg SenderAuthResult.senderEmail hresult
    rw [hsender]
    exact handleOwner_keeping out hpeople hfrom hmatch hspelling _ s
  · refine keeping (handleStranger_mails covers_books out coversMarks_books msg trivial p _ ?_ ?_) s
    · exact fun m hto _ hjob w _ => addressed_plain hjob (hpeople.admin _ hto) w
    · intro hdomain m hm w _
      obtain ⟨email, hemail, hknows, hsender⟩ := SenderAuthoriser.authorise_inDomain hdomain
      have hknown : known email := hpeople.domains _ _ hemail hknows
      refine addressed_plain hm.job ?_ w
      rw [hm.address]
      exact hsender.symm ▸ hknown

theorem processAll_keeping (msgs : List EmailMessage) (w : World) :
    Keeping known E (fun _ _ => True) (p.processAllWith out matchReport msgs) w := by
  induction msgs generalizing w with
  | nil => exact fun _ _ => trivial
  | cons msg msgs ih =>
    refine Inside.bind BookMoves.refl ?_ fun _ s => ih s
    exact Inside.tryCatch BookMoves.refl (processMessage_keeping out hpeople hmatch msg w) fun _ _ _ _ => trivial

theorem pollOnce_keeping (fetched : Except Exc (List EmailMessage)) (w : World) :
    Keeping known E (fun _ _ => True) (Installation.pollOnceWith out p matchReport fetched) w := by
  refine Inside.bind BookMoves.refl (keeping (always_observeE (covers_books.look .fetch rfl) _) w) fun msgs s => ?_
  exact Inside.bind BookMoves.refl (processAll_keeping out hpeople hmatch msgs s) fun _ _ _ _ => trivial

end

end

end GroupAssessmentAgent
