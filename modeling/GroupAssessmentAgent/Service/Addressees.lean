import GroupAssessmentAgent.Service.Work

/-!
# Whom the service writes to

A run of the service: any number of threads make the calls of the mail loop, of the worker and of the weekly command, for
any of a set of installations (the service is started again with other settings), in any interleaving; each statement may
raise, and each call may be left at any point. Then the tables keep the books (`service_books`). So whatever the service
sends goes to somebody that one of the installations knows (`mails_known`), a mail about a job or a report to the one
whom it was opened for (`mails_private`), and what the provider gets is, word for word, what was written
(`deliveries_match`).
-/

namespace GroupAssessmentAgent
open Prog

section
variable [PyChars]

theorem mailboxOf_mailboxOf (address : Text) : mailboxOf (mailboxOf address) = mailboxOf address := by
  rw [mailboxOf, mailboxOf, PyChars.strip_lower, strip_strip, PyChars.lower_lower]

/-! ### Whom an installation knows -/

namespace Installation

/-- The addresses of the admin, of an owner, and in an authorised domain. -/
inductive Lists (i : Installation) : Text → Prop
  | admin {address : Text} : some address = truthy i.settings.adminEmail → Lists i address
  | owner {address : Text} {userId : Nat} : (address, userId) ∈ i.owners ++ i.weeklyOwners → Lists i address
  | domain {address email : Text} : normaliseEmail address = some email → i.authoriser.knowsDomain (domainOf email) →
      Lists i address

/-- A spelling of an address that the installation lists. -/
def Known (i : Installation) (address : Text) : Prop := ∃ a, mailboxOf a = mailboxOf address ∧ i.Lists a

theorem Lists.known {i : Installation} {address : Text} (h : i.Lists address) : i.Known address := ⟨address, rfl, h⟩

theorem owner_known {i : Installation} {email : Text} {userId : Nat} (h : i.authoriser.ownerId email = some userId) :
    i.Known email := by
  obtain ⟨_, _, hsplit, -⟩ := List.lookup_eq_some_iff.1 h
  have hmem : (email, userId) ∈ i.authoriser.groupOwners.map fun kv => (lower (strip kv.1), kv.2) := by
    rw [← List.mem_reverse, hsplit]
    exact List.mem_append_right _ List.mem_cons_self
  obtain ⟨item, hitem, heq⟩ := List.mem_map.1 hmem
  have hkey : mailboxOf item.1 = email := (Prod.mk.inj heq).1
  refine ⟨item.1, ?_, .owner (List.mem_append_left _ hitem)⟩
  rw [← hkey, mailboxOf_mailboxOf]

end Installation

/-! ### Runs -/

/-- One of the installations knows the address. -/
def KnownTo (installed : Installation → Prop) (address : Text) : Prop := ∃ i, installed i ∧ i.Known address

section
variable {installed : Installation → Prop}

theorem knownTo_congr {a a' : Text} (hsame : mailboxOf a = mailboxOf a') (h : KnownTo installed a) :
    KnownTo installed a' := by
  obtain ⟨i, hi, b, hb, hlists⟩ := h
  exact ⟨i, hi, b, hb.trans hsame, hlists⟩

theorem pipeline_knowsPeople {i : Installation} (hi : installed i) : KnowsPeople (KnownTo installed) i.pipeline where
  closed _ _ hsame h := knownTo_congr hsame h
  admin _ ha := ⟨i, hi, (Installation.Lists.admin ha).known⟩
  owners _ _ howner := ⟨i, hi, Installation.owner_known howner⟩
  domains address email hemail hdomain := by
    have hspelling : mailboxOf address = mailboxOf email := by
      rw [normaliseEmail_eq_some hemail]
      exact (mailboxOf_mailboxOf address).symm
    exact knownTo_congr hspelling ⟨i, hi, (Installation.Lists.domain hemail hdomain).known⟩

/-- The surroundings leave the books alone. -/
def BooksAgree (w w' : World) : Prop := w'.books = w.books

variable {ι : Type} [DecidableEq ι] (out : Outside) (E : Env Stmt World Exc)

variable (installed) in
/-- Some threads of these installations. -/
abbrev InstalledRun (c c' : (ι → M Unit) × World) : Prop :=
  PoolSteps E BooksAgree
    (fun _ p _ => ∃ i, installed i ∧ ∃ matchReport, FindsOwn E matchReport ∧ i.Call out matchReport p) c c'

variable {out E}

theorem call_keeps {i : Installation} (hi : installed i) {matchReport : EmailMessage → Text → M (Option WeeklyReport)}
    (hmatch : FindsOwn E matchReport) {p : M Unit} (hcall : i.Call out matchReport p) (w : World) :
    Keeping (KnownTo installed) E (fun _ _ => True) p w := by
  have hadmin : ∀ a, some a = truthy i.admin.adminEmail → KnownTo installed a := (pipeline_knowsPeople hi).admin
  have hround : ∀ {p : M Unit}, (∀ w, Keeping (KnownTo installed) E (fun _ _ => True) p w) →
      Keeping (KnownTo installed) E (fun _ _ => True) (p.tryCatch fun _ => ret ()) w :=
    fun hp => Inside.tryCatch BookMoves.refl (hp w) fun _ _ _ _ => trivial
  cases hcall with
  | mail fetched =>
    refine hround fun w => Inside.bind BookMoves.refl ?_ fun _ s => ?_
    · exact pollOnce_keeping out (pipeline_knowsPeople hi) hmatch fetched w
    · exact Inside.bind BookMoves.refl (flushOutbox_keeping out s) fun _ _ _ _ => trivial
  | work =>
    refine hround fun w => ?_
    exact Inside.bind BookMoves.refl (runOnce_keeping out hadmin w) fun _ _ _ _ => trivial
  | weekly today =>
    have howners : ∀ item ∈ i.weeklyOwners, KnownTo installed item.1 :=
      fun item hitem => ⟨i, hi, (Installation.Lists.owner (List.mem_append_right _ hitem)).known⟩
    exact Inside.bind BookMoves.refl (weeklyRun_keeping out hadmin howners today w) fun _ _ _ _ => trivial

omit [DecidableEq ι] in
theorem books_spec : PoolSpec E BooksAgree
    (fun _ p _ => ∃ i, installed i ∧ ∃ matchReport, FindsOwn E matchReport ∧ i.Call out matchReport p)
    (fun _ : ι => BookMoves (KnownTo installed)) (fun _ => BookMoves (KnownTo installed)) (fun _ _ => True) where
  refl _ := BookMoves.refl
  trans _ _ _ _ := BookMoves.trans
  others _ _ _ _ _ h := h
  around _ _ _ h := .of_books h
  called _ _ w h := by
    obtain ⟨i, hi, matchReport, hmatch, hcall⟩ := h
    exact call_keeps hi hmatch hcall w

theorem InstalledRun.moves {c c' : (ι → M Unit) × World} (hrun : InstalledRun installed out E c c')
    (hok : PoolOk E (fun _ : ι => BookMoves (KnownTo installed)) (fun _ => BookMoves (KnownTo installed))
      (fun _ _ => True) c) : BookMoves (KnownTo installed) c.2 c'.2 :=
  books_spec.inv (fun _ _ _ h hI => hI.trans h) (fun _ _ h hI => hI.trans (.of_books h)) hrun hok (.refl c.2)

/-- **The service keeps the books**: between any two states of a run, all that has happened to them is a sequence of
moves. -/
theorem service_books {w : World} {c c' : (ι → M Unit) × World}
    (hrun : InstalledRun installed out E (fun _ => ret (), w) c) (hlater : InstalledRun installed out E c c') :
    Books.Moves (KnownTo installed) c.2.books c'.2.books :=
  hlater.moves (books_spec.ok hrun fun _ _ _ => trivial)

theorem InstalledRun.sound {w : World} {c : (ι → M Unit) × World}
    (hrun : InstalledRun installed out E (fun _ => ret (), w) c) (hstart : w.books.Sound (KnownTo installed)) :
    c.2.books.Sound (KnownTo installed) := by
  have hmoves : BookMoves (KnownTo installed) w c.2 := hrun.moves fun _ _ _ => trivial
  exact hstart.moves hmoves

/-! ### Addressees -/

section
variable {w : World} (hstart : w.books.Sound (KnownTo installed)) {c : (ι → M Unit) × World}
  (hrun : InstalledRun installed out E (fun _ => ret (), w) c)
include hstart hrun

/-- **Nobody unknown is written to.** -/
theorem mails_known : (∀ m ∈ c.2.outbox.rows, KnownTo installed m.toEmail) ∧
    ∀ d ∈ c.2.deliveries, KnownTo installed d.toEmail := by
  have hsound := hrun.sound hstart
  have hletter : ∀ l ∈ c.2.books.letters, KnownTo installed l.toEmail :=
    fun l hl => hsound.letter_known (fun _ _ => knownTo_congr) hl
  refine ⟨fun m hm => hletter m.letter (List.mem_map_of_mem hm), fun d hd => ?_⟩
  obtain ⟨l, hl, hof⟩ := hsound.written d hd
  rw [hof.address]
  exact hletter l hl

/-- **A mail about a job or a report goes to nobody but the one whom it was opened for.** -/
theorem mails_private {m : OutboxMessage} (hm : m ∈ c.2.outbox.rows) :
    (∀ job ∈ c.2.jobs.rows, m.jobId = some job.jobId → mailboxOf m.toEmail = mailboxOf job.senderEmail) ∧
      (∀ report ∈ c.2.weeklyReports.rows, m.jobId = some report.reportId →
        mailboxOf m.toEmail = mailboxOf report.ownerEmail) ∧
      ∀ id ∈ m.jobId, (∃ job ∈ c.2.jobs.rows, job.jobId = id) ∨ ∃ report ∈ c.2.weeklyReports.rows, report.reportId = id := by
  have hsound := hrun.sound hstart
  have hl : m.letter ∈ c.2.books.letters := List.mem_map_of_mem hm
  refine ⟨fun job hjob habout => ?_, fun report hreport habout => ?_, fun id hid => ?_⟩
  · exact hsound.letter_job hl (List.mem_map_of_mem hjob) habout
  · exact hsound.letter_report hl (List.mem_map_of_mem hreport) habout
  · have haddressed := hsound.addressed _ hl
    have habout : m.letter.jobId = some id := hid
    rw [Books.Addressed, habout] at haddressed
    rcases haddressed with ⟨j, hj, rfl, -⟩ | ⟨r, hr, rfl, -⟩
    · obtain ⟨job, hjob, rfl⟩ := List.mem_map.1 hj
      exact .inl ⟨job, hjob, rfl⟩
    · obtain ⟨report, hreport, rfl⟩ := List.mem_map.1 hr
      exact .inr ⟨report, hreport, rfl⟩

/-- **What the provider gets is what was written**: the mail is in the outbox, and it reads there as it was sent, then
and ever after. -/
theorem deliveries_match {c' : (ι → M Unit) × World} (hlater : InstalledRun installed out E c c') {d : Delivery}
    (hd : d ∈ c.2.deliveries) : ∃ m ∈ c'.2.outbox.rows, d.Of m.letter ∧
      ∀ m' ∈ c'.2.outbox.rows, m'.id = d.outboxId → m' = m := by
  obtain ⟨l, hl, hof⟩ := (hrun.sound hstart).written d hd
  have hmoves : Books.Moves (KnownTo installed) c.2.books c'.2.books :=
    hlater.moves (books_spec.ok hrun fun _ _ _ => trivial)
  obtain ⟨m, hm, rfl⟩ := List.mem_map.1 (hmoves.grows.letters.subset hl)
  refine ⟨m, hm, hof, fun m' hm' hid => ?_⟩
  exact List.inj_on_of_nodup_map c'.2.outbox.nodup hm' hm (hid.trans hof.id)

end

end

end

/-! ### A small service -/

section
attribute [local instance] asciiChars

/-- The installation of the small pipeline and the small worker. -/
def smallInstallation : Installation where
  settings :=
    { storage := { incoming := "in", processing := "work", completed := "done", failed := "failed" }
      authorisedEmailDomains := ["uni.ac.uk"] }
  owners := [("alice@uni.ac.uk", 12)]
  weeklyOwners := [("alice@uni.ac.uk", 12)]
  systemPrompt := ""
  diarisation := (smallWorker []).diarisation
  github := (smallWorker []).github

/-- A round of the mail loop with the owner's message. -/
def mailFromAlice : M Unit := smallInstallation.mailRound .plain EmailProcessingPipeline.noReport (.ok [aliceMessage])

/-- A round of the worker that finds the question of the owner. -/
def workOnQuestion : M Unit := smallInstallation.workerRound .plain

def mailAnswered : World := (mailFromAlice.run {}).2

/-- The owner has asked a question, and the small service runs on. -/
def questionAsked : World where
  jobs := Table.empty.upsert questionJob

def questionWorkedOn : World := (workOnQuestion.run questionAsked).2

theorem smallRun {p : M Unit} (hp : ∃ matchReport, FindsOwn Env.calm matchReport ∧
    smallInstallation.Call .plain matchReport p) (w : World) :
    InstalledRun (ι := Unit) (· = smallInstallation) .plain Env.calm (fun _ => ret (), w)
      (Function.update (fun _ => ret ()) () (Prog.ofExcept (p.run w).1), (p.run w).2) :=
  .call .refl ⟨smallInstallation, rfl, hp⟩ (steps_run _ (fun _ _ => trivial) p w)

theorem mailFromAlice_run (w : World) : InstalledRun (ι := Unit) (· = smallInstallation) .plain Env.calm
    (fun _ => ret (), w) (Function.update (fun _ => ret ()) () (Prog.ofExcept (mailFromAlice.run w).1),
      (mailFromAlice.run w).2) :=
  smallRun ⟨_, noReport_findsOwn, .mail _⟩ w

theorem workOnQuestion_run (w : World) : InstalledRun (ι := Unit) (· = smallInstallation) .plain Env.calm
    (fun _ => ret (), w) (Function.update (fun _ => ret ()) () (Prog.ofExcept (workOnQuestion.run w).1),
      (workOnQuestion.run w).2) :=
  smallRun ⟨_, noReport_findsOwn, .work⟩ w

theorem empty_sound (known : Text → Prop) : (World.books {}).Sound known := Books.sound_empty

theorem questionAsked_sound : questionAsked.books.Sound (KnownTo (· = smallInstallation)) := by
  have hsender : KnownTo (· = smallInstallation) questionJob.senderEmail :=
    ⟨_, rfl, (@Installation.Lists.owner _ _ _ 12 List.mem_cons_self).known⟩
  have hmoves : Books.Moves (KnownTo (· = smallInstallation)) Books.empty questionAsked.books :=
    .single (.job questionJob.origin hsender (by decide) nofun)
  exact Books.sound_empty.moves hmoves

/-- A mail is written and delivered. -/
theorem service_books_small : (World.books {}).letters = [] ∧ mailAnswered.books.letters.length = 1 ∧
    mailAnswered.books.deliveries.length = 1 ∧
    Books.Moves (KnownTo (· = smallInstallation)) (World.books {}) mailAnswered.books :=
  ⟨rfl, by decide +kernel, by decide +kernel, service_books .refl (mailFromAlice_run {})⟩

theorem mails_known_small : ∃ d ∈ mailAnswered.deliveries, KnownTo (· = smallInstallation) d.toEmail := by
  have hsent : mailAnswered.deliveries ≠ [] := by decide +kernel
  obtain ⟨d, hd⟩ := List.exists_mem_of_ne_nil _ hsent
  exact ⟨d, hd, (mails_known (empty_sound _) (mailFromAlice_run {})).2 d hd⟩

theorem mails_private_small : ∃ m ∈ questionWorkedOn.outbox.rows, m.jobId = some questionJob.jobId ∧
    mailboxOf m.toEmail = mailboxOf questionJob.senderEmail := by
  obtain ⟨m, hm, habout⟩ : ∃ m ∈ questionWorkedOn.outbox.rows, m.jobId = some questionJob.jobId := by decide +kernel
  obtain ⟨job, hjob, hid, hsender⟩ : ∃ job ∈ questionWorkedOn.jobs.rows, job.jobId = questionJob.jobId ∧
      job.senderEmail = questionJob.senderEmail := by decide +kernel
  have hprivate := mails_private questionAsked_sound (workOnQuestion_run questionAsked) hm
  rw [← hid] at habout
  exact ⟨m, hm, hid ▸ habout, hsender ▸ hprivate.1 job hjob habout⟩

theorem deliveries_match_small : ∃ d ∈ mailAnswered.deliveries, ∃ m ∈ mailAnswered.outbox.rows, d.Of m.letter := by
  have hsent : mailAnswered.deliveries ≠ [] := by decide +kernel
  obtain ⟨d, hd⟩ := List.exists_mem_of_ne_nil _ hsent
  obtain ⟨m, hm, hof, -⟩ := deliveries_match (empty_sound _) (mailFromAlice_run {}) .refl hd
  exact ⟨d, hd, m, hm, hof⟩

end

end GroupAssessmentAgent
