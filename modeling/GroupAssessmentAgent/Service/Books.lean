import Mathlib.Data.List.Infix
import GroupAssessmentAgent.Flush

/-!
# The books of the service

What the service owes its users does not depend on statuses, attempts or clocks, but on four books: which jobs were
opened for whom, which reports for whom, which mails were written, and which of them the provider has accepted. `Books`
are these four, `World.books` reads them off the tables, and `Books.Move` says how an entry may be added to one of them.
No move changes or removes an entry (`Books.Grows`), and the moves keep the books `Sound`: every mail goes to an address
that is known, a mail about a job or a report goes to the one whom it was opened for, and what is delivered was written.
-/

namespace GroupAssessmentAgent

/-- Where a mail to an address arrives: neither case nor white space around it makes a difference. -/
def mailboxOf [PyChars] (address : Text) : Text := lower (strip address)

/-- The columns of a job that are written when it is opened. -/
structure JobOrigin where
  jobId : Text
  senderEmail : Text
  backendUserId : Nat
  sourceMessageId : Text
  operation : Text
  createdAt : Instant
  deriving DecidableEq

def Job.origin (j : Job) : JobOrigin :=
  ⟨j.jobId, j.senderEmail, j.backendUserId, j.sourceMessageId, j.operation, j.createdAt⟩

/-- The columns of a report that are written when it is opened. -/
structure ReportOrigin where
  reportId : Text
  groupId : Nat
  groupName : Text
  ownerEmail : Text
  backendUserId : Nat
  periodStart : Text
  periodEnd : Text
  createdAt : Instant
  deriving DecidableEq

def WeeklyReport.origin (r : WeeklyReport) : ReportOrigin :=
  ⟨r.reportId, r.groupId, r.groupName, r.ownerEmail, r.backendUserId, r.periodStart, r.periodEnd, r.createdAt⟩

/-- What a mail says, and to whom. -/
structure Letter where
  id : Nat
  jobId : Option Text
  toEmail : Text
  subject : Text
  bodyText : Text
  attachments : List Text
  inReplyTo : Option Text
  references : Option Text
  createdAt : Instant
  deriving DecidableEq

def OutboxMessage.letter (m : OutboxMessage) : Letter :=
  ⟨m.id, m.jobId, m.toEmail, m.subject, m.bodyText, m.attachments, m.inReplyToMessageId, m.referencesHeader,
    m.createdAt⟩

/-- What the provider has accepted is the mail, word for word, with a file for each of its attachments. -/
structure Delivery.Of (d : Delivery) (l : Letter) : Prop where
  id : d.outboxId = l.id
  address : d.toEmail = l.toEmail
  subject : d.subject = l.subject
  body : d.bodyText = l.bodyText
  files : d.attachments.map Prod.fst = l.attachments.map pathName
  inReplyTo : d.inReplyTo = l.inReplyTo
  references : d.references = l.references

structure Books where
  jobs : List JobOrigin
  reports : List ReportOrigin
  letters : List Letter
  /-- Newest first. -/
  deliveries : List Delivery

/-- The books that the tables of `w` keep. -/
def World.books (w : World) : Books :=
  ⟨w.jobs.rows.map Job.origin, w.weeklyReports.rows.map WeeklyReport.origin, w.outbox.rows.map OutboxMessage.letter,
    w.deliveries⟩

namespace Books

def empty : Books := ⟨[], [], [], []⟩

/-! ### Growth -/

/-- From `b` to `b'` entries are added, each at its end of the book. -/
structure Grows (b b' : Books) : Prop where
  jobs : b.jobs <+: b'.jobs
  reports : b.reports <+: b'.reports
  letters : b.letters <+: b'.letters
  deliveries : b.deliveries <:+ b'.deliveries

theorem Grows.refl (b : Books) : b.Grows b := ⟨List.prefix_rfl, List.prefix_rfl, List.prefix_rfl, List.suffix_rfl⟩

theorem Grows.trans {a b c : Books} (h : a.Grows b) (h' : b.Grows c) : a.Grows c :=
  ⟨h.jobs.trans h'.jobs, h.reports.trans h'.reports, h.letters.trans h'.letters, h.deliveries.trans h'.deliveries⟩

theorem forall_mem_append_singleton {α : Type} {p : α → Prop} {l : List α} {a : α} (hl : ∀ b ∈ l, p b) (ha : p a) :
    ∀ b ∈ l ++ [a], p b :=
  List.forall_mem_append.2 ⟨hl, List.forall_mem_singleton.2 ha⟩

theorem nodup_map_append {α β : Type} {f : α → β} {l : List α} {a : α} (hl : (l.map f).Nodup)
    (ha : ∀ b ∈ l, f b ≠ f a) : ((l ++ [a]).map f).Nodup := by
  rw [List.map_append]
  refine hl.append (List.nodup_singleton _) ?_
  simpa using ha

theorem not_job_and_report {id : Text} (hjob : startsWith id "DIAR-" = true) :
    startsWith id "WEEKLY-" ≠ true := by
  intro hreport
  obtain ⟨s, hs⟩ := List.isPrefixOf_iff_prefix.1 hjob
  obtain ⟨t, ht⟩ := List.isPrefixOf_iff_prefix.1 hreport
  exact absurd (hs.trans ht.symm) (by simp)

section
variable [PyChars]

/-- The job or the report of this id was opened for the owner of the address. -/
def BelongsTo (b : Books) (id address : Text) : Prop :=
  (∃ j ∈ b.jobs, j.jobId = id ∧ mailboxOf j.senderEmail = mailboxOf address) ∨
    ∃ r ∈ b.reports, r.reportId = id ∧ mailboxOf r.ownerEmail = mailboxOf address

theorem BelongsTo.grows {b b' : Books} {id address : Text} (h : b.BelongsTo id address) (hgrows : b.Grows b') :
    b'.BelongsTo id address := by
  rcases h with ⟨j, hj, hown⟩ | ⟨r, hr, hown⟩
  · exact .inl ⟨j, hgrows.jobs.subset hj, hown⟩
  · exact .inr ⟨r, hgrows.reports.subset hr, hown⟩

theorem BelongsTo.congr {b : Books} {id address address' : Text} (h : b.BelongsTo id address)
    (hsame : mailboxOf address = mailboxOf address') : b.BelongsTo id address' :=
  h.imp (fun ⟨j, hj, hid, hown⟩ => ⟨j, hj, hid, hown.trans hsame⟩)
    fun ⟨r, hr, hid, hown⟩ => ⟨r, hr, hid, hown.trans hsame⟩

/-! ### Moves -/

/-- A mail about nothing goes to an address that is known, and a mail about a job or a report to its owner. -/
def Addressed (known : Text → Prop) (b : Books) (l : Letter) : Prop :=
  match l.jobId with
  | none => known l.toEmail
  | some id => b.BelongsTo id l.toEmail

theorem Addressed.grows {known : Text → Prop} {b b' : Books} {l : Letter} (h : b.Addressed known l)
    (hgrows : b.Grows b') : b'.Addressed known l := by
  unfold Addressed at h ⊢
  cases hid : l.jobId with
  | none =>
    rw [hid] at h
    exact h
  | some id =>
    rw [hid] at h
    exact h.grows hgrows

variable (known : Text → Prop)

/-- A new entry in one of the books. -/
inductive Move : Books → Books → Prop
  | job {b : Books} (j : JobOrigin) : known j.senderEmail → startsWith j.jobId "DIAR-" = true →
      (∀ k ∈ b.jobs, k.jobId ≠ j.jobId) → Move b { b with jobs := b.jobs ++ [j] }
  | report {b : Books} (r : ReportOrigin) : known r.ownerEmail → startsWith r.reportId "WEEKLY-" = true →
      (∀ k ∈ b.reports, k.reportId ≠ r.reportId) → Move b { b with reports := b.reports ++ [r] }
  | letter {b : Books} (l : Letter) : b.Addressed known l → (∀ k ∈ b.letters, k.id < l.id) →
      Move b { b with letters := b.letters ++ [l] }
  | delivery {b : Books} (d : Delivery) (l : Letter) : l ∈ b.letters → d.Of l →
      Move b { b with deliveries := d :: b.deliveries }

abbrev Moves : Books → Books → Prop := Relation.ReflTransGen (Move known)

variable {known}

theorem Move.grows {b b' : Books} (h : Move known b b') : b.Grows b' := by
  cases h with
  | job j => exact { Grows.refl b with jobs := List.prefix_append _ _ }
  | report r => exact { Grows.refl b with reports := List.prefix_append _ _ }
  | letter l => exact { Grows.refl b with letters := List.prefix_append _ _ }
  | delivery d => exact { Grows.refl b with deliveries := List.suffix_cons _ _ }

theorem Moves.grows {b b' : Books} (h : Moves known b b') : b.Grows b' := by
  induction h with
  | refl => exact .refl b
  | tail _ hmove ih => exact ih.trans hmove.grows

/-! ### Sound books -/

variable (known) in
structure Sound (b : Books) : Prop where
  senders : ∀ j ∈ b.jobs, known j.senderEmail
  jobIds : ∀ j ∈ b.jobs, startsWith j.jobId "DIAR-" = true
  jobsNodup : (b.jobs.map JobOrigin.jobId).Nodup
  owners : ∀ r ∈ b.reports, known r.ownerEmail
  reportIds : ∀ r ∈ b.reports, startsWith r.reportId "WEEKLY-" = true
  reportsNodup : (b.reports.map ReportOrigin.reportId).Nodup
  addressed : ∀ l ∈ b.letters, b.Addressed known l
  lettersSorted : (b.letters.map Letter.id).Pairwise (· < ·)
  written : ∀ d ∈ b.deliveries, ∃ l ∈ b.letters, d.Of l

theorem sound_empty : Sound known empty := by
  constructor <;> simp [empty]

theorem Sound.move {b b' : Books} (h : b.Sound known) (hmove : Move known b b') : b'.Sound known := by
  have haddressed : ∀ l ∈ b.letters, b'.Addressed known l := fun l hl => (h.addressed l hl).grows hmove.grows
  cases hmove with
  | job j hknown hid hfresh =>
    exact { h with
      senders := forall_mem_append_singleton h.senders hknown
      jobIds := forall_mem_append_singleton h.jobIds hid
      jobsNodup := nodup_map_append h.jobsNodup hfresh
      addressed := haddressed }
  | report r hknown hid hfresh =>
    exact { h with
      owners := forall_mem_append_singleton h.owners hknown
      reportIds := forall_mem_append_singleton h.reportIds hid
      reportsNodup := nodup_map_append h.reportsNodup hfresh
      addressed := haddressed }
  | letter l haddress hlast =>
    refine { h with addressed := forall_mem_append_singleton haddressed haddress, lettersSorted := ?_, written := ?_ }
    · rw [List.map_append, List.pairwise_append]
      refine ⟨h.lettersSorted, by simp, ?_⟩
      simpa using hlast
    · intro d hd
      obtain ⟨k, hk, hof⟩ := h.written d hd
      exact ⟨k, List.mem_append_left _ hk, hof⟩
  | delivery d l hl hof =>
    exact { h with addressed := haddressed, written := List.forall_mem_cons.2 ⟨⟨l, hl, hof⟩, h.written⟩ }

theorem Sound.moves {b b' : Books} (h : b.Sound known) (hmoves : Moves known b b') : b'.Sound known := by
  induction hmoves with
  | refl => exact h
  | tail _ hmove ih => exact ih.move hmove

/-! ### What sound books say -/

section
variable {b : Books} (h : b.Sound known)
include h

theorem Sound.letter_job {l : Letter} (hl : l ∈ b.letters) {j : JobOrigin} (hj : j ∈ b.jobs)
    (habout : l.jobId = some j.jobId) : mailboxOf l.toEmail = mailboxOf j.senderEmail := by
  have haddressed := h.addressed l hl
  rw [Addressed, habout] at haddressed
  rcases haddressed with ⟨k, hk, hid, hown⟩ | ⟨r, hr, hid, -⟩
  · obtain rfl := List.inj_on_of_nodup_map h.jobsNodup hk hj hid
    exact hown.symm
  · exact absurd (hid ▸ h.reportIds r hr) (not_job_and_report (h.jobIds j hj))

theorem Sound.letter_report {l : Letter} (hl : l ∈ b.letters) {r : ReportOrigin} (hr : r ∈ b.reports)
    (habout : l.jobId = some r.reportId) : mailboxOf l.toEmail = mailboxOf r.ownerEmail := by
  have haddressed := h.addressed l hl
  rw [Addressed, habout] at haddressed
  rcases haddressed with ⟨j, hj, hid, -⟩ | ⟨k, hk, hid, hown⟩
  · exact absurd (h.reportIds r hr) (not_job_and_report (hid ▸ h.jobIds j hj))
  · obtain rfl := List.inj_on_of_nodup_map h.reportsNodup hk hr hid
    exact hown.symm

theorem Sound.letter_known (hclosed : ∀ a a', mailboxOf a = mailboxOf a' → known a → known a') {l : Letter}
    (hl : l ∈ b.letters) : known l.toEmail := by
  have haddressed := h.addressed l hl
  unfold Addressed at haddressed
  split at haddressed
  · exact haddressed
  · rcases haddressed with ⟨j, hj, -, hown⟩ | ⟨r, hr, -, hown⟩
    · exact hclosed _ _ hown (h.senders j hj)
    · exact hclosed _ _ hown (h.owners r hr)

end

end

end Books

end GroupAssessmentAgent
