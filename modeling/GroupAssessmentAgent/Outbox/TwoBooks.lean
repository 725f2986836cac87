import GroupAssessmentAgent.Jobs.Outcomes
import GroupAssessmentAgent.Outbox.TwoFlushers

/-!
# The books of a weekly mail

`flush_outbox` and `_flush_report_outbox` may both send the mail of a weekly report. Either way the outbox row becomes
SENT and the link of the mail is written; but only the weekly command goes on to record the report as SENT, the mail loop
updates a row of `jobs` in its place. So the books that the two leave are the same exactly if the report, where there is
one, was SENT without an error beforehand (`same_books_iff`). The rounds of the other messages are beside the mail
(`Beside`), and its own round ends with a row that is not SENT or with the mail booked (`Over`).
-/

namespace GroupAssessmentAgent
open Prog

/-! ### The rows of a mail -/

def OutboxMessage.undated (m : OutboxMessage) : OutboxMessage := { m with createdAt := 0, sentAt := none }

def MessageLink.undated (l : MessageLink) : MessageLink := { l with createdAt := 0 }

def WeeklyReport.undated (r : WeeklyReport) : WeeklyReport := { r with createdAt := 0, completedAt := none }

/-- The link of a mail. -/
def linkOf (w : World) (outboxId : Nat) : Option MessageLink :=
  w.messageLinks.rows.find? fun l => l.outboxId = outboxId

/-- The mail is SENT, under this id of the provider. -/
def SentUnder (w : World) (outboxId : Nat) (messageId : Text) : Prop :=
  outboxStatus w outboxId = some .sent ∧ (linkOf w outboxId).map MessageLink.messageId = some messageId

/-- The same row, link and report, times aside. -/
structure SameBooks (outboxId : Nat) (reportId : Text) (w w' : World) : Prop where
  row : (w.outbox.find? outboxId).map OutboxMessage.undated = (w'.outbox.find? outboxId).map OutboxMessage.undated
  link : (linkOf w outboxId).map MessageLink.undated = (linkOf w' outboxId).map MessageLink.undated
  report : (w.weeklyReports.find? reportId).map WeeklyReport.undated =
    (w'.weeklyReports.find? reportId).map WeeklyReport.undated

/-- What `_flush_report_outbox` makes of the report. -/
def markReport (r : WeeklyReport) : WeeklyReport := ReportStore.withStatus r .sent none none none

theorem markReport_markReport (r : Option WeeklyReport) : (r.map markReport).map markReport = r.map markReport := by
  cases r <;> rfl

theorem linkOf_insert {w : World} {l : MessageLink} {t : MessageLinks} (hinsert : w.messageLinks.insert l = .ok t)
    (id : Nat) : linkOf { w with messageLinks := t } id =
      (linkOf w id).or (if l.outboxId = id then some l else none) := by
  rw [linkOf, linkOf, MessageLinks.insert_rows hinsert, List.find?_append, List.find?_singleton]
  simp only [decide_eq_true_eq]

theorem linkOf_free {w : World} {l : MessageLink} {t : MessageLinks} (hinsert : w.messageLinks.insert l = .ok t) :
    linkOf w l.outboxId = none := by
  have hfree : w.messageLinks.Free l.outboxId l.messageId := (w.messageLinks.insert_isOk l).1 ⟨t, hinsert⟩
  refine List.find?_eq_none.2 fun l' hl' => ?_
  simpa using hfree.1 l' hl'

/-! ### The other rounds -/

/-- A step that leaves the mail alone, and the report too unless it marks it. -/
structure Beside (outboxId : Nat) (reportId : Text) (w w' : World) : Prop where
  row : w'.outbox.find? outboxId = w.outbox.find? outboxId
  link : linkOf w' outboxId = linkOf w outboxId
  report : w'.weeklyReports.find? reportId = w.weeklyReports.find? reportId ∨
    w'.weeklyReports.find? reportId = (w.weeklyReports.find? reportId).map markReport

section
variable {id : Nat} {reportId : Text}

theorem Beside.refl (w : World) : Beside id reportId w w := ⟨rfl, rfl, .inl rfl⟩

theorem Beside.trans {a b c : World} (h : Beside id reportId a b) (h' : Beside id reportId b c) :
    Beside id reportId a c := by
  refine ⟨h'.row.trans h.row, h'.link.trans h.link, ?_⟩
  rcases h.report with hab | hab
  · rw [← hab]
    exact h'.report
  · rcases h'.report with hbc | hbc
    · exact .inr (hbc.trans hab)
    · exact .inr (by rw [hbc, hab, markReport_markReport])

theorem Beside.of_tables {w w' : World} (houtbox : w'.outbox = w.outbox) (hlinks : w'.messageLinks = w.messageLinks)
    (hreports : w'.weeklyReports = w.weeklyReports) : Beside id reportId w w' :=
  ⟨by rw [houtbox], by rw [linkOf, linkOf, hlinks], .inl (by rw [hreports])⟩

theorem Beside.modifyOutbox {id' : Nat} (hne : id' ≠ id) (w : World) (f : OutboxMessage → OutboxMessage)
    (hf : ∀ r, (f r).id = r.id) : Beside id reportId w (w.modifyOutbox id' f hf) := by
  refine ⟨?_, rfl, .inl rfl⟩
  rw [World.modifyOutbox, Table.find?_modify, if_neg hne.symm]

theorem find?_mark (reportId reportId' : Text) (w : World) :
    (ReportStore.writeStatus w reportId' .sent none none none).weeklyReports.find? reportId =
      if reportId = reportId' then (w.weeklyReports.find? reportId).map markReport
      else w.weeklyReports.find? reportId :=
  Table.find?_modify w.weeklyReports reportId' markReport (fun _ => rfl) reportId

theorem Beside.mark (reportId' : Text) (w : World) :
    Beside id reportId w (ReportStore.writeStatus w reportId' .sent none none none) := by
  refine ⟨rfl, rfl, ?_⟩
  rw [find?_mark]
  split_ifs
  · exact .inr rfl
  · exact .inl rfl

/-- Every step is beside the mail. -/
def StepsBeside (id : Nat) (reportId : Text) {α : Type} (p : M α) : Prop :=
  Always (fun _ f => ∀ w, Beside id reportId w (f w)) p

theorem StepsBeside.ensures {E : Env Stmt World Exc} {α : Type} {p : M α} (hp : StepsBeside id reportId p) (w : World) :
    Ensures E (fun _ _ w' => Beside id reportId w w') p w := by
  have hsteps : Ensures E (fun h _ w' => Beside id reportId w w' ∧ ∀ t ∈ h, True) p w :=
    Always.ensures (L := fun _ => True) Beside.refl (fun _ _ _ => Beside.trans) (fun _ _ hf => ⟨trivial, hf⟩) hp w
  exact hsteps.mono fun _ _ _ h => h.1

theorem coversDelivery_beside {id' : Nat} (hne : id' ≠ id) :
    CoversDelivery (fun _ f => ∀ w, Beside id reportId w (f w)) id' where
  read := Beside.refl
  outbox := Beside.refl
  tick w := .of_tables rfl rfl rfl
  send f hf w := by
    obtain ⟨d, -, hw⟩ := hf w
    rw [hw]
    exact .of_tables rfl rfl rfl
  sent _ w := .modifyOutbox hne w _ _
  link _ f hf w := by
    rcases hf w with hw | ⟨l, t, hl, hinsert, hw⟩
    · rw [hw]
      exact .refl w
    · rw [hw]
      refine ⟨rfl, ?_, .inl rfl⟩
      rw [linkOf_insert hinsert, if_neg (hl ▸ hne), Option.or_none]
  failure _ _ w := .modifyOutbox hne w _ _

variable (out : Outside) {m : OutboxMessage} (hne : m.id ≠ id)
include hne

theorem flushOne_beside : StepsBeside id reportId (flushOne out m) :=
  (coversDelivery_beside hne).flushOne out fun _ _ _ => .of_tables rfl rfl rfl

theorem flushReportOne_beside : StepsBeside id reportId (flushReportOne out m) :=
  (coversDelivery_beside hne).flushReportOne out fun reportId' => Beside.mark reportId'

end

theorem flushOutbox_reports (out : Outside) : Keeps World.weeklyReports (flushOutbox out) := by
  have hcovers : ∀ id, CoversDelivery (fun _ f => ∀ w : World, (f w).weeklyReports = w.weeklyReports) id := by
    refine fun id => ⟨fun _ => rfl, fun _ => rfl, fun _ => rfl, fun f hf w => ?_, fun _ _ => rfl, fun _ f hf w => ?_,
      fun _ _ _ => rfl⟩
    · obtain ⟨d, -, hw⟩ := hf w
      rw [hw]
      rfl
    · rcases hf w with hw | ⟨l, t, -, -, hw⟩
      · rw [hw]
      · rw [hw]
  exact Always.bind (always_observe (fun _ => rfl) _) fun messages =>
    flushAll_always (fun m => (hcovers m.id).flushOne out fun _ _ _ => rfl) messages

/-! ### The round of the mail -/

section
variable {E : Env Stmt World Exc} (out : Outside) {m : OutboxMessage} {reportId : Text} {link₀ : Option MessageLink}
  {before after : Option WeeklyReport → Prop}

/-- The mail is pending, and its link is still `link₀`. -/
structure Waiting (m : OutboxMessage) (reportId : Text) (link₀ : Option MessageLink)
    (before : Option WeeklyReport → Prop) (w : World) : Prop where
  row : w.outbox.find? m.id = some m
  link : linkOf w m.id = link₀
  report : before (w.weeklyReports.find? reportId)

/-- The link of the mail, where `mark_sent` has written one. -/
def LinkAdded (m : OutboxMessage) (link₀ link : Option MessageLink) : Prop :=
  link = link₀ ∨ link₀ = none ∧ ∃ messageId createdAt, link = some ⟨m.id, m.jobId, messageId, createdAt⟩

/-- The mail is SENT and linked. -/
structure Booked (m : OutboxMessage) (reportId : Text) (link₀ : Option MessageLink)
    (after : Option WeeklyReport → Prop) (w : World) : Prop where
  row : ∃ sentAt, w.outbox.find? m.id = some { m with status := .sent, sentAt := some sentAt }
  link : LinkAdded m link₀ (linkOf w m.id)
  report : after (w.weeklyReports.find? reportId)

/-- The mail is not SENT, or it is booked. -/
def Over (m : OutboxMessage) (reportId : Text) (link₀ : Option MessageLink) (after : Option WeeklyReport → Prop)
    (w : World) : Prop :=
  outboxStatus w m.id ≠ some .sent ∨ Booked m reportId link₀ after w

/-- What of the database the reading of attachments and the sending of a mail keep. -/
def bookTables (w : World) : Table OutboxMessage.id × MessageLinks × Table WeeklyReport.reportId :=
  (w.outbox, w.messageLinks, w.weeklyReports)

theorem find_bookTables {w w' : World} (hsame : bookTables w' = bookTables w) (id : Nat) (reportId : Text) :
    w'.outbox.find? id = w.outbox.find? id ∧ linkOf w' id = linkOf w id ∧
      w'.weeklyReports.find? reportId = w.weeklyReports.find? reportId := by
  obtain ⟨houtbox, hrest⟩ := Prod.mk.inj hsame
  obtain ⟨hlinks, hreports⟩ := Prod.mk.inj hrest
  exact ⟨by rw [houtbox], by rw [linkOf, hlinks, linkOf], by rw [hreports]⟩

theorem Waiting.congr {w w' : World} (h : Waiting m reportId link₀ before w) (hsame : bookTables w' = bookTables w) :
    Waiting m reportId link₀ before w' := by
  obtain ⟨hrow, hlink, hreport⟩ := find_bookTables hsame m.id reportId
  exact ⟨hrow ▸ h.row, hlink ▸ h.link, hreport ▸ h.report⟩

theorem Booked.congr {w w' : World} (h : Booked m reportId link₀ after w) (hsame : bookTables w' = bookTables w) :
    Booked m reportId link₀ after w' := by
  obtain ⟨hrow, hlink, hreport⟩ := find_bookTables hsame m.id reportId
  exact ⟨hrow ▸ h.row, hlink ▸ h.link, hreport ▸ h.report⟩

theorem waiting_ensures {α : Type} {p : M α} (hp : Keeps bookTables p) {w : World}
    (hw : Waiting m reportId link₀ before w) :
    Ensures E (fun _ _ w' => Waiting m reportId link₀ before w') p w :=
  (Keeps.ensures hp w).mono fun _ _ _ hsame => hw.congr hsame

theorem booked_recordSent {w : World} (hw : Waiting m reportId link₀ before w) (now : Instant) :
    Booked m reportId link₀ before (Outbox.recordSent w m.id now) where
  row := by
    refine ⟨now, ?_⟩
    rw [Outbox.recordSent, World.modifyOutbox, Table.find?_modify, if_pos rfl, hw.row]
    rfl
  link := .inl hw.link
  report := hw.report

theorem link_books {w : World} (hw : Booked m reportId link₀ before w) (hlink : linkOf w m.id = link₀)
    (messageId : Text) (createdAt : Instant) :
    Ensures E (fun _ x w' => x = .ok () → Booked m reportId link₀ before w')
      (Outbox.link ⟨m.id, m.jobId, messageId, createdAt⟩) w := by
  refine ensures_atomic (fun hok => ?_) fun e _ h => by cases h
  cases hinsert : w.messageLinks.insert ⟨m.id, m.jobId, messageId, createdAt⟩ with
  | error e =>
    rw [hinsert] at hok
    cases hok
  | ok t =>
    have hfree : linkOf w m.id = none := linkOf_free hinsert
    refine ⟨hw.row, .inr ⟨hlink.symm.trans hfree, messageId, createdAt, ?_⟩, hw.report⟩
    dsimp only
    rw [linkOf_insert hinsert, hfree, if_pos rfl]
    rfl

theorem markSent_books (messageId : Text) {w : World} (hw : Waiting m reportId link₀ before w) :
    Ensures E (fun _ x w' => x = .ok () → Booked m reportId link₀ before w') (Outbox.markSent out m.id messageId) w := by
  have hselect : Ensures E (fun _ x w' => Waiting m reportId link₀ before w' ∧ ∀ row, x = .ok row → row = some m)
      (observe .selectOutbox fun w => w.outbox.find? m.id : M (Option OutboxMessage)) w := by
    refine ensures_observe ⟨hw, fun row hrow => ?_⟩ fun e _ => ⟨hw, fun row hrow => by cases hrow⟩
    exact (Except.ok.inj hrow).symm.trans hw.row
  refine Ensures.bind hselect (fun _ row w hrow => ?_) fun _ _ _ _ h => by cases h
  obtain ⟨hw, hrow⟩ := hrow
  obtain rfl := hrow row rfl
  refine Ensures.bind (waiting_ensures (always_atomic fun _ => rfl) hw) (fun _ now w hw => ?_)
    fun _ _ _ _ h => by cases h
  have hsent : Ensures E (fun _ x w' => x = .ok () → Booked m reportId link₀ before w' ∧ linkOf w' m.id = link₀)
      (Outbox.setSent m.id now) w :=
    ensures_change (fun _ => ⟨booked_recordSent hw now, hw.link⟩) fun e _ h => by cases h
  refine Ensures.bind hsent (fun _ _ w hbooked => ?_) fun _ _ _ _ h => by cases h
  obtain ⟨hbooked, hlink⟩ := hbooked rfl
  split_ifs
  · have hclock : Ensures E (fun _ _ w' => bookTables w' = bookTables w) (utcnow out) w :=
      Keeps.ensures (always_atomic fun _ => rfl) w
    refine Ensures.bind hclock (fun _ created w' hsame => ?_) fun _ _ _ _ h => by cases h
    have hlinks : w'.messageLinks = w.messageLinks := (Prod.mk.inj (Prod.mk.inj hsame).2).1
    exact link_books (hbooked.congr hsame) (by rw [linkOf, hlinks]; exact hlink) messageId created
  · exact ensures_ret fun _ => hbooked

theorem failureStatus_ne_sent (attempts : Nat) : Outbox.failureStatus attempts ≠ .sent := by
  unfold Outbox.failureStatus
  split_ifs
  · decide
  · decide

theorem markFailed_unsent (hE : Holding E) (id : Nat) (error : Text) (w : World) :
    Ensures E (fun _ _ w' => outboxStatus w' id ≠ some .sent) (Outbox.markFailed id error) w := by
  have hselect : Returns E (fun _ _ => True) (observe .selectOutbox fun w => w.outbox.find? id : M _) w :=
    store_holds hE rfl trivial
  refine hselect.then fun _ row w _ _ => ?_
  refine ensures_change ?_ fun e he => absurd ⟨_, w, rfl, he⟩ hE.no_fault
  rw [outboxStatus_recordFailure, if_pos rfl]
  cases outboxStatus w id with
  | none => simp
  | some status => simpa using failureStatus_ne_sent _

theorem deliverOne_books (hE : Holding E) {record : Text → M Unit} (errorText : Exc → Text)
    (hrecord : ∀ messageId w, Booked m reportId link₀ before w →
      Ensures E (fun _ x w' => x = .ok () → Booked m reportId link₀ after w') (record messageId) w)
    {w : World} (hw : Waiting m reportId link₀ before w) :
    Ensures E (fun _ _ w' => Over m reportId link₀ after w') (deliverOne out record errorText m) w := by
  refine Ensures.tryCatch (M := fun _ x w' => (∃ n : Nat, x = .ok n) → Booked m reportId link₀ after w') ?_
    (fun _ n w' hbooked => .inr (hbooked ⟨n, rfl⟩)) fun _ e w' _ => ?_
  · have hraised : ∀ {e : Exc} {w' : World}, (∃ n : Nat, Except.error e = Except.ok n) →
        Booked m reportId link₀ after w' := by
      rintro e w' ⟨n, hn⟩
      cases hn
    have hread : Keeps bookTables (readAttachments m.attachments) := readAttachments_always (fun _ => rfl) _
    have hsend : ∀ attachments, Keeps bookTables (sendEmail out m attachments) :=
      fun attachments => always_atomic fun _ => rfl
    refine Ensures.bind (waiting_ensures hread hw) (fun _ attachments w hw => ?_) fun _ _ _ _ => hraised
    refine Ensures.bind (waiting_ensures (hsend attachments) hw) (fun _ messageId w hw => ?_) fun _ _ _ _ => hraised
    refine Ensures.bind (markSent_books out messageId hw) (fun _ _ w hbooked => ?_) fun _ _ _ _ => hraised
    refine Ensures.bind (hrecord messageId w (hbooked rfl)) (fun _ _ w hbooked => ?_) fun _ _ _ _ => hraised
    exact ensures_ret fun _ => hbooked rfl
  · refine Ensures.bind (markFailed_unsent hE m.id (errorText e) w') (fun _ _ w hunsent => ?_) fun _ _ _ h => .inl h
    exact ensures_ret (.inl hunsent)

theorem flushOne_books (hE : Holding E) {w : World} (hw : Waiting m reportId link₀ before w) :
    Ensures E (fun _ _ w' => Over m reportId link₀ before w') (flushOne out m) w := by
  refine deliverOne_books out hE _ (fun messageId w hbooked => ?_) hw
  cases truthy m.jobId with
  | none => exact ensures_ret fun _ => hbooked
  | some jobId =>
    have hkeeps : Keeps bookTables (JobStore.update jobId [.lastResponseMessageId (some messageId)]) :=
      always_change fun _ => rfl
    exact (Keeps.ensures hkeeps w).mono fun _ _ _ hsame _ => hbooked.congr hsame

theorem flushReportOne_books (hE : Holding E) (hjob : m.jobId = some reportId) (hreport : isReportMail m = true)
    (hmark : ∀ r, before r → after (r.map markReport)) {w : World} (hw : Waiting m reportId link₀ before w) :
    Ensures E (fun _ _ w' => Over m reportId link₀ after w') (flushReportOne out m) w := by
  unfold flushReportOne
  rw [if_pos hreport, hjob]
  refine deliverOne_books out hE _ (fun _ w hbooked => ?_) hw
  refine ensures_change (fun _ => ⟨hbooked.row, hbooked.link, ?_⟩) fun e _ h => by cases h
  have hfind := find?_mark reportId reportId w
  rw [if_pos rfl] at hfind
  show after ((ReportStore.writeStatus w reportId .sent none none none).weeklyReports.find? reportId)
  rw [hfind]
  exact hmark _ hbooked.report

end

/-! ### A whole call -/

section
variable {E : Env Stmt World Exc} {m : OutboxMessage} {reportId : Text} {link₀ : Option MessageLink}
  {before after : Option WeeklyReport → Prop}

theorem Waiting.beside (hbefore : ∀ r, before r → before (r.map markReport)) {w w' : World}
    (h : Waiting m reportId link₀ before w) (hw : Beside m.id reportId w w') : Waiting m reportId link₀ before w' := by
  refine ⟨hw.row.trans h.row, hw.link.trans h.link, ?_⟩
  rcases hw.report with hsame | hmark
  · exact hsame ▸ h.report
  · exact hmark ▸ hbefore _ h.report

theorem Over.beside (hafter : ∀ r, after r → after (r.map markReport)) {w w' : World}
    (h : Over m reportId link₀ after w) (hw : Beside m.id reportId w w') : Over m reportId link₀ after w' := by
  rcases h with hunsent | hbooked
  · refine .inl ?_
    rw [outboxStatus, hw.row]
    exact hunsent
  · refine .inr ⟨by rw [hw.row]; exact hbooked.row, by rw [hw.link]; exact hbooked.link, ?_⟩
    rcases hw.report with hsame | hmark
    · exact hsame ▸ hbooked.report
    · exact hmark ▸ hafter _ hbooked.report

theorem Waiting.over (hpending : m.status = .pending) {w : World} (h : Waiting m reportId link₀ before w) :
    Over m reportId link₀ after w := by
  refine .inl ?_
  rw [outboxStatus, h.row, Option.map_some, hpending]
  decide

/-- The loop: the rounds before the mail leave it waiting, and those after it leave it as its own round has. -/
theorem flushAll_books {flush : OutboxMessage → M Nat} (hpending : m.status = .pending)
    (hbefore : ∀ r, before r → before (r.map markReport)) (hafter : ∀ r, after r → after (r.map markReport))
    (hother : ∀ m', m'.id ≠ m.id → StepsBeside m.id reportId (flush m'))
    (hround : ∀ w, Waiting m reportId link₀ before w →
      Ensures E (fun _ _ w' => Over m reportId link₀ after w') (flush m) w)
    {messages : List OutboxMessage} (hnodup : (messages.map OutboxMessage.id).Nodup) {w : World}
    (hw : Waiting m reportId link₀ before w ∧ m ∈ messages ∨
      Over m reportId link₀ after w ∧ m.id ∉ messages.map OutboxMessage.id) :
    Ensures E (fun _ _ w' => Over m reportId link₀ after w') (flushAll flush messages) w := by
  induction messages generalizing w with
  | nil =>
    refine ensures_ret ?_
    rcases hw with ⟨-, hm⟩ | ⟨hover, -⟩
    · cases hm
    · exact hover
  | cons m' messages ih =>
    rw [List.map_cons, List.nodup_cons] at hnodup
    have hrest : ∀ (n : Nat) w, (Waiting m reportId link₀ before w ∧ m ∈ messages ∨
        Over m reportId link₀ after w ∧ m.id ∉ messages.map OutboxMessage.id) →
        Ensures E (fun _ _ w' => Over m reportId link₀ after w')
          ((flushAll flush messages).bind fun rest => ret (n + rest)) w := fun n w hw =>
      Ensures.bind (ih hnodup.2 hw) (fun _ _ _ hover => ensures_ret hover) fun _ _ _ hover => hover
    rcases hw with ⟨hwaiting, hm⟩ | ⟨hover, hm⟩
    · rcases List.mem_cons.1 hm with rfl | hm
      · exact Ensures.bind (hround w hwaiting) (fun _ n w hover => hrest n w (.inr ⟨hover, hnodup.1⟩))
          fun _ _ _ hover => hover
      · have hne : m'.id ≠ m.id := fun he => hnodup.1 (he ▸ List.mem_map_of_mem hm)
        refine Ensures.bind ((hother m' hne).ensures w) (fun _ n w' hw => ?_) fun _ _ w' hw => ?_
        · exact hrest n w' (.inl ⟨hwaiting.beside hbefore hw, hm⟩)
        · exact (hwaiting.beside hbefore hw).over hpending
    · rw [List.map_cons, List.mem_cons, not_or] at hm
      refine Ensures.bind ((hother m' (Ne.symm hm.1)).ensures w) (fun _ n w' hw => ?_) fun _ _ w' hw => ?_
      · exact hrest n w' (.inr ⟨hover.beside hafter hw, hm.2⟩)
      · exact hover.beside hafter hw

theorem flushPending_books (before : Option WeeklyReport → Prop) {flush : OutboxMessage → M Nat}
    (hbefore : ∀ r, before r → before (r.map markReport)) (hafter : ∀ r, after r → after (r.map markReport))
    (hother : ∀ m', m'.id ≠ m.id → StepsBeside m.id reportId (flush m')) {w : World} (hm : m ∈ Outbox.pendingRows w)
    (hround : ∀ w', Waiting m reportId (linkOf w m.id) before w' →
      Ensures E (fun _ _ w'' => Over m reportId (linkOf w m.id) after w'') (flush m) w')
    (hreport : before (w.weeklyReports.find? reportId)) :
    Ensures E (fun _ _ w' => Over m reportId (linkOf w m.id) after w') (Outbox.pending.bind (flushAll flush)) w := by
  have hmem : m ∈ w.outbox.rows.filter fun m => m.status = .pending := (List.perm_insertionSort _ _).mem_iff.1 hm
  obtain ⟨hrow, hstatus⟩ := List.mem_filter.1 hmem
  have hpending : m.status = .pending := of_decide_eq_true hstatus
  have hwaiting : Waiting m reportId (linkOf w m.id) before w := ⟨Table.find?_of_mem hrow, rfl, hreport⟩
  have hread : Ensures E (fun _ x w' => w' = w ∧ ∀ messages, x = .ok messages → messages = Outbox.pendingRows w)
      Outbox.pending w := by
    refine ensures_observe ⟨rfl, fun messages hx => ?_⟩ fun e _ => ⟨rfl, fun messages hx => by cases hx⟩
    exact (Except.ok.inj hx).symm
  refine Ensures.bind hread (fun _ messages w' hx => ?_) fun _ _ w' hx => ?_
  · obtain ⟨rfl, hmessages⟩ := hx
    obtain rfl := hmessages messages rfl
    exact flushAll_books hpending hbefore hafter hother hround (pendingRows_nodup w') (.inl ⟨hwaiting, hm⟩)
  · obtain ⟨rfl, -⟩ := hx
    exact hwaiting.over hpending

variable (hE : Holding E) (out : Outside)
include hE

/-- **`flush_outbox`** books a mail or leaves it unsent; it has no eye for the report. -/
theorem flushOutbox_books (reportId : Text) {w : World} (hm : m ∈ Outbox.pendingRows w) :
    Ensures E (fun _ _ w' => Over m reportId (linkOf w m.id) (fun _ => True) w' ∧ w'.weeklyReports = w.weeklyReports)
      (flushOutbox out) w := by
  refine Ensures.and ?_ (Keeps.ensures (flushOutbox_reports out) w)
  exact flushPending_books (fun _ => True) (fun _ _ => trivial) (fun _ _ => trivial)
    (fun m' hne => flushOne_beside out hne) hm (fun w' hw => flushOne_books out hE hw) trivial

/-- **`_flush_report_outbox`** books a report mail and marks the report, or leaves the mail unsent. -/
theorem flushReportOutbox_books {w : World} (hm : m ∈ Outbox.pendingRows w) (hjob : m.jobId = some reportId)
    (hreport : isReportMail m = true) :
    Ensures E (fun _ _ w' => Over m reportId (linkOf w m.id)
        (fun r => r = (w.weeklyReports.find? reportId).map markReport) w') (flushReportOutbox out) w := by
  refine flushPending_books
    (fun r => r = w.weeklyReports.find? reportId ∨ r = (w.weeklyReports.find? reportId).map markReport)
    (fun r hr => .inr ?_) (fun r hr => ?_) (fun m' hne => flushReportOne_beside out hne) hm
    (fun w' hw => flushReportOne_books out hE hjob hreport (fun r hr => ?_) hw) (.inl rfl)
  · rcases hr with rfl | rfl
    · rfl
    · exact markReport_markReport _
  · rw [hr, markReport_markReport]
  · rcases hr with rfl | rfl
    · rfl
    · exact markReport_markReport _

end

/-! ### The two calls -/

theorem SentUnder.booked {m : OutboxMessage} {reportId : Text} {link₀ : Option MessageLink}
    {after : Option WeeklyReport → Prop} {w : World} {messageId : Text} (h : SentUnder w m.id messageId)
    (hover : Over m reportId link₀ after w) : Booked m reportId link₀ after w :=
  hover.resolve_left fun hunsent => hunsent h.1

theorem LinkAdded.undated {m : OutboxMessage} {link₀ link link' : Option MessageLink} {messageId : Text}
    (h : LinkAdded m link₀ link) (h' : LinkAdded m link₀ link') (hid : link.map MessageLink.messageId = some messageId)
    (hid' : link'.map MessageLink.messageId = some messageId) :
    link.map MessageLink.undated = link'.map MessageLink.undated := by
  rcases h with rfl | ⟨rfl, id, t, rfl⟩
  · rcases h' with rfl | ⟨rfl, -⟩
    · rfl
    · cases hid
  · rcases h' with rfl | ⟨-, id', t', rfl⟩
    · cases hid'
    · obtain rfl : id = messageId := Option.some.inj hid
      obtain rfl : id' = id := Option.some.inj hid'
      rfl

/-- A report is as the weekly command leaves it exactly if it was SENT without an error. -/
theorem undated_markReport_iff (r : WeeklyReport) :
    r.undated = (markReport r).undated ↔ r.status = .sent ∧ r.lastError = none := by
  constructor
  · intro h
    exact ⟨congrArg WeeklyReport.status h, congrArg WeeklyReport.lastError h⟩
  · rintro ⟨hstatus, herror⟩
    have hmark : markReport r = { r with status := .sent, lastError := none } := rfl
    rw [hmark, ← hstatus, ← herror]

/-- **The two calls leave the same books**, with the report SENT, exactly if the report, where there is one, was SENT
without an error before. -/
theorem same_books_iff {E : Env Stmt World Exc} (hE : Holding E) (out out' : Outside) {w w₁ w₂ : World}
    {m : OutboxMessage} (hm : m ∈ Outbox.pendingRows w) (hreport : isReportMail m = true) {reportId messageId : Text}
    (hjob : m.jobId = some reportId) {h₁ h₂ : History Stmt World Exc} {x₁ x₂ : Except Exc Nat}
    (hflush : Exec E (flushOutbox out) w h₁ x₁ w₁) (hsent : SentUnder w₁ m.id messageId)
    (hflush' : Exec E (flushReportOutbox out') w h₂ x₂ w₂) (hsent' : SentUnder w₂ m.id messageId) :
    (SameBooks m.id reportId w₁ w₂ ∧ (∀ r ∈ w₁.weeklyReports.find? reportId, r.status = .sent) ∧
        ∀ r ∈ w₂.weeklyReports.find? reportId, r.status = .sent) ↔
      ∀ r ∈ w.weeklyReports.find? reportId, r.status = .sent ∧ r.lastError = none := by
  obtain ⟨hover, hreports⟩ := flushOutbox_books hE out reportId hm _ _ _ hflush
  have hover' := flushReportOutbox_books hE out' hm hjob hreport _ _ _ hflush'
  obtain ⟨⟨t, hrow⟩, hlink, -⟩ := hsent.booked hover
  obtain ⟨⟨t', hrow'⟩, hlink', hmarked⟩ := hsent'.booked hover'
  have hsame : SameBooks m.id reportId w₁ w₂ ↔
      (w.weeklyReports.find? reportId).map WeeklyReport.undated =
        ((w.weeklyReports.find? reportId).map markReport).map WeeklyReport.undated := by
    refine ⟨fun h => ?_, fun h => ⟨?_, hlink.undated hlink' hsent.2 hsent'.2, ?_⟩⟩
    · rw [← hmarked, ← hreports]
      exact h.report
    · rw [hrow, hrow']
      rfl
    · rw [hmarked, hreports]
      exact h
  rw [hsame, hmarked, hreports]
  cases w.weeklyReports.find? reportId with
  | none => simp
  | some r =>
    simp only [Option.map_some, Option.some.injEq, Option.mem_def, forall_eq']
    rw [undated_markReport_iff]
    exact ⟨fun h => h.1, fun h => ⟨h, h.1, rfl⟩⟩

/-- The report of `reportMail`, with its mail in the outbox. -/
def bookedWorld (status : ReportStatus) : World where
  outbox := reportWorld.outbox
  weeklyReports := ⟨[{ reportId := "WEEKLY-2026-08-03-0001", groupId := 7, groupName := "Team A"
                       ownerEmail := "alice@uni.ac.uk", backendUserId := 1, periodStart := "2026-07-27"
                       periodEnd := "2026-08-03", status := status, createdAt := 0 }], List.nodup_singleton _⟩

theorem bookedWorld_sent (status : ReportStatus) :
    SentUnder ((flushOutbox .plain).run (bookedWorld status)).2 reportMail.id "<0@out>" ∧
      SentUnder ((flushReportOutbox .plain).run (bookedWorld status)).2 reportMail.id "<0@out>" := by
  cases status <;> exact ⟨⟨by decide +kernel, by decide +kernel⟩, by decide +kernel, by decide +kernel⟩

/-- A report that is SENT already. -/
theorem same_books_iff_sent :
    SameBooks reportMail.id "WEEKLY-2026-08-03-0001" ((flushOutbox .plain).run (bookedWorld .sent)).2
      ((flushReportOutbox .plain).run (bookedWorld .sent)).2 := by
  obtain ⟨_, hflush, -⟩ := exec_run (E := Surroundings) (fun _ _ => trivial) (flushOutbox .plain) (bookedWorld .sent)
  obtain ⟨_, hflush', -⟩ :=
    exec_run (E := Surroundings) (fun _ _ => trivial) (flushReportOutbox .plain) (bookedWorld .sent)
  obtain ⟨hsent, hsent'⟩ := bookedWorld_sent .sent
  have hm : reportMail ∈ Outbox.pendingRows (bookedWorld .sent) := by decide
  refine ((same_books_iff holding_surroundings .plain .plain hm (by decide) rfl hflush hsent hflush' hsent').2 ?_).1
  decide +kernel

/-- A report that is QUEUED stays so when the mail loop sends its mail. -/
theorem queued_report_stays :
    ∃ (w w₁ w₂ : World) (m : OutboxMessage) (reportId messageId : Text) (h₁ h₂ : History Stmt World Exc)
      (x₁ x₂ : Except Exc Nat), m ∈ Outbox.pendingRows w ∧ isReportMail m = true ∧ m.jobId = some reportId ∧
        Exec Surroundings (flushOutbox .plain) w h₁ x₁ w₁ ∧ SentUnder w₁ m.id messageId ∧
        Exec Surroundings (flushReportOutbox .plain) w h₂ x₂ w₂ ∧ SentUnder w₂ m.id messageId ∧
          ¬ (SameBooks m.id reportId w₁ w₂ ∧ (∀ r ∈ w₁.weeklyReports.find? reportId, r.status = .sent) ∧
            ∀ r ∈ w₂.weeklyReports.find? reportId, r.status = .sent) := by
  obtain ⟨h₁, hflush, -⟩ := exec_run (E := Surroundings) (fun _ _ => trivial) (flushOutbox .plain) (bookedWorld .queued)
  obtain ⟨h₂, hflush', -⟩ :=
    exec_run (E := Surroundings) (fun _ _ => trivial) (flushReportOutbox .plain) (bookedWorld .queued)
  obtain ⟨hsent, hsent'⟩ := bookedWorld_sent .queued
  refine ⟨_, _, _, reportMail, "WEEKLY-2026-08-03-0001", "<0@out>", h₁, h₂, _, _, by decide, by decide, rfl, hflush,
    hsent, hflush', hsent', fun h => ?_⟩
  have hqueued : (((flushOutbox .plain).run (bookedWorld .queued)).2.weeklyReports.find? "WEEKLY-2026-08-03-0001").map
      WeeklyReport.status = some .queued := by decide +kernel
  obtain ⟨r, hr, hstatus⟩ := Option.map_eq_some_iff.1 hqueued
  cases hstatus.symm.trans (h.2.1 r hr)

end GroupAssessmentAgent
