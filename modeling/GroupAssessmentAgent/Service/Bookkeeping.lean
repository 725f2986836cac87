import GroupAssessmentAgent.Outbox.Delivery
import GroupAssessmentAgent.Pipeline.Observation
import GroupAssessmentAgent.Reports.Frame
import GroupAssessmentAgent.Service.Books
import GroupAssessmentAgent.Service.Installation

/-!
# The program keeps the books

Each step of the mail loop, of the worker and of the weekly command leaves the books as they are or makes one of their
moves (`BookMoves`), whatever the other threads do meanwhile, as long as they move the books as well. What a program
has once read stays true, for the books only grow: a job that `get_owned` has found still belongs to the sender when the
mail about it is written. So there is one lemma for each way to find a job or a report, and what follows the find only
has to write mails to the one it was found for.
-/

namespace GroupAssessmentAgent
open Prog

/-! ### Statements and books -/

namespace Job

theorem set_origin (j : Job) (v : JobField) : (j.set v).origin = j.origin := by
  cases v <;> rfl

@[simp] theorem setAll_origin (j : Job) (fields : List JobField) : (j.setAll fields).origin = j.origin :=
  setAll_keeps (fun v _ j => set_origin j v) j

end Job

theorem books_modifyJob (w : World) (jobId : Text) (f : Job → Job) (hf : ∀ j, (f j).jobId = j.jobId)
    (horigin : ∀ j, (f j).origin = j.origin) : (w.modifyJob jobId f hf).books = w.books :=
  congrArg (fun jobs => { w.books with jobs }) (Table.map_modify Job.origin w.jobs jobId f hf horigin)

theorem books_modifyOutbox (w : World) (id : Nat) (f : OutboxMessage → OutboxMessage) (hf : ∀ r, (f r).id = r.id)
    (hletter : ∀ r, (f r).letter = r.letter) : (w.modifyOutbox id f hf).books = w.books :=
  congrArg (fun letters => { w.books with letters }) (Table.map_modify OutboxMessage.letter w.outbox id f hf hletter)

theorem books_writeStatus (w : World) (reportId : Text) (status : ReportStatus) (reportText error : Option Text)
    (now : Option Instant) : (ReportStore.writeStatus w reportId status reportText error now).books = w.books := by
  have hrows := Table.map_modify WeeklyReport.origin w.weeklyReports reportId
    (fun r => ReportStore.withStatus r status reportText error now) (fun _ => rfl) fun _ => rfl
  exact congrArg (fun reports => { w.books with reports }) hrows

section
variable [PyChars] (known : Text → Prop)

def BookMoves (w w' : World) : Prop := Books.Moves known w.books w'.books

/-- From the states in `P`, the step leaves the books or moves them. -/
def MovesBooks (P : World → Prop) (_ : Stmt) (f : World → World) : Prop := ∀ w, P w → BookMoves known w (f w)

variable {known}

theorem BookMoves.refl (w : World) : BookMoves known w w := Relation.ReflTransGen.refl

theorem BookMoves.trans {a b c : World} (h : BookMoves known a b) (h' : BookMoves known b c) : BookMoves known a c :=
  Relation.ReflTransGen.trans h h'

theorem BookMoves.of_books {w w' : World} (h : w'.books = w.books) : BookMoves known w w' := by
  rw [BookMoves, h]

section
variable {P : World → Prop}

theorem covers_books : Covers (MovesBooks known P) (fun _ => True)
    fun m => ∀ w, P w → w.books.Addressed known m.letter where
  look _ _ w _ := .refl w
  ask _ w _ := .refl w
  tick w _ := .refl w
  job jobId fields _ w _ := .of_books (books_modifyJob w jobId _ _ fun j => Job.setAll_origin j fields)
  status jobId _ _ fields _ _ w _ := .of_books (books_modifyJob w jobId _ _ fun _ => Job.setAll_origin _ fields)
  outbox row hrow haddressed w hw := by
    have hbooks : World.books { w with outbox := w.outbox.append row hrow } =
        { w.books with letters := w.books.letters ++ [(row w.outbox.next).letter] } := by
      simp only [World.books, Table.append, List.map_append, List.map_cons, List.map_nil]
    rw [BookMoves, hbooks]
    refine .single (.letter _ (haddressed _ w hw) fun l hl => ?_)
    obtain ⟨m, hm, rfl⟩ := List.mem_map.1 hl
    exact (Table.lt_next hm).trans_eq (hrow _).symm
  put _ _ w _ := .refl w
  delete _ _ w _ := .refl w
  alert _ w _ := .refl w
  files _ f _ hf w _ := by
    obtain ⟨t, n, h⟩ := hf w
    rw [h]
    exact .refl w

theorem coversMarks_books : CoversMarks (MovesBooks known P) fun _ => True := by
  refine ⟨⟨fun _ f _ hf w _ => ?_, fun _ f _ hf w _ => ?_⟩, fun _ w _ => .refl w⟩
  · obtain ⟨t, h, -⟩ := hf w
    rw [h]
    exact .refl w
  · obtain ⟨t, h, -⟩ := hf w
    rw [h]
    exact .refl w

theorem coversModel_books : CoversModel (MovesBooks known P) := ⟨fun w _ => .refl w, fun w _ => .refl w⟩

theorem coversCalls_books : CoversCalls (MovesBooks known P) := fun _ w _ => .refl w

theorem coversReport_books (reportId : Text) : CoversReport (MovesBooks known P) reportId fun _ => True where
  status status reportText error now _ w _ := .of_books (books_writeStatus w reportId status reportText error now)
  evidence _ _ _ hf w _ := by
    obtain ⟨t, h⟩ := hf w
    rw [h]
    exact .refl w

end

/-! ### Programs among threads that keep the books -/

/-- The books have grown. -/
def BooksGrow (w w' : World) : Prop := w.books.Grows w'.books

theorem BookMoves.grow {w w' : World} (h : BookMoves known w w') : BooksGrow w w' := Books.Moves.grows h

/-- The job or the report of this id was opened for the owner of the address. -/
def BelongsTo (id address : Text) (w : World) : Prop := w.books.BelongsTo id address

theorem belongsTo_stable (address id : Text) : Stable BooksGrow (BelongsTo id address) :=
  fun _ _ h hw => Books.BelongsTo.grows hw h

/-- `P` holds of everything that the result names. -/
def Gives {α β : Type} (names : α → β → Prop) (P : β → World → Prop) (x : Except Exc α) (w : World) : Prop :=
  ∀ a, x = .ok a → ∀ b, names a b → P b w

section
variable {α β : Type} {names : α → β → Prop} {P : β → World → Prop}

omit [PyChars] in
theorem gives_ok {a : α} {w : World} (h : ∀ b, names a b → P b w) : Gives names P (.ok a) w := by
  intro a' ha
  obtain rfl := Except.ok.inj ha
  exact h

omit [PyChars] in
theorem gives_error {e : Exc} {w : World} : Gives names P (.error e) w := by
  intro a ha
  cases ha

omit [PyChars] in
theorem gives_stable (hP : ∀ b, Stable BooksGrow (P b)) (x : Except Exc α) : Stable BooksGrow (Gives names P x) :=
  fun w w' h hx a ha b hb => hP b w w' h (hx a ha b hb)

end

/-- The ids in the result are those of jobs and reports that belong to the address. -/
abbrev GivesOwned {α : Type} (address : Text) (idOf : α → Option Text) : Except Exc α → World → Prop :=
  Gives (fun a id => id ∈ idOf a) fun id => BelongsTo id address

variable (known) in
/-- A judgement among threads that all move the books. -/
abbrev Keeping {α : Type} (E : Env Stmt World Exc) (Q : Except Exc α → World → Prop) (p : M α) (w : World) : Prop :=
  RG E (BookMoves known) (BookMoves known) Q p w

variable {E : Env Stmt World Exc} {α : Type}

theorem stable_moves {P : World → Prop} (hP : Stable BooksGrow P) : Stable (BookMoves known) P :=
  fun w w' h => hP w w' h.grow

theorem keeping_of_always {P : World → Prop} (hP : Stable BooksGrow P) {p : M α}
    (hp : Always (MovesBooks known P) p) {w : World} (hw : P w) : Keeping known E (fun _ => P) p w :=
  hp.rg_keep (stable_moves hP) (fun _ _ hf s hs => ⟨hf s hs, hP _ _ (hf s hs).grow hs⟩) hw

theorem keeping {p : M α} (hp : Always (MovesBooks known fun _ => True) p) (w : World) :
    Keeping known E (fun _ _ => True) p w :=
  keeping_of_always (fun _ _ _ _ => trivial) hp trivial

section
variable {β : Type} {names : α → β → Prop} {P : β → World → Prop} (hP : ∀ b, Stable BooksGrow (P b))
include hP

theorem stable_gives (x : Except Exc α) : Stable (BookMoves known) (Gives names P x) :=
  stable_moves (gives_stable hP x)

theorem ret_gives {a : α} {w : World} (h : ∀ b, names a b → P b w) : Keeping known E (Gives names P) (ret a) w :=
  rg_ret (stable_gives hP) (gives_ok h)

theorem observe_gives (l : Stmt) {find : World → α} (hfind : ∀ s b, names (find s) b → P b s) (w : World) :
    Keeping known E (Gives names P) (observe l find) w :=
  rg_observe (P := fun _ => True) (fun _ _ _ _ => trivial) (stable_gives hP)
    (fun s _ => ⟨.refl s, gives_ok (hfind s)⟩) (fun _ _ _ _ => gives_error) trivial

end

/-! ### Jobs that are found -/

theorem mailboxOf_of_lower {a a' : Text} (h : lower a = lower a') : mailboxOf a = mailboxOf a' := by
  rw [mailboxOf, mailboxOf, ← PyChars.strip_lower, ← PyChars.strip_lower, h]

theorem belongsTo_of_job {w : World} {j : Job} (hj : j ∈ w.jobs.rows) {address : Text} (hown : j.OwnedBy address) :
    BelongsTo j.jobId address w :=
  .inl ⟨j.origin, List.mem_map_of_mem hj, rfl, mailboxOf_of_lower hown⟩

theorem getOwned_keeping (jobId senderEmail : Text) (w : World) :
    Keeping known E (GivesOwned senderEmail (Option.map Job.jobId)) (JobStore.getOwned jobId senderEmail) w := by
  refine observe_gives (belongsTo_stable _) _ (fun s id hid => ?_) w
  obtain ⟨j, hj, rfl⟩ := Option.map_eq_some_iff.1 hid
  obtain ⟨hfind, hown⟩ := Option.filter_eq_some_iff.1 hj
  exact belongsTo_of_job (Table.find?_mem hfind) (of_decide_eq_true hown)

theorem findByResponse_owned {w : World} {messageId senderEmail : Text} {j : Job}
    (h : JobStore.findByResponse w messageId senderEmail = some j) : j ∈ w.jobs.rows ∧ j.OwnedBy senderEmail := by
  obtain ⟨⟨l, j'⟩, hr, rfl⟩ := Option.map_eq_some_iff.1 h
  obtain ⟨hjoin, hsame⟩ := List.mem_filter.1 (latest_mem hr)
  obtain ⟨_, _, hmem⟩ := List.mem_flatMap.1 hjoin
  obtain ⟨k, hk, heq⟩ := List.mem_map.1 hmem
  obtain rfl := (Prod.mk.inj heq).2
  exact ⟨List.mem_of_mem_filter hk, ownedBy_of_sqlLower (of_decide_eq_true hsame).2⟩

theorem findByLastResponse_owned {w : World} {messageId senderEmail : Text} {j : Job}
    (h : JobStore.findByLastResponse w messageId senderEmail = some j) : j ∈ w.jobs.rows ∧ j.OwnedBy senderEmail := by
  obtain ⟨hj, hsame⟩ := List.mem_filter.1 (latest_mem h)
  exact ⟨hj, congrArg lower (of_decide_eq_true hsame).2⟩

theorem matchReference_keeping (senderEmail ref : Text) (w : World) :
    Keeping known E (GivesOwned senderEmail (Option.map Job.jobId)) (ThreadMatcher.matchReference senderEmail ref)
      w := by
  have hlinked : Keeping known E (GivesOwned senderEmail (Option.map Job.jobId))
      (observe .selectJobs fun w => JobStore.findByResponse w ref senderEmail) w := by
    refine observe_gives (belongsTo_stable _) _ (fun s id hid => ?_) w
    obtain ⟨j, hj, rfl⟩ := Option.map_eq_some_iff.1 hid
    exact belongsTo_of_job (findByResponse_owned hj).1 (findByResponse_owned hj).2
  refine RG.bind BookMoves.refl hlinked (fun job s hs => ?_) fun _ _ _ => gives_error
  cases job with
  | some job => exact ret_gives (belongsTo_stable senderEmail) (hs _ rfl)
  | none =>
    refine observe_gives (belongsTo_stable _) _ (fun s id hid => ?_) s
    obtain ⟨j, hj, rfl⟩ := Option.map_eq_some_iff.1 hid
    exact belongsTo_of_job (findByLastResponse_owned hj).1 (findByLastResponse_owned hj).2

theorem matchReferences_keeping (senderEmail : Text) (refs : List Text) (w : World) :
    Keeping known E (GivesOwned senderEmail id) (ThreadMatcher.matchReferences senderEmail refs) w := by
  induction refs generalizing w with
  | nil => exact ret_gives (belongsTo_stable senderEmail) nofun
  | cons ref refs ih =>
    refine RG.bind BookMoves.refl (matchReference_keeping senderEmail ref w) (fun job s hs => ?_)
      fun _ _ _ => gives_error
    cases job with
    | none => exact ih s
    | some job => exact ret_gives (belongsTo_stable senderEmail) (hs _ rfl)

theorem matchJob_keeping (msg : EmailMessage) (senderEmail : Text) (w : World) :
    Keeping known E (GivesOwned senderEmail id) (ThreadMatcher.matchJob msg senderEmail) w := by
  refine RG.bind BookMoves.refl (matchReferences_keeping senderEmail _ w) (fun found s hs => ?_)
    fun _ _ _ => gives_error
  cases found with
  | some jobId => exact ret_gives (belongsTo_stable senderEmail) (hs _ rfl)
  | none =>
    simp only
    split
    · refine RG.bind BookMoves.refl (getOwned_keeping _ senderEmail s) (fun job s hs => ?_)
        fun _ _ _ => gives_error
      exact ret_gives (belongsTo_stable senderEmail) (hs job rfl)
    · exact ret_gives (belongsTo_stable senderEmail) nofun

theorem ownedJob_keeping (cmd : ValidatedCommand) (req : Request) (w : World) :
    Keeping known E (GivesOwned req.senderEmail fun job => some job.jobId) (ownedJob cmd req) w := by
  have hnamed : Keeping known E (GivesOwned req.senderEmail (Option.map Job.jobId)) (namedJob cmd req) w := by
    unfold namedJob
    cases cmd.jobId with
    | some jobId => exact getOwned_keeping jobId req.senderEmail w
    | none => exact ret_gives (belongsTo_stable req.senderEmail) nofun
  refine RG.bind BookMoves.refl hnamed (fun job s hs => ?_) fun _ _ _ => gives_error
  cases job with
  | none => exact rg_raise (stable_gives (belongsTo_stable _)) gives_error
  | some job => exact ret_gives (belongsTo_stable req.senderEmail) (hs _ rfl)

/-! ### Jobs that are opened -/

/-- The ids that start with this are ids of jobs. -/
def ForJobs (pre : Text) : Prop := ∀ n, startsWith (JobStore.jobIdOf pre n) "DIAR-" = true

omit [PyChars] in
theorem forJobs_jobIdPrefix (d : Instant.Date) : ForJobs (JobStore.jobIdPrefix d) := by
  intro n
  refine List.isPrefixOf_iff_prefix.2 ?_
  rw [JobStore.jobIdOf, JobStore.jobIdPrefix]
  exact (List.prefix_append _ _).trans (List.prefix_append _ _)

section
variable {senderEmail : Text} (hsender : known senderEmail)
include hsender

theorem insertJob_keeping {pre : Text} (hpre : ForJobs pre) (attempt : Nat) {row : Text → Job} (source : Text)
    (hid : ∀ jobId, (row jobId).jobId = jobId) (hrow : ∀ jobId, (row jobId).senderEmail = senderEmail) (w : World) :
    Keeping known E (GivesOwned senderEmail some) (JobStore.insertJob pre attempt row source) w := by
  refine rg_atomic (P := fun _ => True) (fun _ _ _ _ => trivial) (stable_gives (belongsTo_stable _))
    (fun s _ _ => ?_) (fun _ _ _ _ => gives_error) trivial
  simp only
  generalize (s.jobs.rows.filter fun j => likePrefix pre j.jobId).length + 1 + attempt = n
  split
  · next t ht =>
    let new := row (JobStore.jobIdOf pre n)
    have hfree : s.jobs.find? new.jobId = none := (Table.insert?_isSome _ _).1 (by rw [ht]; rfl)
    have hbooks : World.books { s with jobs := t } = { s.books with jobs := s.books.jobs ++ [new.origin] } := by
      simp only [World.books, Table.insert?_rows ht, List.map_append, List.map_cons, List.map_nil, new]
    refine ⟨?_, gives_ok fun id hmem => ?_⟩
    · rw [BookMoves, hbooks]
      have hknown : known new.senderEmail := by
        rw [hrow]
        exact hsender
      have hform : startsWith new.jobId "DIAR-" = true := by
        rw [hid]
        exact hpre n
      refine .single (.job new.origin hknown hform fun k hk => ?_)
      · obtain ⟨j, hj, rfl⟩ := List.mem_map.1 hk
        exact fun heq => Table.find?_eq_none.1 hfree (List.mem_map.2 ⟨j, hj, heq⟩)
    · obtain rfl := Option.some.inj hmem
      refine .inl ⟨new.origin, ?_, hid _, congrArg mailboxOf (hrow _)⟩
      rw [hbooks]
      exact List.mem_append_right _ List.mem_cons_self
  · exact ⟨.refl s, gives_error⟩

theorem createJob_keeping (out : Outside) (userId : Nat) (source operation : Text) (fields : List JobField)
    (w : World) : Keeping known E (GivesOwned senderEmail (Option.map Job.jobId))
      (JobStore.createJob out senderEmail userId source operation fields) w := by
  have hclock : ∀ s, Keeping known E (fun _ _ => True) (utcnow out) s := fun s => keeping (utcnow_always covers_books out) s
  refine RG.bind BookMoves.refl (hclock w) (fun now s _ => ?_) fun _ _ _ => gives_error
  have hpre := forJobs_jobIdPrefix now.date
  generalize JobStore.jobIdPrefix now.date = pre at hpre
  suffices hrounds : ∀ rounds attempt s, Keeping known E (GivesOwned senderEmail (Option.map Job.jobId))
      (JobStore.createJobFrom out senderEmail userId source operation fields pre rounds attempt) s from hrounds 10 0 s
  intro rounds
  induction rounds with
  | zero => exact fun _ s => rg_raise (stable_gives (belongsTo_stable _)) gives_error
  | succ rounds ih =>
    intro attempt s
    refine RG.bind BookMoves.refl (hclock s) (fun createdAt s _ => ?_) fun _ _ _ => gives_error
    let row := JobStore.received senderEmail userId source operation fields createdAt
    have hid : ∀ jobId, (row jobId).jobId = jobId := fun _ => by simp [row, JobStore.received]
    have hrow : ∀ jobId, (row jobId).senderEmail = senderEmail := fun _ => by simp [row, JobStore.received]
    have hcreate : Keeping known E (GivesOwned senderEmail (Option.map Job.jobId))
        ((JobStore.insertJob pre attempt row source).bind JobStore.get) s := by
      refine RG.bind BookMoves.refl (insertJob_keeping hsender hpre attempt source hid hrow s) (fun jobId s hs => ?_)
        fun _ _ _ => gives_error
      have hthere : BelongsTo jobId senderEmail s := hs jobId rfl jobId rfl
      refine rg_observe (stable_moves (belongsTo_stable senderEmail jobId))
        (stable_gives (belongsTo_stable _)) (fun s hs => ⟨.refl s, gives_ok fun id hid => ?_⟩)
        (fun _ _ _ _ => gives_error) hthere
      obtain ⟨job, hjob, rfl⟩ := Option.map_eq_some_iff.1 hid
      rw [Table.find?_key hjob]
      exact hs
    refine RG.tryCatch BookMoves.refl hcreate (fun _ _ hs => hs) fun e s _ => ?_
    split_ifs
    · exact ih _ s
    · exact rg_raise (stable_gives (belongsTo_stable _)) gives_error

end

end

end GroupAssessmentAgent
