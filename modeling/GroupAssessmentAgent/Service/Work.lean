import GroupAssessmentAgent.Service.MailLoop

/-!
# The worker, the weekly command and the flush loops keep the books

The worker has read the job that it works on, the weekly command reads its report again before it writes the mail, and a
flush loop has read the mail that it sends.
-/

namespace GroupAssessmentAgent
open Prog

section
variable [PyChars] {known : Text → Prop} {E : Env Stmt World Exc} (out : Outside)

/-! ### The worker -/

/-- The job belongs to the sender that its row names. -/
def IsHeld (job : Job) (w : World) : Prop := BelongsTo job.jobId job.senderEmail w

omit out in
theorem isHeld_stable (job : Job) : Stable BooksGrow (IsHeld job) := belongsTo_stable _ _

omit out in
theorem isHeld_of_mem {w : World} {job : Job} (h : job ∈ w.jobs.rows) : IsHeld job w :=
  belongsTo_of_job h rfl

section
variable {worker : JobWorker} (hadmin : ∀ a, some a = truthy worker.admin.adminEmail → known a)
include hadmin

omit out in
theorem jobMails_addressed (job : Job) :
    JobMails worker.admin job fun m => ∀ w, IsHeld job w → w.books.Addressed known m.letter :=
  ⟨fun _ hm _ hw => addressed_about hm hw, fun _ hto _ hjob w _ => addressed_plain hjob (hadmin _ hto) w⟩

omit hadmin in
theorem refreshed_keeping {job : Job} {w : World} (hw : IsHeld job w) :
    Keeping known E (Gives (fun found job' => found = some job') IsHeld) (SubmitTranscript.refreshed worker job) w := by
  unfold SubmitTranscript.refreshed
  cases truthy job.attachmentStoragePath with
  | none =>
    refine ret_gives isHeld_stable fun job' hsame => ?_
    obtain rfl := Option.some.inj hsame
    exact hw
  | some path =>
    refine RG.bind BookMoves.refl (keeping (moveTo_always covers_books path _) w) (fun moved s _ => ?_)
      fun _ _ _ => gives_error
    refine RG.bind BookMoves.refl (keeping (update_always covers_books trivial _) s) (fun _ s _ => ?_)
      fun _ _ _ => gives_error
    exact observe_gives isHeld_stable _ (fun _ _ hfind => isHeld_of_mem (Table.find?_mem hfind)) s

theorem executeJob_keeping {job : Job} {w : World} (hw : IsHeld job w) :
    Keeping known E (fun _ _ => True) (worker.executeJob out job) w := by
  have hmails := fun job => jobMails_addressed hadmin job
  unfold JobWorker.executeJob
  split_ifs
  · have hstart : Always (MovesBooks known (IsHeld job)) (JobStore.setStatus out job.jobId .processing []) :=
      setStatus_always covers_books out trivial _ _
    refine RG.bind BookMoves.refl (keeping_of_always (isHeld_stable job) hstart hw) (fun _ s hs => ?_)
      fun _ _ _ => trivial
    refine RG.bind BookMoves.refl (refreshed_keeping hs) (fun current s hs => ?_) fun _ _ _ => trivial
    cases current with
    | none => exact fun _ _ => trivial
    | some job =>
      refine (keeping_of_always (isHeld_stable job) ?_ (hs _ rfl job rfl)).inside
      refine Always.tryCatch ?_ fun e => ?_
      · exact SubmitTranscript.attempt_mails covers_books out job trivial coversCalls_books worker (hmails job).sender
      · exact SubmitTranscript.handleExecuteFailure_mails covers_books out job trivial worker (hmails job) _
  · refine (keeping_of_always (isHeld_stable job) ?_ hw).inside
    exact AssessQuery.execute_mails covers_books out job trivial coversCalls_books coversModel_books worker (hmails job)
  · exact fun _ _ => trivial

theorem runOnce_keeping (w : World) : Keeping known E (fun _ _ => True) (worker.runOnce out) w := by
  have hall : ∀ (jobs : List Job) (w : World), (∀ job ∈ jobs, IsHeld job w) →
      Keeping known E (fun _ _ => True) (worker.processAll out jobs) w := by
    intro jobs
    induction jobs with
    | nil => exact fun _ _ _ _ => trivial
    | cons job jobs ih =>
      intro w hw
      obtain ⟨hjob, hrest⟩ := List.forall_mem_cons.1 hw
      have hkeep : Stable (BookMoves known) fun s => ∀ job ∈ jobs, IsHeld job s :=
        fun s s' h hs job hmem => isHeld_stable job s s' h.grow (hs job hmem)
      have hone : Keeping known E (fun _ _ => True) (worker.processJob out job) w :=
        Inside.tryCatch BookMoves.refl (executeJob_keeping out hadmin hjob) fun _ _ _ _ => trivial
      exact RG.bind BookMoves.refl (hone.keep hkeep hrest) (fun _ s hs => ih s hs.2) fun _ _ _ => trivial
  have hlist : Keeping known E (Gives (fun jobs job => job ∈ jobs) IsHeld) JobStore.listQueued w :=
    observe_gives isHeld_stable _
      (fun _ _ hmem => isHeld_of_mem (List.mem_of_mem_filter ((List.mem_insertionSort _).1 hmem))) w
  refine RG.bind BookMoves.refl hlist (fun jobs s hs => ?_) fun _ _ _ => trivial
  exact Inside.bind BookMoves.refl (hall jobs s (hs jobs rfl)) fun _ _ _ _ => trivial

end

/-! ### Flushing -/

/-- The mail is one of those that were written. -/
def IsWritten (m : OutboxMessage) (w : World) : Prop := m.letter ∈ w.books.letters

omit [PyChars] out in
theorem isWritten_stable (m : OutboxMessage) : Stable BooksGrow (IsWritten m) :=
  fun _ _ h hw => h.letters.subset hw

omit out in
theorem readAttachments_keeping (paths : List Text) (w : World) :
    Keeping known E (Gives Eq fun files _ => files.map Prod.fst = paths.map pathName) (readAttachments paths) w := by
  have hstable : ∀ (paths : List Text) (files : List (Text × Bytes)),
      Stable BooksGrow fun _ => files.map Prod.fst = paths.map pathName := fun _ _ _ _ _ h => h
  induction paths generalizing w with
  | nil =>
    refine ret_gives (hstable []) fun files hsame => ?_
    rw [← hsame]
    rfl
  | cons path paths ih =>
    refine RG.bind BookMoves.refl (keeping (readBytes_always covers_books path) w) (fun content s _ => ?_)
      fun _ _ _ => gives_error
    refine RG.bind BookMoves.refl (ih s) (fun rest s hs => ?_) fun _ _ _ => gives_error
    refine ret_gives (hstable (path :: paths)) fun files hsame => ?_
    rw [← hsame, List.map_cons, List.map_cons, hs rest rfl rest rfl]

theorem sendEmail_keeping {m : OutboxMessage} {files : List (Text × Bytes)}
    (hfiles : files.map Prod.fst = m.attachments.map pathName) {w : World} (hw : IsWritten m w) :
    Keeping known E (fun _ _ => True) (sendEmail out m files) w := by
  refine rg_atomic (stable_moves (isWritten_stable m)) (fun _ _ _ _ _ => trivial) (fun s hs _ => ⟨?_, trivial⟩)
    (fun _ _ _ _ => trivial) hw
  exact .single (.delivery _ m.letter hs ⟨rfl, rfl, rfl, rfl, hfiles, rfl, rfl⟩)

theorem markSent_movesBooks (id : Nat) (messageId : Text) :
    Always (MovesBooks known fun _ => True) (Outbox.markSent out id messageId) := by
  refine Always.bind (always_observe (covers_books.look .selectOutbox rfl) _) fun row => ?_
  refine (utcnow_always covers_books out).bind fun now => ?_
  refine Always.bind (always_change fun w _ => .of_books (books_modifyOutbox w id _ _ fun _ => rfl)) fun _ => ?_
  split_ifs
  · refine (utcnow_always covers_books out).bind fun createdAt => always_atomic fun w _ => ?_
    simp only
    split
    · exact .refl w
    · exact .refl w
  · trivial

omit out in
theorem markFailed_books (id : Nat) (error : Text) :
    Always (MovesBooks known fun _ => True) (Outbox.markFailed id error) :=
  Always.bind (always_observe (covers_books.look .selectOutbox rfl) _) fun _ =>
    always_change fun w _ => .of_books (books_modifyOutbox w id _ _ fun _ => rfl)

theorem deliverOne_keeping {record : Text → M Unit}
    (hrecord : ∀ id, Always (MovesBooks known fun _ => True) (record id)) (errorText : Exc → Text) {m : OutboxMessage}
    {w : World} (hw : IsWritten m w) : Keeping known E (fun _ _ => True) (deliverOne out record errorText m) w := by
  refine Inside.tryCatch BookMoves.refl ?_ fun e s => ?_
  · have hfiles : Keeping known E (Gives Eq fun files _ => files.map Prod.fst = m.attachments.map pathName)
        (readAttachments m.attachments) w := readAttachments_keeping m.attachments w
    have hread := hfiles.keep (stable_moves (isWritten_stable m)) hw
    refine RG.bind BookMoves.refl hread (fun files s hs => ?_) fun _ _ _ => trivial
    refine Inside.bind BookMoves.refl (sendEmail_keeping out (hs.1 files rfl files rfl) hs.2) fun id s => keeping ?_ s
    exact (markSent_movesBooks out m.id id).bind fun _ => (hrecord id).bind fun _ => trivial
  · refine keeping ?_ s
    exact (markFailed_books m.id _).bind fun _ => trivial

omit out in
theorem flushPending_keeping {flush : OutboxMessage → M Nat}
    (hflush : ∀ m w, IsWritten m w → Keeping known E (fun _ _ => True) (flush m) w) (w : World) :
    Keeping known E (fun _ _ => True) (Outbox.pending.bind (flushAll flush)) w := by
  have hall : ∀ (messages : List OutboxMessage) (w : World), (∀ m ∈ messages, IsWritten m w) →
      Keeping known E (fun _ _ => True) (flushAll flush messages) w := by
    intro messages
    induction messages with
    | nil => exact fun _ _ _ _ => trivial
    | cons m messages ih =>
      intro w hw
      obtain ⟨hm, hrest⟩ := List.forall_mem_cons.1 hw
      have hkeep : Stable (BookMoves known) fun s => ∀ m ∈ messages, IsWritten m s :=
        fun s s' h hs m hmem => isWritten_stable m s s' h.grow (hs m hmem)
      refine RG.bind BookMoves.refl ((hflush m w hm).keep hkeep hrest) (fun n s hs => ?_) fun _ _ _ => trivial
      exact Inside.bind BookMoves.refl (ih s hs.2) fun _ _ _ _ => trivial
  have hpending : Keeping known E (Gives (fun messages m => m ∈ messages) IsWritten) Outbox.pending w :=
    observe_gives isWritten_stable _
      (fun _ _ hmem => List.mem_map_of_mem (List.mem_of_mem_filter ((List.mem_insertionSort _).1 hmem))) w
  exact RG.bind BookMoves.refl hpending (fun messages s hs => hall messages s (hs messages rfl)) fun _ _ _ => trivial

theorem flushOutbox_keeping (w : World) : Keeping known E (fun _ _ => True) (flushOutbox out) w := by
  refine flushPending_keeping (fun m w hw => deliverOne_keeping out (fun id => ?_) _ hw) w
  cases truthy m.jobId with
  | none => trivial
  | some jobId => exact update_always covers_books trivial _

theorem flushReportOutbox_keeping (w : World) : Keeping known E (fun _ _ => True) (flushReportOutbox out) w := by
  refine flushPending_keeping (fun m w hw => ?_) w
  unfold flushReportOne
  split_ifs
  · refine deliverOne_keeping out (fun _ => ?_) _ hw
    exact setReportStatus_always covers_books out (coversReport_books _) trivial _ _
  · exact fun _ _ => trivial

/-! ### The weekly command -/

theorem enqueue_keeping (reportId reportText : Text) (w : World) :
    Keeping known E (fun _ _ => True) (WeeklyReportWorkflow.enqueue out reportId reportText) w := by
  let Owned := fun report : WeeklyReport => BelongsTo reportId report.ownerEmail
  have hstable : ∀ report, Stable BooksGrow (Owned report) := fun report => belongsTo_stable report.ownerEmail reportId
  have hget : Keeping known E (Gives (fun found report => found = some report) Owned) (ReportStore.get reportId) w := by
    refine observe_gives hstable _ (fun s report hfind => ?_) w
    have hkey : report.reportId = reportId := Table.find?_key hfind
    exact .inr ⟨report.origin, List.mem_map_of_mem (Table.find?_mem hfind), hkey, rfl⟩
  have hreport : Keeping known E (Gives Eq Owned) (WeeklyReportWorkflow.knownReport reportId) w := by
    refine RG.bind BookMoves.refl hget (fun found s hs => ?_) fun _ _ _ => gives_error
    cases found with
    | none => exact rg_raise (stable_gives hstable) gives_error
    | some report =>
      refine ret_gives hstable fun report' hsame => ?_
      exact hs _ rfl report' (congrArg some hsame)
  refine RG.bind BookMoves.refl hreport (fun report s hs => ?_) fun _ _ _ => trivial
  refine (keeping_of_always (hstable report) ?_ (hs report rfl report rfl)).inside
  refine (setReportStatus_always covers_books out (coversReport_books _) trivial _ _).bind fun _ => ?_
  refine Always.bind ?_ fun _ => trivial
  exact enqueue_always covers_books out _ _ _ _ _ _ _ fun _ _ w hw => addressed_about ⟨rfl, rfl, rfl⟩ hw

section
variable {p : WeeklyReportWorkflow} (hadmin : ∀ a, some a = truthy p.admin.adminEmail → known a)
include hadmin

theorem run_keeping (reportId : Text) (w : World) : Keeping known E (fun _ _ => True) (p.run out reportId) w := by
  refine Inside.bind BookMoves.refl (keeping (knownReport_always covers_books) w) fun report s => ?_
  split_ifs
  · exact fun _ _ => trivial
  · refine Inside.tryCatch BookMoves.refl ?_ fun e s => ?_
    · have hprepare : Always (MovesBooks known fun _ => True) (p.prepare out reportId) :=
        prepare_always covers_books out (coversReport_books reportId) coversCalls_books coversModel_books p trivial trivial
      exact Inside.bind BookMoves.refl (keeping hprepare s) fun reportText s =>
        enqueue_keeping out reportId reportText s
    · refine keeping ?_ s
      refine (setReportStatus_always covers_books out (coversReport_books _) trivial _ _).bind fun _ => ?_
      refine (alert_always covers_books out _ _ _ _ fun _ hto _ hjob w _ => ?_).bind fun _ => trivial
      exact addressed_plain hjob (hadmin _ hto) w

end

theorem call_keeping (c : ReportStore.Wanted) (howner : known c.ownerEmail) (w : World) :
    Keeping known E (fun _ _ => True) (c.call out) w := by
  refine Inside.bind BookMoves.refl (keeping (utcnow_always covers_books out) w) fun now s => ?_
  refine Inside.bind BookMoves.refl ?_ fun _ s => keeping (always_observeE (covers_books.look .selectReports rfl) _) s
  refine keeping (always_atomic fun w _ => ?_) s
  simp only
  split_ifs
  · exact .refl w
  · split
    · next t ht =>
      let new := c.row now
      have hadd : w.weeklyReports.insert? new = some t := ht
      have hfree : w.weeklyReports.find? new.reportId = none := (Table.insert?_isSome _ _).1 (by rw [hadd]; rfl)
      have hbooks : World.books { w with weeklyReports := t } =
          { w.books with reports := w.books.reports ++ [new.origin] } := by
        simp only [World.books, Table.insert?_rows hadd, List.map_append, List.map_cons, List.map_nil]
      rw [BookMoves, hbooks]
      refine .single (.report new.origin howner ?_ fun k hk => ?_)
      · exact List.isPrefixOf_iff_prefix.2 (List.prefix_append _ _)
      · obtain ⟨r, hr, rfl⟩ := List.mem_map.1 hk
        exact fun heq => Table.find?_eq_none.1 hfree (List.mem_map.2 ⟨r, hr, heq⟩)
    · exact .refl w
  · exact .refl w

section
variable {u : WeeklyUpdate} (hadmin : ∀ a, some a = truthy u.workflow.admin.adminEmail → known a)
include hadmin

theorem updateGroups_keeping (calls : List ReportStore.Wanted) (howners : ∀ c ∈ calls, known c.ownerEmail) (w : World) :
    Keeping known E (fun _ _ => True) (u.updateGroups out calls) w := by
  induction calls generalizing w with
  | nil => exact fun _ _ => trivial
  | cons c calls ih =>
    obtain ⟨howner, hrest⟩ := List.forall_mem_cons.1 howners
    refine Inside.bind BookMoves.refl ?_ fun _ s => Inside.bind BookMoves.refl (ih hrest s) fun _ _ _ _ => trivial
    refine Inside.bind BookMoves.refl (call_keeping out c howner w) fun report s => ?_
    cases report with
    | none => exact fun _ _ => trivial
    | some report => exact run_keeping out hadmin report.reportId s

theorem updateOwners_keeping (period : Period) (owners : List (Text × Nat)) (howners : ∀ item ∈ owners, known item.1)
    (w : World) : Keeping known E (fun _ _ => True) (u.updateOwners out period owners) w := by
  induction owners generalizing w with
  | nil => exact fun _ _ => trivial
  | cons item owners ih =>
    obtain ⟨ownerEmail, userId⟩ := item
    obtain ⟨howner, hrest⟩ := List.forall_mem_cons.1 howners
    have hlisted : Always (MovesBooks known fun _ => True) (u.listed userId) := by
      refine Always.tryCatch (Always.bind ?_ fun _ => trivial) fun _ => trivial
      refine Always.bind (callBackend_always coversCalls_books _ _) fun token => ?_
      exact callBackend_always coversCalls_books _ _
    refine Inside.bind BookMoves.refl (keeping hlisted w) fun groups s => ?_
    cases groups with
    | none => exact ih hrest s
    | some groups =>
      have hcalls : ∀ c ∈ groups.map (WeeklyUpdate.wanted ownerEmail userId period), known c.ownerEmail := by
        intro c hc
        obtain ⟨group, -, rfl⟩ := List.mem_map.1 hc
        exact howner
      refine Inside.bind BookMoves.refl (updateGroups_keeping out hadmin _ hcalls s) fun _ s => ?_
      exact Inside.bind BookMoves.refl (ih hrest s) fun _ _ _ _ => trivial

theorem weeklyRun_keeping (howners : ∀ item ∈ u.owners, known item.1) (today : Instant.Date) (w : World) :
    Keeping known E (fun _ _ => True) (u.runOnce out today) w := by
  unfold WeeklyUpdate.runOnce
  split_ifs
  · exact fun _ _ => trivial
  · refine Inside.bind BookMoves.refl (keeping (always_ofExcept _) w) fun period s => ?_
    refine Inside.bind BookMoves.refl (updateOwners_keeping out hadmin period u.owners howners s) fun _ s => ?_
    exact Inside.bind BookMoves.refl (flushReportOutbox_keeping out s) fun _ _ _ _ => trivial

end

end

end GroupAssessmentAgent
