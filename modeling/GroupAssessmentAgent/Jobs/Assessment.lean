import GroupAssessmentAgent.Jobs.Outcomes

/-!
# How a question is answered

A question has two lookups: the transcripts, and GitHub and Trello together. `transcriptLookup` and `repositoryLookup`
say what each of them comes to, by what the clients answer; `Degrades` is what becomes of a job whose lookups do not
all fail. `execute` of `assess_query` does this exactly if the model can be reached, or the other lookup has no answer
either (`degrades_iff`): it takes the failure of the model for an unexpected one.
-/

namespace GroupAssessmentAgent
open Prog

namespace AssessQuery

/-! ### Lookups -/

/-- What a lookup comes to. -/
inductive Lookup where
  | unasked
  | answered (answer : Text)
  | unavailable (note : Text)
  deriving DecidableEq

namespace Lookup

def answer : Lookup → Option Text
  | answered answer => some answer
  | _ => none

def notes : Lookup → List Text
  | unavailable note => [note]
  | _ => []

/-- As the code holds it. -/
def pair (l : Lookup) : SourceAnswer := (l.answer, l.notes)

end Lookup

/-- Only the model may fail, and only in the way that its client says. -/
def ModelFails : Env Stmt World Exc := ⟨fun _ _ => True, fun l _ e => l = .generate ∧ e.kind = .ollamaUnavailable⟩

theorem holding_modelFails : Holding ModelFails := by
  rintro l w e ⟨rfl, -⟩
  rfl

/-- The model was reached each time it was asked. -/
def ModelReached (h : WorldHistory) : Prop := ∀ t ∈ h, t.label = .generate → t.fault = none

instance (h : WorldHistory) : Decidable (ModelReached h) := List.decidableBAll _ h

/-- What the clients of the sources raise. -/
structure RaiseTheirOwn (worker : JobWorker) : Prop where
  diarisation : ∀ n token groupId query e, worker.diarisation.searchTranscripts n token groupId query = .error e →
    e.kind = .diarisationApiError
  find : ∀ n name e, worker.github.findRepoByGroupName n name = .error e → e.kind = .githubRaginatorApiError
  query : ∀ n repoId question e, worker.github.query n repoId question = .error e → e.kind = .githubRaginatorApiError

section
variable (out : Outside) (worker : JobWorker) (job : Job) (group : GroupSummary)

/-- What is made of the chunks, with the n-th answer of the model. -/
def synthesis (n : Nat) (question : Text) (chunks : List TranscriptChunk) : Text :=
  if chunks = [] then "I didn't find anything in past transcripts that speaks to this."
  else strip (out.generate n synthesisSystemPrompt (synthesisPrompt question chunks))

/-- The lookup of the transcripts by the n-th call and the g-th answer of the model, if that can be reached. -/
def transcriptLookup (token : Text) (reached : Bool) (n g : Nat) : Lookup :=
  match truthy job.transcriptFocus with
  | none => .unasked
  | some focus =>
    match worker.diarisation.searchTranscripts n token group.id focus with
    | .error _ => .unavailable "I couldn't check past meeting transcripts right now."
    | .ok chunks =>
      if chunks ≠ [] ∧ reached = false then .unavailable "I couldn't check past meeting transcripts right now."
      else .answered (synthesis out g focus chunks)

/-- The lookup of GitHub and Trello, from the n-th call on. -/
def repositoryLookup (n : Nat) : Lookup :=
  if projectFoci job = [] then .unasked
  else
    match worker.github.findRepoByGroupName n group.name with
    | .error _ => .unavailable "I couldn't check the GitHub repo/Trello board right now."
    | .ok none => .unavailable "Your group doesn't have a GitHub repo linked yet, so I couldn't check it."
    | .ok (some repo) =>
      match worker.github.query (n + 1) repo.id (join " " (projectFoci job)) with
      | .error _ => .unavailable "I couldn't check the GitHub repo/Trello board right now."
      | .ok answer => .answered answer

/-- The calls of the transcript lookup. -/
def transcriptCalls : Nat := if (truthy job.transcriptFocus).isSome then 1 else 0

/-- The mail with what the two lookups have come to, unnumbered. -/
def resultMail (t r : Lookup) : OutboxMessage :=
  job.request.mailOf (renderAssessResult job.jobId group.name t.answer r.answer
    ((truthy job.trelloFocus).isSome && (truthy r.answer).isSome) (t.notes ++ r.notes)) (some job.jobId) []

/-- The job is COMPLETED, and there is one mail, with each answer and a note on each lookup without one. -/
structure Answered (t r : Lookup) (w w' : World) : Prop where
  status : statusOf w' job.jobId = some .completed
  mail : ∃ m, w'.outbox.rows = w.outbox.rows ++ [m] ∧ m.unnumbered = resultMail job group t r ∧
    ∀ text, t.answer = some text ∨ r.answer = some text ∨ text ∈ t.notes ++ r.notes → strip text <:+: m.bodyText

/-- Where a lookup has an answer, the other one may fail. -/
def Degrades (t r : Lookup) (w w' : World) : Prop :=
  t.answer.isSome = true ∨ r.answer.isSome = true → Answered job group t r w w'

theorem callBackend_run {α : Type} (call : BackendCall) (answer : Nat → Except Exc α) (w : World) :
    (callBackend call answer).run w = (answer w.backendCalls, { w with backendCalls := w.backendCalls + 1 }) :=
  run_atomic _ _ _

theorem askRepository_run (hown : RaiseTheirOwn worker) (w : World) :
    ∃ n, (askRepository worker job group).run w =
      (.ok (repositoryLookup worker job group w.backendCalls).pair, { w with backendCalls := n }) := by
  unfold askRepository repositoryLookup
  generalize join " " (projectFoci job) = question
  split_ifs with hfoci
  · exact ⟨w.backendCalls, rfl⟩
  · cases hfind : worker.github.findRepoByGroupName w.backendCalls group.name with
    | error e =>
      have hkind := hown.find _ _ _ hfind
      exact ⟨w.backendCalls + 1, by simp [catching, run_bind, run_tryCatch, callBackend_run, hfind, hkind]; rfl⟩
    | ok repo =>
      cases repo with
      | none => exact ⟨w.backendCalls + 1, by simp [catching, run_bind, run_tryCatch, callBackend_run, hfind]; rfl⟩
      | some repo =>
        cases hquery : worker.github.query (w.backendCalls + 1) repo.id question with
        | error e =>
          have hkind := hown.query _ _ _ _ hquery
          exact ⟨w.backendCalls + 2, by
            simp [catching, run_bind, run_tryCatch, callBackend_run, hfind, hquery, hkind]; rfl⟩
        | ok answer =>
          exact ⟨w.backendCalls + 2, by simp [catching, run_bind, run_tryCatch, callBackend_run, hfind, hquery]; rfl⟩

/-! ### The steps -/

theorem unasked_ensures {α : Type} {p : M α} (hp : Always (fun l _ => l ≠ .generate) p) (w : World) :
    Ensures ModelFails (fun h x w' => Clean h ∧ p.run w = (x, w')) p w := by
  have hrun : Ensures ModelFails (fun _ x w' => p.run w = (x, w')) p w :=
    (hp.mono fun l _ hl _ _ hfault => hl hfault.1).ensures_run w
  have hlabels : Ensures ModelFails (fun h _ _ => ∀ t ∈ h, t.label ≠ .generate) p w := hp.labels w
  intro h x w' hexec
  refine ⟨fun t ht => Option.eq_none_iff_forall_ne_some.2 fun e he => ?_, hrun h x w' hexec⟩
  exact hlabels h x w' hexec t ht (hexec.faults t ht e he).1

theorem callBackend_ends {α : Type} (call : BackendCall) (answer : Nat → Except Exc α) (w : World) :
    Ensures ModelFails (fun h x w' => Clean h ∧ x = answer w.backendCalls ∧
      w' = { w with backendCalls := w.backendCalls + 1 }) (callBackend call answer) w := by
  refine (unasked_ensures (callBackend_always (fun _ => nofun) call answer) w).mono fun h x w' ⟨hclean, hrun⟩ => ?_
  rw [callBackend_run] at hrun
  exact ⟨hclean, (Prod.ext_iff.1 hrun).1.symm, (Prod.ext_iff.1 hrun).2.symm⟩

theorem synthesis_ends (question : Text) (chunks : List TranscriptChunk) (w : World) :
    Ensures ModelFails (fun h y w' => (∃ n, w' = { w with generations := n }) ∧
      ((Clean h ∧ y = .ok (synthesis out w.generations question chunks)) ∨
        ¬ Clean h ∧ chunks ≠ [] ∧ ∃ e, y = .error e ∧ e.kind = .ollamaUnavailable))
      (synthesizeTranscriptAnswer out question chunks) w := by
  unfold synthesizeTranscriptAnswer synthesis
  split_ifs with hchunks
  · exact ensures_ret ⟨⟨w.generations, rfl⟩, .inl ⟨clean_nil, rfl⟩⟩
  · have hgenerate : Ensures ModelFails (fun h y w' => (∃ n, w' = { w with generations := n }) ∧
        ((Clean h ∧ y = .ok (out.generate w.generations synthesisSystemPrompt (synthesisPrompt question chunks))) ∨
          ¬ Clean h ∧ ∃ e, y = .error e ∧ e.kind = .ollamaUnavailable))
        (generateText out synthesisSystemPrompt (synthesisPrompt question chunks)) w := by
      refine ensures_atomic ⟨⟨_, rfl⟩, .inl ⟨clean_step _ _, rfl⟩⟩ fun e he =>
        ⟨⟨w.generations, rfl⟩, .inr ⟨fun hclean => ?_, e, rfl, he.2⟩⟩
      have hnone := hclean _ (List.mem_singleton_self _)
      cases hnone
    refine Ensures.bind hgenerate (fun h answer w' hend => ?_) fun h e w' hend => ?_
    · obtain ⟨hw', ⟨hclean, hanswer⟩ | ⟨-, e, h, -⟩⟩ := hend
      · rw [Except.ok.inj hanswer]
        exact ensures_ret ⟨hw', .inl ⟨hclean.append clean_nil, rfl⟩⟩
      · cases h
    · obtain ⟨hw', ⟨-, h⟩ | ⟨hfault, he⟩⟩ := hend
      · cases h
      · exact ⟨hw', .inr ⟨hfault, hchunks, he⟩⟩

/-- The lookup of the transcripts comes to what its clients answer, or the model is not reached and its error is
raised. -/
theorem askTranscripts_ends (hown : RaiseTheirOwn worker) (token : Text) (w : World) :
    Ensures ModelFails (fun h x w' =>
      (∃ n, w' = { w with backendCalls := w.backendCalls + transcriptCalls job, generations := n }) ∧
      ((Clean h ∧ x = .ok (transcriptLookup out worker job group token true w.backendCalls w.generations).pair) ∨
        ¬ Clean h ∧ (∃ e, x = .error e) ∧
          (transcriptLookup out worker job group token false w.backendCalls w.generations).answer = none))
      (askTranscripts out worker job token group) w := by
  unfold askTranscripts transcriptLookup transcriptCalls
  cases truthy job.transcriptFocus with
  | none => exact ensures_ret ⟨⟨w.generations, rfl⟩, .inl ⟨clean_nil, rfl⟩⟩
  | some focus =>
    simp only [Option.isSome_some, if_true]
    have hbody : Ensures ModelFails (fun h y w' =>
        (∃ n, w' = { w with backendCalls := w.backendCalls + 1, generations := n }) ∧
        ((Clean h ∧ y = (worker.diarisation.searchTranscripts w.backendCalls token group.id focus).map
            (synthesis out w.generations focus)) ∨
          ¬ Clean h ∧ (∃ e, y = .error e ∧ e.kind = .ollamaUnavailable) ∧
            ∃ chunks, worker.diarisation.searchTranscripts w.backendCalls token group.id focus = .ok chunks ∧
              chunks ≠ []))
        (Prog.bind (callBackend (.searchTranscripts token group.id focus) fun n =>
          worker.diarisation.searchTranscripts n token group.id focus) (synthesizeTranscriptAnswer out focus)) w := by
      refine Ensures.bind (callBackend_ends _ _ w) (fun h₁ chunks w₁ hcall => ?_) fun h e w' hcall => ?_
      · obtain ⟨hclean, hchunks, rfl⟩ := hcall
        refine (synthesis_ends out focus chunks _).mono fun h₂ y w' hend => ?_
        obtain ⟨⟨n, rfl⟩, ⟨hclean', rfl⟩ | ⟨hfault, hne, he⟩⟩ := hend
        · exact ⟨⟨n, rfl⟩, .inl ⟨hclean.append hclean', by rw [← hchunks]; rfl⟩⟩
        · exact ⟨⟨n, rfl⟩, .inr ⟨fun hall => hfault (List.forall_mem_append.1 hall).2, he, chunks, hchunks.symm, hne⟩⟩
      · obtain ⟨hclean, he, rfl⟩ := hcall
        exact ⟨⟨w.generations, rfl⟩, .inl ⟨hclean, by rw [← he]; rfl⟩⟩
    refine Ensures.bind (catching_ensures [.diarisationApiError] hbody) (fun h answer w' hend => ?_)
      fun h e w' hend => ?_
    · rcases hend with ⟨y, hy, ⟨hw', hends⟩, hkind⟩ | ⟨e, h, -⟩
      · obtain rfl := Except.ok.inj hy
        rcases hends with ⟨hclean, rfl⟩ | ⟨-, ⟨e, rfl, he⟩, -⟩
        · cases worker.diarisation.searchTranscripts w.backendCalls token group.id focus with
          | error e => exact ensures_ret ⟨hw', .inl ⟨hclean.append clean_nil, rfl⟩⟩
          | ok chunks =>
            simp only [Bool.true_eq_false, and_false, if_false]
            exact ensures_ret ⟨hw', .inl ⟨hclean.append clean_nil, rfl⟩⟩
        · have hother := List.mem_singleton.1 (hkind e rfl)
          rw [he] at hother
          cases hother
      · cases h
    · rcases hend with ⟨y, h, -⟩ | ⟨e', -, ⟨hw', hends⟩, hkind⟩
      · cases h
      · rcases hends with ⟨-, he⟩ | ⟨hfault, -, chunks, hchunks, hne⟩
        · cases hsearch : worker.diarisation.searchTranscripts w.backendCalls token group.id focus with
          | error e =>
            rw [hsearch] at he
            rw [Except.error.inj he, hown.diarisation _ _ _ _ _ hsearch] at hkind
            exact absurd (List.mem_singleton_self _) hkind
          | ok chunks =>
            rw [hsearch] at he
            cases he
        · refine ⟨hw', .inr ⟨hfault, ⟨e, rfl⟩, ?_⟩⟩
          rw [hchunks]
          simp [hne, Lookup.answer]

theorem askRepository_ends (hown : RaiseTheirOwn worker) (w : World) :
    Returns ModelFails (fun answer w' => answer = (repositoryLookup worker job group w.backendCalls).pair ∧
      ∃ n, w' = { w with backendCalls := n }) (askRepository worker job group) w := by
  refine Ensures.mono (unasked_ensures (askRepository_always (fun _ => nofun) worker job group) w)
    fun h x w' ⟨hclean, hends⟩ => ?_
  obtain ⟨n, hrun⟩ := askRepository_run worker job group hown w
  obtain ⟨rfl, rfl⟩ := Prod.ext_iff.1 (hrun.symm.trans hends)
  exact ⟨hclean, _, rfl, rfl, n, rfl⟩

theorem handleFailure_ends (reason : Text) {w : World} (hstatus : statusOf w job.jobId = some .processing) :
    Returns ModelFails (fun _ w' => statusOf w' job.jobId = some .failed) (handleFailure out worker job reason) w := by
  have hallowed : Allowed w job.jobId .failed := ⟨_, hstatus, by decide⟩
  refine Returns.bind (setStatus_holds holding_modelFails out hallowed _) fun _ w₁ hw₁ => ?_
  refine (reportFailure_holds holding_modelFails out worker.admin job _ _ _ _ w₁).mono fun _ w' hw' => ?_
  obtain ⟨m, alerts, hsent, -⟩ := hw'
  rw [statusOf, hsent.jobs]
  exact hw₁.status hallowed

theorem conclude_ends (t r : Lookup) {w : World} (hstatus : statusOf w job.jobId = some .processing) :
    Returns ModelFails (fun _ => Degrades job group t r w) (conclude out worker job group t.pair r.pair) w := by
  unfold conclude
  split_ifs with hnone
  · refine (handleFailure_ends out worker job _ hstatus).mono fun _ w' _ hsome => ?_
    have hfound : ¬ (t.answer = none ∧ r.answer = none) := by
      rcases hsome with h | h
      · exact fun hnone => by simp [hnone.1] at h
      · exact fun hnone => by simp [hnone.2] at h
    exact absurd hnone hfound
  · have hallowed : Allowed w job.jobId .completed := ⟨_, hstatus, by decide⟩
    refine Returns.bind (setStatus_holds holding_modelFails out hallowed []) fun _ w₁ hw₁ => ?_
    refine (mail_holds holding_modelFails out _ _ _ _ w₁).mono fun _ w' ⟨m, hsent, hmail⟩ _ => ⟨?_, m, ?_, hmail, ?_⟩
    · rw [statusOf, hsent.jobs]
      exact hw₁.status hallowed
    · obtain ⟨stamps, n, -, rfl⟩ := hw₁
      exact hsent.outbox
    · intro text htext
      show strip text <:+: m.unnumbered.bodyText
      rw [hmail]
      exact renderAssessResult_holds htext

theorem Degrades.congr {job : Job} {group : GroupSummary} {t r : Lookup} {w₁ w w' : World}
    (h : Degrades job group t r w₁ w') (houtbox : w₁.outbox = w.outbox) : Degrades job group t r w w' := fun hsome => by
  obtain ⟨hstatus, hmail⟩ := h hsome
  rw [houtbox] at hmail
  exact ⟨hstatus, hmail⟩

variable [PyChars] {token : Text} {groups : List GroupSummary}

theorem attempt_ends (hown : RaiseTheirOwn worker) {w : World} (hstatus : statusOf w job.jobId = some .processing)
    (hlogin : worker.diarisation.login w.backendCalls job.backendUserId = .ok token)
    (hgroups : worker.diarisation.listGroups (w.backendCalls + 1) token = .ok groups)
    (hmatch : matchGroup job.groupHint groups = .matched group) :
    Ensures ModelFails (fun h x w' =>
      ((∃ a, x = .ok a) ∧ Clean h ∧
        Degrades job group (transcriptLookup out worker job group token true (w.backendCalls + 2) w.generations)
          (repositoryLookup worker job group (w.backendCalls + 2 + transcriptCalls job)) w w') ∨
      (∃ e, x = .error e) ∧ ¬ Clean h ∧ statusOf w' job.jobId = some .processing ∧
        (transcriptLookup out worker job group token false (w.backendCalls + 2) w.generations).answer = none)
      (attempt out worker job) w := by
  have hfound : Returns ModelFails (fun found w' => found = (token, groups) ∧
      w' = { w with backendCalls := w.backendCalls + 2 }) (groupsOf worker.diarisation job) w := by
    refine Ensures.mono (unasked_ensures (groupsOf_always (fun _ => nofun) worker.diarisation job) w)
      fun h x w' ⟨hclean, hrun⟩ => ⟨hclean, ?_⟩
    obtain ⟨rfl, rfl⟩ : Except.ok (token, groups) = x ∧ { w with backendCalls := w.backendCalls + 2 } = w' := by
      simpa [groupsOf, run_bind, callBackend_run, hlogin, hgroups] using hrun
    exact ⟨_, rfl, rfl, rfl⟩
  refine Returns.then hfound fun h₁ found w₁ hclean₁ hw₁ => ?_
  obtain ⟨rfl, rfl⟩ := hw₁
  simp only [hmatch]
  refine Ensures.bind (askTranscripts_ends out worker job group hown token _) (fun h₂ answer w₂ hw₂ => ?_)
    fun h₂ e w₂ hw₂ => ?_
  · obtain ⟨⟨n, rfl⟩, ⟨hclean₂, hanswer⟩ | ⟨-, ⟨e, h⟩, -⟩⟩ := hw₂
    · obtain rfl := Except.ok.inj hanswer
      refine Returns.then (askRepository_ends worker job group hown _) fun h₃ answer w₃ hclean₃ hw₃ => ?_
      obtain ⟨rfl, m, rfl⟩ := hw₃
      refine Ensures.mono (conclude_ends out worker job group _ _ hstatus) fun h₄ x w' ⟨hclean₄, a, hx, hends⟩ => ?_
      exact .inl ⟨⟨a, hx⟩, hclean₁.append (hclean₂.append (hclean₃.append hclean₄)), hends.congr rfl⟩
    · cases h
  · obtain ⟨⟨n, rfl⟩, ⟨-, h⟩ | ⟨hfault, -, hnone⟩⟩ := hw₂
    · cases h
    · exact .inr ⟨⟨e, rfl⟩, fun hclean => hfault (List.forall_mem_append.1 hclean).2, hstatus, hnone⟩

theorem execute_ends (hown : RaiseTheirOwn worker) {w : World} (hrow : w.jobs.find? job.jobId = some job)
    (hqueued : job.status = .queued)
    (hlogin : worker.diarisation.login w.backendCalls job.backendUserId = .ok token)
    (hgroups : worker.diarisation.listGroups (w.backendCalls + 1) token = .ok groups)
    (hmatch : matchGroup job.groupHint groups = .matched group) :
    Ensures ModelFails (fun h _ w' =>
      (Clean h ∧
        Degrades job group (transcriptLookup out worker job group token true (w.backendCalls + 2) w.generations)
          (repositoryLookup worker job group (w.backendCalls + 2 + transcriptCalls job)) w w') ∨
      ¬ Clean h ∧ statusOf w' job.jobId = some .failed ∧
        (transcriptLookup out worker job group token false (w.backendCalls + 2) w.generations).answer = none)
      (execute out worker job) w := by
  have hallowed : Allowed w job.jobId .processing :=
    ⟨.queued, by rw [statusOf, hrow, Option.map_some, hqueued], by decide⟩
  refine Returns.then (setStatus_holds holding_modelFails out hallowed []) fun h₁ _ w₁ hclean₁ hw₁ => ?_
  have hstatus₁ := hw₁.status hallowed
  obtain ⟨stamps, n, -, rfl⟩ := hw₁
  refine Ensures.tryCatch (attempt_ends out worker job group hown hstatus₁ hlogin hgroups hmatch)
    (fun h₂ a w' hends => ?_) fun h₂ e w₂ hends => ?_
  · rcases hends with ⟨-, hclean₂, hdegrades⟩ | ⟨⟨e, h⟩, -⟩
    · exact .inl ⟨hclean₁.append hclean₂, hdegrades.congr rfl⟩
    · cases h
  · rcases hends with ⟨⟨a, h⟩, -⟩ | ⟨-, hfault, hstatus₂, hnone⟩
    · cases h
    · refine Ensures.mono (handleFailure_ends out worker job (failureReason e) hstatus₂) fun h₃ x w' hends => ?_
      obtain ⟨-, _, -, hfailed⟩ := hends
      refine .inr ⟨fun hclean => ?_, hfailed, hnone⟩
      exact hfault (List.forall_mem_append.1 (List.forall_mem_append.1 hclean).2).1

omit [PyChars] in
theorem modelReached_iff_clean {α : Type} {p : M α} {w w' : World} {h : WorldHistory} {x : Except Exc α}
    (hexec : Exec ModelFails p w h x w') : ModelReached h ↔ Clean h := by
  refine ⟨fun hreached t ht => Option.eq_none_iff_forall_ne_some.2 fun e he => ?_, fun hclean t ht _ => hclean t ht⟩
  rw [hreached t ht (hexec.faults t ht e he).1] at he
  cases he

/-- **A question degrades exactly if the model is reached, or the other lookup has no answer either**, whatever the
clients of the sources answer. -/
theorem degrades_iff (hown : RaiseTheirOwn worker) {w w' : World} {h : WorldHistory} {x : Except Exc Unit}
    (hrow : w.jobs.find? job.jobId = some job) (hqueued : job.status = .queued)
    (hlogin : worker.diarisation.login w.backendCalls job.backendUserId = .ok token)
    (hgroups : worker.diarisation.listGroups (w.backendCalls + 1) token = .ok groups)
    (hmatch : matchGroup job.groupHint groups = .matched group)
    (hexec : Exec ModelFails (execute out worker job) w h x w') :
    Degrades job group
        (transcriptLookup out worker job group token (decide (ModelReached h)) (w.backendCalls + 2) w.generations)
        (repositoryLookup worker job group (w.backendCalls + 2 + transcriptCalls job)) w w' ↔
      ModelReached h ∨
        (repositoryLookup worker job group (w.backendCalls + 2 + transcriptCalls job)).answer = none := by
  have hreached := modelReached_iff_clean hexec
  rcases execute_ends out worker job group hown hrow hqueued hlogin hgroups hmatch h x w' hexec with
    ⟨hclean, hdegrades⟩ | ⟨hfault, hfailed, hnone⟩
  · rw [decide_eq_true (hreached.2 hclean)]
    exact iff_of_true hdegrades (.inl (hreached.2 hclean))
  · have hunreached : ¬ ModelReached h := fun hall => hfault (hreached.1 hall)
    rw [decide_eq_false hunreached, or_iff_right hunreached]
    refine ⟨fun hdegrades => Option.eq_none_iff_forall_ne_some.2 fun answer hanswer => ?_, fun hrepository hsome => ?_⟩
    · have hcompleted := (hdegrades (.inr (Option.isSome_of_eq_some hanswer))).status
      rw [hfailed] at hcompleted
      cases hcompleted
    · rw [hnone, hrepository] at hsome
      simp at hsome

end

/-! ### A model that cannot be reached -/

section
attribute [local instance] asciiChars

/-- A question about the meetings and the repository. -/
def testsJob : Job := { questionJob with transcriptFocus := some "Who said they would do the tests?" }

def testsWorld : World where
  jobs := Table.empty.upsert testsJob

/-- A worker whose repository answers, and whose meetings are found or not. -/
def testsWorker (search : Except Exc (List TranscriptChunk)) : JobWorker :=
  let small := smallWorker [⟨7, "Team A"⟩]
  { small with
    diarisation := { small.diarisation with searchTranscripts := fun _ _ _ _ => search }
    github :=
      { findRepoByGroupName := fun _ _ => .ok (some ⟨3, "https://example.org/a", some "Team A"⟩)
        query := fun _ _ _ => .ok "Alice wrote the tests." } }

def testsChunk : TranscriptChunk :=
  ⟨"c1", "1", "Standup", "2026-08-03", "Alice", "I will do the tests.", "00:01", "00:02"⟩

/-- The meetings cannot be searched, and the repository answers. -/
theorem degrades_unsearched : ∃ h x w',
    Exec ModelFails (execute .plain (testsWorker (.error ⟨.diarisationApiError, "503"⟩)) testsJob) testsWorld h x w' ∧
    Degrades testsJob ⟨7, "Team A"⟩
      (transcriptLookup .plain (testsWorker (.error ⟨.diarisationApiError, "503"⟩)) testsJob ⟨7, "Team A"⟩ "token"
        (decide (ModelReached h)) 2 0)
      (repositoryLookup (testsWorker (.error ⟨.diarisationApiError, "503"⟩)) testsJob ⟨7, "Team A"⟩ 3)
      testsWorld w' := by
  have hown : RaiseTheirOwn (testsWorker (.error ⟨.diarisationApiError, "503"⟩)) := by
    refine ⟨fun n token groupId query e h => ?_, nofun, nofun⟩
    rw [← Except.error.inj h]
  obtain ⟨h, hexec, hclean⟩ := exec_run (E := ModelFails) (fun _ _ => trivial)
    (execute .plain (testsWorker (.error ⟨.diarisationApiError, "503"⟩)) testsJob) testsWorld
  exact ⟨h, _, _, hexec, (degrades_iff .plain _ testsJob ⟨7, "Team A"⟩ hown rfl rfl rfl rfl rfl hexec).2
    (.inl fun t ht _ => hclean t ht)⟩

/-- The model cannot be reached for the meetings that were found, and the answer of the repository is not asked for. -/
theorem answer_discarded : ∃ h x w',
    Exec ModelFails (execute .plain (testsWorker (.ok [testsChunk])) testsJob) testsWorld h x w' ∧
    statusOf w' testsJob.jobId = some .failed ∧
    ¬ Degrades testsJob ⟨7, "Team A"⟩
      (transcriptLookup .plain (testsWorker (.ok [testsChunk])) testsJob ⟨7, "Team A"⟩ "token"
        (decide (ModelReached h)) 2 0)
      (repositoryLookup (testsWorker (.ok [testsChunk])) testsJob ⟨7, "Team A"⟩ 3) testsWorld w' := by
  let script : List (Option Exc) := List.replicate 6 none ++ [some ⟨.ollamaUnavailable, "Could not reach Ollama"⟩]
  have hfaults : ∀ t ∈ (play script (execute .plain (testsWorker (.ok [testsChunk])) testsJob) testsWorld).1,
      ∀ e ∈ t.fault, t.label = .generate ∧ e.kind = .ollamaUnavailable := by
    decide +kernel
  have hexec := exec_play (E := ModelFails) (fun _ _ => trivial) script _ testsWorld hfaults
  have hfailed : statusOf (play script (execute .plain (testsWorker (.ok [testsChunk])) testsJob) testsWorld).2.2
      testsJob.jobId = some .failed := by
    decide +kernel
  refine ⟨_, _, _, hexec, hfailed, fun hdegrades => ?_⟩
  have hcompleted := (hdegrades (.inr rfl)).status
  rw [hfailed] at hcompleted
  cases hcompleted

end

end AssessQuery

end GroupAssessmentAgent
