import GroupAssessmentAgent.Jobs.GroupQuestion

/-!
# The answer on the group

The reply is read under `normalise`, and the hint that it leaves on the job under the stripped lower case of
`match_group`. On ASCII names the first reading is a function of the second (`normalise_eq`), so a name that is the only
one of its kind under the first is the only one under the second. An answer with a visible character never selects an
empty name, which would be no hint at all.
-/

namespace GroupAssessmentAgent
open Prog EmailProcessingPipeline

/-! ### The change of a job -/

/-- The UPDATE that changes columns of the job, apart from its status, has taken effect. -/
def Changed (jobId : Text) (h : WorldHistory) : Prop := ∃ t ∈ h, t.label = .updateJob jobId ∧ t.fault = none

def Stmt.changesJob : Stmt → Bool
  | .updateJob _ => true
  | _ => false

theorem not_changed {jobId : Text} {h : WorldHistory} (hlabels : ∀ t ∈ h, t.label.changesJob = false) :
    ¬ Changed jobId h := by
  rintro ⟨t, ht, hlabel, -⟩
  have hnot := hlabels t ht
  rw [hlabel] at hnot
  cases hnot

theorem Changed.append {jobId : Text} {h h' : WorldHistory} (hchanged : Changed jobId (h ++ h')) :
    Changed jobId h ∨ Changed jobId h' := by
  obtain ⟨t, ht, hstep⟩ := hchanged
  exact (List.mem_append.1 ht).imp (fun ht => ⟨t, ht, hstep⟩) fun ht => ⟨t, ht, hstep⟩

theorem covers_changesNone : Covers (fun l _ => l.changesJob = false) (fun _ => False) fun _ => True where
  look l hl := by cases l <;> first | rfl | cases hl
  ask _ := rfl
  tick := rfl
  job _ _ h := h.elim
  status _ _ _ _ h := h.elim
  outbox _ _ _ := rfl
  put _ h := h.elim
  delete _ h := h.elim
  alert _ := rfl
  files l f hl _ := by rcases hl with rfl | rfl <;> rfl

theorem coversMarks_changesNone : CoversMarks (fun l _ => l.changesJob = false) fun _ => True :=
  ⟨⟨fun _ _ _ _ => rfl, fun _ _ _ _ => rfl⟩, fun _ => rfl⟩

section
variable [PyChars]

/-! ### The two readings of a name -/

theorem normalise_eq {name : Text} (hascii : ∀ c ∈ name, c.toNat < 128) :
    normalise name = join " " (splitWords (lower (strip name))) := by
  have hstrip : ∀ c ∈ strip name, c.toNat < 128 := fun c hc => hascii c ((strip_isInfix name).subset hc)
  rw [normalise, PyChars.casefold_ascii _ hstrip, PyChars.lower_ascii _ hstrip]

theorem normalise_congr {name name' : Text} (hascii : ∀ c ∈ name, c.toNat < 128) (hascii' : ∀ c ∈ name', c.toNat < 128)
    (h : lower (strip name) = lower (strip name')) : normalise name = normalise name' := by
  rw [normalise_eq hascii, normalise_eq hascii', h]

theorem normalise_nil : normalise [] = [] := by
  rw [normalise, show strip [] = [] from rfl, PyChars.casefold_ascii [] (by simp)]
  rfl

theorem normalise_ne_nil {s : Text} (h : ∃ c ∈ strip s, isSpace c = false) : normalise s ≠ [] := by
  obtain ⟨c, hc, hvisible⟩ := PyChars.casefold_visible _ h
  have hwords : c ∈ (splitWords (casefold (strip s))).flatten := by
    rw [splitWords, flatten_splitWordsFrom]
    simp [hc, hvisible]
  obtain ⟨word, hword, hc⟩ := List.mem_flatten.1 hwords
  exact List.ne_nil_of_mem (mem_join_of_mem " " hword hc)

omit [PyChars] in
theorem strip_visible {s : Text} (h : strip s ≠ []) : ∃ c ∈ strip s, isSpace c = false := by
  refine ⟨(strip s).head h, List.head_mem h, ?_⟩
  have hfixed : (strip s).dropWhile isSpace = strip s := dropWhile_strip s
  have hpos : 0 < (strip s).length := List.length_pos_iff.2 h
  have hhead := List.dropWhile_eq_self_iff.1 hfixed hpos
  rw [List.head_eq_getElem]
  simpa using hhead

omit [PyChars] in
theorem strip_firstUnquotedLine (body : Text) : strip (firstUnquotedLine body) = firstUnquotedLine body := by
  unfold firstUnquotedLine
  cases hfind : ((splitlines body).map strip).find? fun line => line ≠ [] ∧ startsWith line ">" = false with
  | none => rfl
  | some line =>
    obtain ⟨line, -, rfl⟩ := List.mem_map.1 (List.mem_of_find?_eq_some hfind)
    exact strip_strip line

theorem normalise_firstUnquotedLine {body : Text} (h : firstUnquotedLine body ≠ []) :
    normalise (firstUnquotedLine body) ≠ [] := by
  refine normalise_ne_nil (strip_visible ?_)
  rwa [strip_firstUnquotedLine]

/-! ### The selected name -/

variable {groups : List GroupSummary} {selected : Text}

theorem onlyAdmitted_of_ne_nil {hint : Text} (hne : hint ≠ []) {group : GroupSummary}
    (h : (groups.filter fun g => lower (strip g.name) = lower (strip hint)) = [group]) :
    OnlyAdmitted (some hint) groups group := by
  cases hint with
  | nil => exact absurd rfl hne
  | cons c s => exact h

/-- The one option of a reply is the name of one group only, and as a hint it selects that group. -/
theorem selected_matches {q : PendingClarification} (hoptions : q.options = groups.map GroupSummary.name)
    (hascii : ∀ g ∈ groups, ∀ c ∈ g.name, c.toNat < 128) {answer : Text} (hanswer : normalise answer ≠ [])
    (hselected : matchingOptions q answer = [selected]) :
    ∃ group, (groups.filter fun g => g.name = selected) = [group] ∧
      matchGroup (some selected) groups = .matched group := by
  rw [matchingOptions, hoptions, List.filter_map] at hselected
  obtain ⟨group, hfilter, rfl⟩ := List.map_eq_singleton_iff.1 hselected
  have hmem : group ∈ groups.filter fun g => normalise g.name = normalise answer := by
    rw [show (groups.filter fun g => normalise g.name = normalise answer) = [group] from hfilter]
    exact List.mem_singleton_self group
  obtain ⟨hgroup, hread⟩ := List.mem_filter.1 hmem
  have hread : normalise group.name = normalise answer := by simpa using hread
  -- a reading that leads to the same normal form, and admits the group, admits it alone
  have halone : ∀ p : GroupSummary → Bool, p group = true →
      (∀ g ∈ groups, p g = true → normalise g.name = normalise answer) → groups.filter p = [group] := by
    intro p hp himp
    have hsame : groups.filter p = [group].filter p := by
      rw [← show (groups.filter fun g => normalise g.name = normalise answer) = [group] from hfilter, List.filter_filter]
      refine List.filter_congr fun g hg => ?_
      by_cases hpg : p g = true
      · simp [hpg, himp g hg hpg]
      · simp [hpg]
    rw [hsame]
    simp [hp]
  have hne : group.name ≠ [] := by
    intro hempty
    rw [hempty, normalise_nil] at hread
    exact hanswer hread.symm
  refine ⟨group, halone _ (by simp) fun g _ hg => ?_, matchGroup_matched.2 (onlyAdmitted_of_ne_nil hne ?_)⟩
  · rw [of_decide_eq_true hg, hread]
  · refine halone _ (by simp) fun g hg hsame => ?_
    rw [← hread]
    exact normalise_congr (hascii g hg) (hascii group hgroup) (of_decide_eq_true hsame)

/-! ### The reply -/

/-- The reply has changed the job, and its hint is now the selected name. -/
structure HintStored (h : WorldHistory) (w' : World) (jobId selected : Text) : Prop where
  changed : Changed jobId h
  hint : ∃ row, w'.jobs.find? jobId = some row ∧ row.groupHint = some selected

variable {E : Env Stmt World Exc} (out : Outside) (msg : EmailMessage) (senderEmail jobId : Text) {w w' : World}

/-- The name that is applied is the hint from the change of the job on, however the rest ends. -/
theorem applyClarification_hint (selected : Text) (w : World) :
    Ensures E (fun h _ w' => Changed jobId h → RowHas jobId (fun j => j.groupHint = some selected) w')
      (applyClarification out msg senderEmail jobId selected) w := by
  have hread : Ensures E (fun h _ _ => ¬ Changed jobId h) (JobStore.getOwned jobId senderEmail) w :=
    ensures_observe (not_changed (List.forall_mem_singleton.2 rfl)) fun _ _ =>
      not_changed (List.forall_mem_singleton.2 rfl)
  refine Ensures.bind hread (fun h₀ job w₀ hnot => ?_) fun h₀ _ w₀ hnot hchanged => absurd hchanged hnot
  split_ifs
  · exact ensures_ret fun hchanged => hchanged.append.elim (fun h => absurd h hnot)
      fun h => absurd h (not_changed (by simp))
  unfold JobStore.update
  rw [if_neg (List.cons_ne_nil _ _)]
  have hupdate : Ensures E (fun h x w' => RowHas jobId (fun j => j.groupHint = some selected) w' ∨
      (∃ e, x = .error e) ∧ ¬ Changed jobId h) (change (.updateJob jobId) fun w => w.writeJob jobId
        [.groupHint (some selected), .inReplyToMessageId (some msg.messageId)]) w₀ := by
    refine ensures_change (.inl ?_) fun e _ => .inr ⟨⟨e, rfl⟩, ?_⟩
    · exact RowHas.writeJob (P := fun _ => True) (fun _ _ => trivial) fun _ _ => rfl
    · rintro ⟨t, ht, -, hfault⟩
      obtain rfl := List.mem_singleton.1 ht
      cases hfault
  refine Ensures.bind hupdate (fun h₁ _ w₁ hw₁ => ?_) fun h₁ e w₁ hw₁ hchanged => ?_
  · obtain hhint | ⟨⟨e, he⟩, -⟩ := hw₁
    · refine Ensures.bind (setStatus_ensures out jobId .queued [] w₁) (fun h₂ _ w₂ hset => ?_) fun h₂ e w₂ hset _ => ?_
      · obtain ⟨-, hhint₂⟩ | ⟨e, he, -⟩ := hset.row (Q := fun j => j.groupHint = some selected) hhint fun _ h => h
        · exact (jobsKept_ensures (applied_jobsKept out msg senderEmail jobId _) w₂).mono
            fun _ _ w' hjobs _ => hhint₂.congr hjobs
        · cases he
      · obtain ⟨he, -⟩ | ⟨_, -, hhint₂⟩ := hset.row (Q := fun j => j.groupHint = some selected) hhint fun _ h => h
        · cases he
        · exact hhint₂
    · cases he
  · obtain hhint | ⟨-, hnot₁⟩ := hw₁
    · exact hhint
    · exact hchanged.append.elim (fun h => absurd h hnot) fun h => absurd h hnot₁

theorem continueClarification_hint {q : PendingClarification} (hasked : w.pendingClarifications.find? jobId = some q) :
    Ensures E (fun h _ w' => Changed jobId h → ∃ selected,
        matchingOptions q (firstUnquotedLine msg.bodyText) = [selected] ∧
          RowHas jobId (fun j => j.groupHint = some selected) w')
      (continueClarification out msg senderEmail jobId) w := by
  have hread : Ensures E (fun h x _ => ¬ Changed jobId h ∧ ∀ q', x = .ok q' → q' = some q)
      (PendingClarificationStore.get jobId) w := by
    refine ensures_observe ⟨not_changed (List.forall_mem_singleton.2 rfl), fun q' hq' => ?_⟩ fun e _ =>
      ⟨not_changed (List.forall_mem_singleton.2 rfl), fun q' hq' => by cases hq'⟩
    rw [← Except.ok.inj hq', hasked]
  have hagain : Always (fun l _ => l.changesJob = false) (do
      replyTo out msg senderEmail (renderClarification q.question (some jobId)) (some jobId)
      conclude out msg "clarification_sent" none (some "clarification")
      return true) :=
    replyAndConclude_always covers_changesNone out coversMarks_changesNone msg trivial _ _ _ _ _ _ fun _ _ _ => trivial
  refine Ensures.bind hread (fun h₀ q' w₀ hw₀ => ?_) fun h₀ _ w₀ hw₀ hchanged => absurd hchanged hw₀.1
  obtain ⟨hnot, hq'⟩ := hw₀
  obtain rfl := hq' q' rfl
  simp only
  split
  · next selected hselected =>
    refine (applyClarification_hint out msg senderEmail jobId selected w₀).mono fun h _ w' hw' hchanged => ?_
    exact ⟨selected, hselected, hw' (hchanged.append.resolve_left hnot)⟩
  · refine (hagain.labels w₀).mono fun h _ w' hlabels hchanged => ?_
    exact absurd (hchanged.append.resolve_left hnot) (not_changed hlabels)

/-- **A reply that is accepted leaves the name of exactly one of the offered groups as the hint of the job, and the hint
matches that group**, for names over ASCII and a reply that says something. -/
theorem answer_matches {q : PendingClarification} (hasked : w.pendingClarifications.find? jobId = some q)
    (hoptions : q.options = groups.map GroupSummary.name) (hascii : ∀ g ∈ groups, ∀ c ∈ g.name, c.toNat < 128)
    (hline : firstUnquotedLine msg.bodyText ≠ []) {h : WorldHistory} {x : Except Exc Bool}
    (hexec : Exec E (continueClarification out msg senderEmail jobId) w h x w')
    (hstored : HintStored h w' jobId selected) :
    ∃ group, (groups.filter fun g => g.name = selected) = [group] ∧
      matchGroup (some selected) groups = .matched group := by
  obtain ⟨selected', hselected, hhint⟩ := continueClarification_hint out msg senderEmail jobId hasked _ _ _ hexec
    hstored.changed
  obtain ⟨row, hrow, hhint'⟩ := hstored.hint
  have hsame : row.groupHint = some selected' := hhint row hrow
  obtain rfl := Option.some.inj (hsame.symm.trans hhint')
  exact selected_matches hoptions hascii (normalise_firstUnquotedLine hline) hselected

end

section
attribute [local instance] asciiChars

/-- The owner's job waits for the name of one of two groups. -/
def offeredWorld : World where
  jobs := Table.empty.upsert { questionJob with status := .needsClarification }
  pendingClarifications := Table.empty.upsert
    { jobId := questionJob.jobId, question := "Which group?", expectedField := "group_hint",
      options := ["Team A", "Team B"], createdAt := 0 }

/-- The reply under the quoted question, in another case and with further white space. -/
def answerOffered : M Bool :=
  continueClarification .plain (replyOf "> Which group?\n team  a ") questionJob.senderEmail questionJob.jobId

theorem answer_matches_quoted : ∃ group,
    ([⟨7, "Team A"⟩, ⟨8, "Team B"⟩].filter fun g : GroupSummary => g.name = "Team A") = [group] ∧
      matchGroup (some "Team A") [⟨7, "Team A"⟩, ⟨8, "Team B"⟩] = .matched group := by
  have hchanged : (play [] answerOffered offeredWorld).1.any (fun t =>
      t.label = .updateJob questionJob.jobId ∧ t.fault = none) = true := by
    decide +kernel
  have hhint : ((play [] answerOffered offeredWorld).2.2.jobs.find? questionJob.jobId).bind Job.groupHint =
      some "Team A" := by
    decide +kernel
  obtain ⟨t, ht, hstep⟩ := List.any_eq_true.1 hchanged
  have hascii : ([⟨7, "Team A"⟩, ⟨8, "Team B"⟩] : List GroupSummary).all
      (fun g => g.name.all fun c => c.toNat < 128) = true := by
    decide +kernel
  refine answer_matches .plain (replyOf "> Which group?\n team  a ") questionJob.senderEmail questionJob.jobId
    (w := offeredWorld) rfl rfl
    (fun g hg c hc => of_decide_eq_true (List.all_eq_true.1 (List.all_eq_true.1 hascii g hg) c hc)) (by decide +kernel)
    (exec_play (E := .faulty) (fun _ _ => trivial) [] _ _ fun _ _ _ _ => trivial) ⟨?_, ?_⟩
  · exact ⟨t, ht, of_decide_eq_true hstep⟩
  · exact Option.bind_eq_some_iff.1 hhint

end

end GroupAssessmentAgent
