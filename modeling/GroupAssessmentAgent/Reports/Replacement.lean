import GroupAssessmentAgent.Reports.Workflow

/-!
# Replacing the evidence of a report

`replace_evidence` deletes the stored evidence and inserts the new rows one by one, each statement a transaction of its
own. A repeated pair of source and evidence id raises in the middle: what is stored then is the list up to its first
repeat (`InsertsEnd`). `Replaced` is what a replacement promises, and `replaced_iff` says when it is kept.
-/

namespace GroupAssessmentAgent
open Prog

/-! ### Sorting -/

/-- Two orders that agree on every pair of a list, taken as they stand, sort it alike. -/
theorem map_insertionSort_of_pairwise {α β : Type} {r : α → α → Prop} {s : β → β → Prop} [DecidableRel r]
    [DecidableRel s] {f : α → β} {l : List α} (h : l.Pairwise fun a b => r a b ↔ s (f a) (f b)) :
    (l.insertionSort r).map f = (l.map f).insertionSort s := by
  have hinsert : ∀ (a : α) (l : List α), (∀ b ∈ l, r a b ↔ s (f a) (f b)) →
      (l.orderedInsert r a).map f = (l.map f).orderedInsert s (f a) := by
    intro a l hl
    induction l with
    | nil => rfl
    | cons b l ih =>
      have hb := hl b List.mem_cons_self
      by_cases hab : r a b
      · rw [List.orderedInsert_cons_of_le r l hab, List.map_cons]
        exact (List.orderedInsert_cons_of_le s _ (hb.1 hab)).symm
      · rw [List.orderedInsert_of_not_le r l hab, List.map_cons, ih fun c hc => hl c (List.mem_cons_of_mem b hc)]
        exact (List.orderedInsert_of_not_le s _ fun hsab => hab (hb.2 hsab)).symm
  induction l with
  | nil => rfl
  | cons a l ih =>
    obtain ⟨ha, hl⟩ := List.pairwise_cons.1 h
    rw [List.insertionSort_cons, List.map_cons, List.insertionSort_cons, ← ih hl]
    exact hinsert a _ fun b hb => ha b ((List.mem_insertionSort r).1 hb)

/-! ### What is stored -/

/-- The piece of evidence in a row. -/
def ReportEvidence.item (e : ReportEvidence) : EvidenceItem :=
  { source := e.source, evidenceId := e.evidenceId, title := e.title, eventDate := e.eventDate, content := e.content,
    citation := e.citation, rawJson := e.rawJson }

/-- What must not be repeated in a report. -/
def EvidenceItem.pair (i : EvidenceItem) : Text × Text := (i.source, i.evidenceId)

/-- The rows of a report. -/
def evidenceRows (w : World) (reportId : Text) : List ReportEvidence :=
  w.reportEvidence.rows.filter fun e => e.reportId = reportId

/-- What `evidence` returns. -/
def storedEvidence (w : World) (reportId : Text) : List EvidenceItem :=
  (ReportStore.findEvidence w reportId).map ReportEvidence.item

/-- The list, stably sorted by its sources. -/
def bySource (items : List EvidenceItem) : List EvidenceItem :=
  items.insertionSort fun a b => a.source < b.source ∨ a.source = b.source

/-- The list up to the first piece whose pair has been seen before. -/
def beforeRepeat (seen : List (Text × Text)) : List EvidenceItem → List EvidenceItem
  | [] => []
  | item :: items => if item.pair ∈ seen then [] else item :: beforeRepeat (seen ++ [item.pair]) items

theorem beforeRepeat_eq_self (seen : List (Text × Text)) (items : List EvidenceItem) :
    beforeRepeat seen items = items ↔
      (items.map EvidenceItem.pair).Nodup ∧ ∀ item ∈ items, item.pair ∉ seen := by
  induction items generalizing seen with
  | nil => simp [beforeRepeat]
  | cons item items ih =>
    rw [beforeRepeat]
    split_ifs with hseen
    · simp [hseen]
    · rw [List.cons_inj_right, ih, List.map_cons, List.nodup_cons, List.forall_mem_cons]
      simp only [List.mem_append, List.mem_singleton, not_or, List.mem_map, not_exists, not_and]
      constructor
      · rintro ⟨hnodup, hitems⟩
        exact ⟨⟨fun i hi => (hitems i hi).2, hnodup⟩, hseen, fun i hi => (hitems i hi).1⟩
      · rintro ⟨⟨hne, hnodup⟩, -, hitems⟩
        exact ⟨hnodup, fun i hi => ⟨hitems i hi, hne i hi⟩⟩

/-- The rows are in the order of their numbers. -/
def IdsIncrease (rows : List ReportEvidence) : Prop := rows.Pairwise fun a b => a.id < b.id

theorem storedEvidence_ordered {w : World} {reportId : Text} (h : IdsIncrease (evidenceRows w reportId)) :
    storedEvidence w reportId = bySource ((evidenceRows w reportId).map ReportEvidence.item) := by
  refine map_insertionSort_of_pairwise (h.imp fun {a b} hid => ?_)
  have hle : a.id ≤ b.id := hid.le
  simp only [hle, and_true]
  exact Iff.rfl

/-! ### Inserting -/

/-- One row has been added, with a number of its own. -/
structure EvidenceAdded (reportId : Text) (item : EvidenceItem) (w w' : World) : Prop where
  own : ∃ row, evidenceRows w' reportId = evidenceRows w reportId ++ [row] ∧ row.item = item ∧
    ∀ e ∈ evidenceRows w reportId, e.id < row.id
  others : ∀ other, other ≠ reportId → evidenceRows w' other = evidenceRows w other

/-- **One INSERT** raises on a pair that the report has, and adds a row else. -/
theorem insertEvidence_run (reportId : Text) (item : EvidenceItem) (w : World) :
    let seen := (evidenceRows w reportId).map fun e => e.item.pair
    (item.pair ∈ seen ∧ ∃ e, (ReportStore.insertEvidence reportId item).run w = (.error e, w)) ∨
      item.pair ∉ seen ∧ ∃ w', (ReportStore.insertEvidence reportId item).run w = (.ok (), w') ∧
        EvidenceAdded reportId item w w' := by
  intro seen
  have hseen : (w.reportEvidence.rows.any fun r =>
      r.reportId = reportId ∧ r.source = item.source ∧ r.evidenceId = item.evidenceId) = true ↔ item.pair ∈ seen := by
    simp only [List.any_eq_true, decide_eq_true_eq, seen, List.mem_map, evidenceRows, List.mem_filter,
      EvidenceItem.pair, ReportEvidence.item, Prod.mk.injEq]
    constructor
    · rintro ⟨r, hr, hreport, hpair⟩
      exact ⟨r, ⟨hr, hreport⟩, hpair⟩
    · rintro ⟨r, ⟨hr, hreport⟩, hpair⟩
      exact ⟨r, hr, hreport, hpair⟩
  by_cases hmem : item.pair ∈ seen
  · refine .inl ⟨hmem, ?_⟩
    rw [ReportStore.insertEvidence, run_atomic, if_pos (hseen.2 hmem)]
    exact ⟨_, rfl⟩
  · refine .inr ⟨hmem, ?_⟩
    rw [ReportStore.insertEvidence, run_atomic, if_neg fun h => hmem (hseen.1 h)]
    refine ⟨_, rfl, ?_, ?_⟩
    · refine ⟨_, (List.filter_append ..).trans (congrArg _ (List.filter_cons_of_pos ?_)), rfl, ?_⟩
      · simp
      · intro e he
        exact Table.lt_next (List.mem_filter.1 he).1
    · intro other hother
      refine (List.filter_append ..).trans ?_
      rw [List.filter_cons_of_neg (by simpa using hother.symm), List.filter_nil, List.append_nil]
      rfl

/-- How the inserting ends: what is stored is the list up to its first repeat. -/
structure InsertsEnd (reportId : Text) (items : List EvidenceItem) (w : World) (x : Except Exc Unit) (w' : World) :
    Prop where
  returns : x = .ok () ↔ beforeRepeat ((evidenceRows w reportId).map fun e => e.item.pair) items = items
  stored : (evidenceRows w' reportId).map ReportEvidence.item = (evidenceRows w reportId).map ReportEvidence.item ++
    beforeRepeat ((evidenceRows w reportId).map fun e => e.item.pair) items
  numbered : IdsIncrease (evidenceRows w reportId) → IdsIncrease (evidenceRows w' reportId)
  others : ∀ other, other ≠ reportId → evidenceRows w' other = evidenceRows w other

/-- **All the rows**, one after another. -/
theorem insertAllEvidence_run (reportId : Text) (items : List EvidenceItem) (w : World) :
    ∃ x w', (ReportStore.insertAllEvidence reportId items).run w = (x, w') ∧ InsertsEnd reportId items w x w' := by
  induction items generalizing w with
  | nil => exact ⟨.ok (), w, rfl, by simp [beforeRepeat], by simp [beforeRepeat], id, fun _ _ => rfl⟩
  | cons item items ih =>
    rw [ReportStore.insertAllEvidence, bind_eq]
    rcases insertEvidence_run reportId item w with ⟨hmem, e, hrun⟩ | ⟨hmem, w₁, hrun, hadded⟩
    · refine ⟨.error e, w, run_bind_error hrun, ?_, ?_, id, fun _ _ => rfl⟩
      · simp [beforeRepeat, hmem]
      · simp [beforeRepeat, hmem]
    · obtain ⟨row, hrows, hitem, hlt⟩ := hadded.own
      obtain ⟨x, w', hrest, hends⟩ := ih w₁
      have hpairs : (evidenceRows w₁ reportId).map (fun e => e.item.pair) =
          (evidenceRows w reportId).map (fun e => e.item.pair) ++ [item.pair] := by
        rw [hrows, List.map_append, List.map_singleton, hitem]
      refine ⟨x, w', (run_bind_ok hrun).trans hrest, ?_, ?_, ?_, ?_⟩
      · rw [hends.returns, hpairs, beforeRepeat, if_neg hmem, List.cons_inj_right]
      · rw [hends.stored, hpairs, hrows, beforeRepeat, if_neg hmem]
        simp [hitem]
      · intro hnumbered
        refine hends.numbered ?_
        rw [hrows]
        exact List.pairwise_append.2 ⟨hnumbered, List.pairwise_singleton _ _, fun e he b hb => by
          obtain rfl := List.mem_singleton.1 hb
          exact hlt e he⟩
      · exact fun other hother => (hends.others other hother).trans (hadded.others other hother)

/-! ### Replacing -/

/-- What a replacement promises: after it the list is stored and the rest is as before, or it raises and all is as
before. -/
def Replaced (reportId : Text) (items : List EvidenceItem) (w : World) : Prop :=
  let r := (ReportStore.replaceEvidence reportId items).run w
  (r.1 = .ok () → storedEvidence r.2 reportId = bySource items ∧
    ∀ other, other ≠ reportId → storedEvidence r.2 other = storedEvidence w other) ∧
  ∀ e, r.1 = .error e → ∀ other, storedEvidence r.2 other = storedEvidence w other

theorem replaceEvidence_run (reportId : Text) (items : List EvidenceItem) (w : World) :
    let r := (ReportStore.replaceEvidence reportId items).run w
    (r.1 = .ok () ↔ (items.map EvidenceItem.pair).Nodup) ∧
      storedEvidence r.2 reportId = bySource (beforeRepeat [] items) ∧
      ∀ other, other ≠ reportId → storedEvidence r.2 other = storedEvidence w other := by
  intro r
  let w₁ : World := { w with reportEvidence := w.reportEvidence.select fun e => e.reportId ≠ reportId }
  have hdeleted : evidenceRows w₁ reportId = [] := by
    refine List.filter_eq_nil_iff.2 fun e he => ?_
    simpa using (List.mem_filter.1 he).2
  have hkept : ∀ other, other ≠ reportId → evidenceRows w₁ other = evidenceRows w other := by
    intro other hother
    refine (List.filter_filter ..).trans (List.filter_congr fun e _ => ?_)
    by_cases he : e.reportId = other
    · simp [he, hother]
    · simp [he]
  obtain ⟨x, w', hrun, hends⟩ := insertAllEvidence_run reportId items w₁
  have hdelete : (change .deleteEvidence fun w => { w with
      reportEvidence := w.reportEvidence.select fun e => e.reportId ≠ reportId } : M Unit).run w = (.ok (), w₁) := rfl
  have hr : r = (x, w') := (run_bind_ok hdelete).trans hrun
  have hreturns := hends.returns
  have hstored := hends.stored
  have hnumbered := hends.numbered
  simp only [hdeleted, List.map_nil, List.nil_append] at hreturns hstored hnumbered
  rw [hr]
  refine ⟨hreturns.trans ((beforeRepeat_eq_self [] items).trans ?_), ?_, ?_⟩
  · simp
  · rw [storedEvidence_ordered (hnumbered List.Pairwise.nil), hstored]
  · intro other hother
    have hsame := (hends.others other hother).trans (hkept other hother)
    exact congrArg (fun rows => (rows.insertionSort fun a b =>
      a.source < b.source ∨ a.source = b.source ∧ a.id ≤ b.id).map ReportEvidence.item) hsame

/-- **The evidence is replaced or left alone**, exactly if no pair is repeated in the list, or what stands before the
first repeat is what is stored already. -/
theorem replaced_iff (reportId : Text) (items : List EvidenceItem) (w : World) :
    Replaced reportId items w ↔
      (items.map EvidenceItem.pair).Nodup ∨ storedEvidence w reportId = bySource (beforeRepeat [] items) := by
  obtain ⟨hreturns, hstored, hothers⟩ := replaceEvidence_run reportId items w
  unfold Replaced
  generalize (ReportStore.replaceEvidence reportId items).run w = r at *
  obtain ⟨x, w'⟩ := r
  cases x with
  | ok u =>
    have hnodup := hreturns.1 rfl
    have hall := (beforeRepeat_eq_self [] items).2 ⟨hnodup, fun _ _ h => by cases h⟩
    rw [hall] at hstored
    exact iff_of_true ⟨fun _ => ⟨hstored, hothers⟩, fun e he => by cases he⟩ (.inl hnodup)
  | error e =>
    have hrepeat : ¬ (items.map EvidenceItem.pair).Nodup := fun hnodup => by
      have := hreturns.2 hnodup
      cases this
    rw [or_iff_right hrepeat]
    constructor
    · rintro ⟨-, hsame⟩
      exact (hsame e rfl reportId).symm.trans hstored
    · intro hsame
      refine ⟨fun h => (by cases h), fun e' _ other => ?_⟩
      by_cases hother : other = reportId
      · rw [hother, hsame]
        exact hstored
      · exact hothers other hother

/-- Two meetings' chunks, the second one with the id of the first. -/
def repeatedChunk : List EvidenceItem :=
  [⟨"meetings", "chunk-1", "Sprint review", none, "Alice: done", "meeting 1", "{}"⟩,
    ⟨"meetings", "chunk-1", "Sprint review", none, "Alice: done", "meeting 1", "{}"⟩]

/-- A report with its evidence. -/
def evidencedReport : World where
  reportEvidence := ⟨[⟨1, "WR-1", "github", "repo-1-github", "GitHub activity query", none, "3 commits", "GitHub",
    "{}"⟩], List.nodup_singleton _⟩

/-- The commits are gone, and one of the chunks is there. -/
theorem evidence_lost : ¬ ∀ reportId items w, Replaced reportId items w := by
  intro h
  have hraises : ((ReportStore.replaceEvidence "WR-1" repeatedChunk).run evidencedReport).1 = .error
      ⟨.integrityError, cat ["UNIQUE constraint failed: report_evidence.report_id, report_evidence.source, ",
        "report_evidence.evidence_id"]⟩ := by
    rfl
  have hsame := (h "WR-1" repeatedChunk evidencedReport).2 _ hraises "WR-1"
  revert hsame
  decide +kernel

end GroupAssessmentAgent
