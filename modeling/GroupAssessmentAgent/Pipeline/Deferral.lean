import GroupAssessmentAgent.Pipeline.Conclusions

/-!
# Deferred messages

While Ollama is unavailable an owner's message is neither finalised nor marked, so that a later poll takes it up again.
Each of these polls has called `begin` all the same, which counts an attempt. `deferred_waits_iff`: after `k` such polls
the message still waits, and the next `begin` returns True, exactly as long as the attempts are fewer than
`MAX_PROCESSING_ATTEMPTS`; the outage of three polls uses the message up (`outage_uses_up`).

All this holds for every match against the weekly reports that only reads.
-/

namespace GroupAssessmentAgent
open Prog

section
variable [PyChars] (out : Outside) (p : EmailProcessingPipeline)
  (match? : EmailMessage → Text → M (Option WeeklyReport)) (msg : EmailMessage)

/-- The `begin` of an attempt at the message. -/
def beginOf : M Bool :=
  ProcessedMessageStore.begin out msg.messageId (orText (p.authOf msg).senderEmail msg.fromAddress)
    (p.authOf msg).reason.value

/-- The message is unread and not finalised, and the next attempt at it is let in. -/
structure Waits (w : World) : Prop where
  unread : msg.providerRef ∉ w.seen
  notFinalised : ¬ Concluded w msg.messageId
  taken : ((beginOf out p msg).run w).1 = .ok true

/-- What else happens: nothing to the ledger's row and the mark of this message. -/
def Meanwhile (w w' : World) : Prop :=
  entryOf w' msg.messageId = entryOf w msg.messageId ∧ (msg.providerRef ∈ w'.seen ↔ msg.providerRef ∈ w.seen)

/-- A poll that takes up an owner's message while Ollama is unavailable, and does not conclude it. -/
structure Deferral (w w' : World) : Prop where
  authorised : (p.authOf msg).reason = .authorised
  unavailable : w.ollamaUp = false
  taken : ((beginOf out p msg).run w).1 = .ok true
  attempt : ((p.processMessageWith out match? msg).run w).2 = w'
  notFinalised : ¬ Concluded w' msg.messageId

/-- Deferrals on consecutive polls, with whatever happens elsewhere in between. -/
inductive Deferrals : Nat → World → World → Prop
  | none {w w' : World} : Meanwhile msg w w' → Deferrals 0 w w'
  | next {k : Nat} {w w₁ w₂ w' : World} : Deferrals k w w₁ → Deferral out p match? msg w₁ w₂ → Meanwhile msg w₂ w' →
      Deferrals (k + 1) w w'

/-- A new message waits after any number of deferrals. -/
def NeverUsedUp : Prop :=
  ∀ k w w', msg.providerRef ∉ w.seen → entryOf w msg.messageId = .unseen → Deferrals out p match? msg k w w' →
    Waits out p msg w'

variable {out p match? msg}

theorem beginOf_taken (w : World) : ((beginOf out p msg).run w).1 = .ok true ↔ Admitted w msg.messageId := by
  obtain ⟨w', hrun, _⟩ := begin_run out msg.messageId (orText (p.authOf msg).senderEmail msg.fromAddress)
    (p.authOf msg).reason.value w
  rw [beginOf, hrun]
  simp

theorem not_waits_of_started {w : World} {n : Nat} (h : entryOf w msg.messageId = .started n)
    (hn : maxProcessingAttempts ≤ n) : ¬ Waits out p msg w := by
  intro hwaits
  have hadmitted := (beginOf_taken w).1 hwaits.taken
  rw [Admitted, h] at hadmitted
  exact absurd hadmitted (Nat.not_lt_of_le hn)

variable (out) in
theorem attempt_ends (hmatch : ∀ msg senderEmail, Keeps ledgerAndMarks (match? msg senderEmail)) {w : World}
    (hauth : (p.authOf msg).reason = .authorised) (hadmitted : Admitted w msg.messageId) :
    let w' := ((p.processMessageWith out match? msg).run w).2
    (∃ outcome, entryOf w' msg.messageId = .closed outcome) ∨
      entryOf w' msg.messageId = (entryOf w msg.messageId).next ∧ w'.seen = w.seen := by
  obtain ⟨w₁, hbegin, hentry⟩ := begin_run out msg.messageId (orText (p.authOf msg).senderEmail msg.fromAddress)
    (p.authOf msg).reason.value w
  have hseen : w₁.seen = w.seen := by
    have hkeeps : Keeps World.seen (ProcessedMessageStore.begin out msg.messageId
        (orText (p.authOf msg).senderEmail msg.fromAddress) (p.authOf msg).reason.value) :=
      begin_always overlooks_seen.covers out (coversLedger_of_overlooks fun _ _ => rfl) trivial _ _
    have h := hkeeps.run w
    rwa [hbegin] at h
  rw [if_pos hadmitted] at hentry
  have hrun : (p.processMessageWith out match? msg).run w =
      (p.handleOwner out match? msg (p.authOf msg).senderEmail ((p.authOf msg).userId.getD 0)).run w₁ := by
    rw [EmailProcessingPipeline.processMessageWith, bind_eq, run_bind_ok hbegin]
    simp [hadmitted, hauth]
  have hholds : Holds (fun _ => some msg) msg := rfl
  have hend := (handleOwner_handles out p hholds hmatch (p.authOf msg).senderEmail ((p.authOf msg).userId.getD 0) w₁
    (hentry ▸ Entry.next_ne_unseen _)).run SameMarks.refl fun _ _ => trivial
  rw [← hrun] at hend
  rcases hend with ⟨hleft, hleftSeen⟩ | hclosed
  · exact .inr ⟨hleft.trans hentry, hleftSeen.trans hseen⟩
  · exact .inl hclosed

theorem Deferral.ends (hmatch : ∀ msg senderEmail, Keeps ledgerAndMarks (match? msg senderEmail)) {w w' : World}
    (h : Deferral out p match? msg w w') :
    entryOf w' msg.messageId = (entryOf w msg.messageId).next ∧ w'.seen = w.seen := by
  rcases attempt_ends out hmatch h.authorised ((beginOf_taken w).1 h.taken) with ⟨outcome, hclosed⟩ | hleft
  · rw [h.attempt] at hclosed
    exact absurd ((concluded_iff _ _).2 ⟨outcome, hclosed⟩) h.notFinalised
  · rwa [h.attempt] at hleft

theorem Deferrals.ends (hmatch : ∀ msg senderEmail, Keeps ledgerAndMarks (match? msg senderEmail)) {n k : Nat}
    {w w' : World} (hunread : msg.providerRef ∉ w.seen) (htried : (entryOf w msg.messageId).Tried n)
    (h : Deferrals out p match? msg k w w') :
    msg.providerRef ∉ w'.seen ∧ (entryOf w' msg.messageId).Tried (n + k) := by
  induction h with
  | none helse =>
    rw [helse.1, helse.2]
    exact ⟨hunread, htried⟩
  | next _ hdefer helse ih =>
    obtain ⟨hunread₁, htried₁⟩ := ih hunread htried
    obtain ⟨hentry, hseen⟩ := hdefer.ends hmatch
    rw [helse.1, helse.2, hentry, hseen]
    exact ⟨hunread₁, htried₁.next⟩

/-- **Deferrals use up the attempts**: after `k` deferrals of a message that had `n` attempts before, it still waits
exactly as long as `n + k` is less than `MAX_PROCESSING_ATTEMPTS`. -/
theorem deferred_waits_iff (hmatch : ∀ msg senderEmail, Keeps ledgerAndMarks (match? msg senderEmail)) {n k : Nat}
    {w w' : World} (hunread : msg.providerRef ∉ w.seen) (htried : (entryOf w msg.messageId).Tried n)
    (h : Deferrals out p match? msg k w w') :
    Waits out p msg w' ↔ n + k < maxProcessingAttempts := by
  obtain ⟨hunread', htried'⟩ := h.ends hmatch hunread htried
  have hadmits : Admitted w' msg.messageId ↔ n + k < maxProcessingAttempts := htried'.admits_iff (by decide)
  constructor
  · exact fun hwaits => hadmits.1 ((beginOf_taken w').1 hwaits.taken)
  · intro hlt
    refine ⟨hunread', fun hconcluded => ?_, (beginOf_taken w').2 (hadmits.2 hlt)⟩
    obtain ⟨outcome, hclosed⟩ := (concluded_iff _ _).1 hconcluded
    rw [hclosed] at htried'
    exact htried'

end

/-! ### An outage -/

section
attribute [local instance] asciiChars

variable (match? : EmailMessage → Text → M (Option WeeklyReport))

/-- The state after `n` polls of the owner's message during an outage. -/
def outage : Nat → World
  | 0 => { ollamaUp := false }
  | n + 1 => (smallPipeline.processMessageWith .plain match? aliceMessage).run (outage n) |>.2

/-- Each of the first three polls of the outage takes the message up, and leaves it in progress. -/
def OutageDefers : Prop :=
  ∀ n < 3, (outage match? n).ollamaUp = false ∧ Admitted (outage match? n) aliceMessage.messageId ∧
    entryOf (outage match? (n + 1)) aliceMessage.messageId = .started (n + 1)

instance : Decidable (OutageDefers match?) := inferInstanceAs (Decidable (∀ n < 3, _))

variable {match?}

theorem OutageDefers.deferrals (h : OutageDefers match?) {k : Nat} (hk : k ≤ 3) :
    Deferrals .plain smallPipeline match? aliceMessage k (outage match? 0) (outage match? k) := by
  induction k with
  | zero => exact .none ⟨rfl, .rfl⟩
  | succ k ih =>
    obtain ⟨hdown, hadmitted, hstarted⟩ := h k hk
    refine .next (ih (Nat.le_of_succ_le hk)) ⟨by decide +kernel, hdown, (beginOf_taken _).2 hadmitted, rfl, ?_⟩
      ⟨rfl, .rfl⟩
    rw [concluded_iff]
    rintro ⟨outcome, hclosed⟩
    cases hclosed.symm.trans hstarted

/-- After two deferrals the message still waits. -/
theorem deferred_waits_two : Waits .plain smallPipeline aliceMessage (outage EmailProcessingPipeline.noReport 2) ↔
    0 + 2 < maxProcessingAttempts :=
  have hdefers : OutageDefers EmailProcessingPipeline.noReport := by decide +kernel
  have htried : (entryOf (outage EmailProcessingPipeline.noReport 0) aliceMessage.messageId).Tried 0 := Eq.refl 0
  deferred_waits_iff (fun _ _ => always_ret none) List.not_mem_nil htried (hdefers.deferrals (by decide))

theorem OutageDefers.uses_up (h : OutageDefers match?) : ¬ NeverUsedUp .plain smallPipeline match? aliceMessage := by
  intro hnever
  have hunread : aliceMessage.providerRef ∉ (outage match? 0).seen := List.not_mem_nil
  have hunseen : entryOf (outage match? 0) aliceMessage.messageId = .unseen := rfl
  have hwaits := hnever 3 _ _ hunread hunseen (h.deferrals (Nat.le_refl 3))
  exact not_waits_of_started (h 2 (Nat.lt_succ_self 2)).2.2 (Nat.le_refl 3) hwaits

/-- After three deferrals `begin` returns False. It does not matter how the match ends: the program's own raises before
Ollama is asked, and one that finds no report goes on to ask. -/
theorem outage_uses_up : ¬ NeverUsedUp .plain smallPipeline EmailProcessingPipeline.matchReport aliceMessage ∧
    ¬ NeverUsedUp .plain smallPipeline EmailProcessingPipeline.noReport aliceMessage :=
  ⟨OutageDefers.uses_up (by decide +kernel), OutageDefers.uses_up (by decide +kernel)⟩

end

end GroupAssessmentAgent
