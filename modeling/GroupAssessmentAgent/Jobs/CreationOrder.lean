import GroupAssessmentAgent.Jobs.Store
import GroupAssessmentAgent.Python.Calendar

/-!
# The order of creation

The `created_at` columns hold the texts of `utcnow_iso`, and `list_queued` and `Outbox.pending` leave the order of
their rows to SQLite, which compares these texts character by character. `created_in_order`: up to the year 9999 this
is the order of the instants, and the rows come in the order in which they were created.
-/

namespace GroupAssessmentAgent
open Prog

/-- `rows` is a result of selecting `selected` with `ORDER BY key ASC`, where the column holds the text of the
instant. -/
structure OrderedByText {α : Type} (key : α → Instant) (selected rows : List α) : Prop where
  perm : rows.Perm selected
  sorted : rows.Pairwise fun a b => ¬ (key b).isoformat < (key a).isoformat

section
variable {α : Type} {key : α → Instant} {selected : List α} (hyears : ∀ a ∈ selected, (key a).date.year ≤ 9999)
include hyears

/-- Whatever order SQLite takes for equal texts, later rows are not older. -/
theorem OrderedByText.inOrder {rows : List α} (h : OrderedByText key selected rows) :
    rows.Pairwise fun a b => key a ≠ key b → key a < key b := by
  refine h.sorted.imp_of_mem fun {a b} ha hb htexts hne => ?_
  by_contra hlt
  have hba : key b < key a := Nat.lt_of_le_of_ne (Nat.le_of_not_lt hlt) (Ne.symm hne)
  exact htexts (Instant.isoformat_lt hba (hyears b (h.perm.mem_iff.1 hb)) (hyears a (h.perm.mem_iff.1 ha)))

theorem orderBy_orderedByText : OrderedByText key selected (orderBy key selected) where
  perm := List.perm_insertionSort _ selected
  sorted := by
    have hsorted : (orderBy key selected).Pairwise fun a b => key a ≤ key b := List.pairwise_insertionSort _ selected
    refine hsorted.imp_of_mem fun {a b} ha hb hle htexts => ?_
    rcases Nat.lt_or_eq_of_le hle with hlt | heq
    · have hyear : ∀ c ∈ orderBy key selected, (key c).date.year ≤ 9999 := fun c hc =>
        hyears c ((List.mem_insertionSort _).1 hc)
      exact List.lt_asymm htexts (Instant.isoformat_lt hlt (hyear a ha) (hyear b hb))
    · rw [heq] at htexts
      exact List.lt_irrefl _ htexts

end

/-- The rows of `list_queued` and of `Outbox.pending`, in no order. -/
def queuedJobs (w : World) : List Job := w.jobs.rows.filter fun j => j.status = .queued

def pendingMails (w : World) : List OutboxMessage := w.outbox.rows.filter fun m => m.status = .pending

/-- **Text order is the order of creation.** The texts of two instants with years of four digits are in the order of
the instants; so whatever rows `list_queued` and `Outbox.pending` get from an `ORDER BY created_at`, rows with different
instants are in the order of creation. -/
theorem created_in_order :
    (∀ t₁ t₂, t₁ < t₂ → Instant.utcYear t₁ ≤ 9999 → Instant.utcYear t₂ ≤ 9999 →
        Instant.utcIsoformat t₁ < Instant.utcIsoformat t₂) ∧
      (∀ w : World, (∀ j ∈ queuedJobs w, j.createdAt.date.year ≤ 9999) →
        (∃ jobs, JobStore.listQueued.run w = (.ok jobs, w) ∧ OrderedByText Job.createdAt (queuedJobs w) jobs) ∧
          ∀ jobs, OrderedByText Job.createdAt (queuedJobs w) jobs →
            jobs.Pairwise fun a b => a.createdAt ≠ b.createdAt → a.createdAt < b.createdAt) ∧
      ∀ w : World, (∀ m ∈ pendingMails w, m.createdAt.date.year ≤ 9999) →
        (∃ mails, Outbox.pending.run w = (.ok mails, w) ∧
            OrderedByText OutboxMessage.createdAt (pendingMails w) mails) ∧
          ∀ mails, OrderedByText OutboxMessage.createdAt (pendingMails w) mails →
            mails.Pairwise fun a b => a.createdAt ≠ b.createdAt → a.createdAt < b.createdAt := by
  refine ⟨fun t₁ t₂ h hyear₁ hyear₂ => Instant.utcIsoformat_lt h hyear₁ hyear₂, fun w hyears => ⟨?_, ?_⟩,
    fun w hyears => ⟨?_, ?_⟩⟩
  · exact ⟨_, rfl, orderBy_orderedByText hyears⟩
  · exact fun jobs h => h.inOrder hyears
  · exact ⟨_, rfl, orderBy_orderedByText hyears⟩
  · exact fun mails h => h.inOrder hyears

/-- Midnight, which has no fraction of a second, and the microsecond after it. -/
theorem created_in_order_midnight :
    Instant.utcIsoformat (1786406400000000 + Instant.epoch) < Instant.utcIsoformat (1786406400000001 + Instant.epoch) :=
  created_in_order.1 _ _ (by decide) (by decide) (by decide)

example : Instant.utcIsoformat (1786406400000001 + Instant.epoch) = "2026-08-11T00:00:00.000001+00:00" := by decide

end GroupAssessmentAgent
