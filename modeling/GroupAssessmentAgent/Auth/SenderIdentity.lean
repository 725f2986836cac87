import GroupAssessmentAgent.Mail.ImapClient

/-!
# Who the sender is

The `From` value of a single mailbox `"d" <a>`, whose display name `d` the sender chooses. `_extract_address` takes the
first text in angle brackets of the whole value. If `d` contains one, that is the sender (`extractAddress_named`); if no
bracket can begin in `d`, the address is (`extractAddress_closed`); and if one begins in `d` and does not end there, the
text taken has white space in it and is no address (`normaliseEmail_opened`).

`Honest` says that only the address decides who an authorised sender is. `honest_iff` is the exact condition on `d`.
-/

namespace GroupAssessmentAgent
open Regex

structure Address where
  localPart : Text
  domain : Text
  noOpening : '<' ∉ localPart ++ '@' :: domain
  noClosing : '>' ∉ localPart ++ '@' :: domain

def Address.text (a : Address) : Text := a.localPart ++ '@' :: a.domain

/-- `"d" <a>`. -/
def mailbox (d a : Text) : Text := cat ["\"", d, "\" <", a, ">"]

/-! ### The first text in brackets -/

/-- Each `<` stands right before a `>`, so that no text in brackets begins here. -/
def Closed : Text → Prop
  | [] => True
  | c :: s => (c = '<' → s.head? = some '>') ∧ Closed s

/-- The first text in brackets in `d` is `b`. -/
def Named (d b : Text) : Prop := ∃ u v, d = u ++ '<' :: (b ++ '>' :: v) ∧ Closed u ∧ b ≠ [] ∧ '>' ∉ b

/-- A text in brackets begins in `d`, and does not end there. -/
def Opened (d w : Text) : Prop := ∃ u, d = u ++ '<' :: w ∧ Closed u ∧ '>' ∉ w

theorem Closed.append {u v : Text} (hu : Closed u) (hv : Closed v) : Closed (u ++ v) := by
  induction u with
  | nil => exact hv
  | cons c s ih =>
    refine ⟨fun hc => ?_, ih hu.2⟩
    have hhead := hu.1 hc
    rw [List.append_eq, List.head?_append, hhead]
    rfl

theorem closed_of_not_mem {u : Text} (h : '<' ∉ u) : Closed u := by
  induction u with
  | nil => trivial
  | cons c s ih =>
    rw [List.mem_cons, not_or] at h
    exact ⟨fun hc => absurd hc.symm h.1, ih h.2⟩

theorem named_or_closed_or_opened (d : Text) : (∃ b, Named d b) ∨ Closed d ∨ ∃ w, Opened d w := by
  have hfirst : Closed d ∨ ∃ u w, d = u ++ '<' :: w ∧ Closed u ∧ w.head? ≠ some '>' := by
    induction d with
    | nil => exact .inl trivial
    | cons c s ih =>
      by_cases hc : c = '<' → s.head? = some '>'
      · rcases ih with hs | ⟨u, w, rfl, hu, hw⟩
        · exact .inl ⟨hc, hs⟩
        · refine .inr ⟨c :: u, w, rfl, ⟨fun h => ?_, hu⟩, hw⟩
          have hhead := hc h
          cases u with
          | nil => cases hhead
          | cons x u => exact hhead
      · push Not at hc
        exact .inr ⟨[], s, by rw [hc.1]; rfl, trivial, hc.2⟩
  rcases hfirst with hclosed | ⟨u, w, rfl, hu, hw⟩
  · exact .inr (.inl hclosed)
  · by_cases hmem : '>' ∈ w
    · obtain ⟨b, v, rfl, hb⟩ := List.eq_append_cons_of_mem hmem
      refine .inl ⟨b, u, v, rfl, hu, ?_, hb⟩
      rintro rfl
      exact hw rfl
    · exact .inr (.inr ⟨w, u, rfl, hu, hmem⟩)

theorem not_closed_of_bracket {u t : Text} (ht : t.head? ≠ some '>') : ¬ Closed (u ++ '<' :: t) := by
  intro hclosed
  induction u with
  | nil => exact ht (hclosed.1 rfl)
  | cons c u ih => exact ih hclosed.2

theorem Opened.not_closed {d w : Text} (h : Opened d w) : ¬ Closed d := by
  obtain ⟨u, rfl, _, hw⟩ := h
  exact not_closed_of_bracket fun hhead => hw (List.mem_of_head? hhead)

/-! ### What the search finds -/

theorem matchAt_angle (prev : Option Char) {inner : Text} (hne : inner ≠ []) (hgt : '>' ∉ inner) (rest : Text) :
    ∃ m, matchAt angleRe prev ('<' :: (inner ++ '>' :: rest)) = some m ∧ m.group 1 = some inner := by
  have hinner : ∀ x ∈ inner, notGt x = true := by
    intro x hx
    have : x ≠ '>' := by
      rintro rfl
      exact hgt hx
    simpa [notGt] using this
  have hstop : ∀ prev x xs g, notGt x = true → (Re.lit (">" : Text)).go ⟨prev, x :: xs, g⟩ = [] := by
    intro prev x xs g hx
    have : x ≠ '>' := by simpa [notGt] using hx
    simp [Re.lit, seq_one_cons, this]
  have hopen : (Re.lit ("<" : Text)).go ⟨prev, '<' :: (inner ++ '>' :: rest), []⟩ =
      [⟨some '<', inner ++ '>' :: rest, []⟩] := go_lit ['<'] prev _ []
  have hclose : (Re.lit (">" : Text)).go ⟨lastOf (some '<') inner, '>' :: rest, [(1, inner)]⟩ =
      [⟨some '>', rest, [(1, inner)]⟩] := go_lit ['>'] _ rest _
  have hgroup : (Re.seq (.group 1 (.plus notGt)) (.lit (">" : Text))).go ⟨some '<', inner ++ '>' :: rest, []⟩ =
      (Re.lit (">" : Text)).go ⟨lastOf (some '<') inner, '>' :: rest, [(1, inner)]⟩ :=
    go_group_plus hstop hne hinner (by simp [notGt]) (some '<') []
  have hgo : angleRe.go ⟨prev, '<' :: (inner ++ '>' :: rest), []⟩ = [⟨some '>', rest, [(1, inner)]⟩] := by
    rw [angleRe, go_seq, hopen, List.flatMap_singleton, hgroup, hclose]
  rw [matchAt, hgo]
  exact ⟨_, rfl, rfl⟩

theorem matchAt_angle_none (prev : Option Char) {c : Char} {s : Text} (hc : c = '<' → s.head? = some '>') :
    matchAt angleRe prev (c :: s) = none := by
  have hgo : angleRe.go ⟨prev, c :: s, []⟩ = [] := by
    by_cases h : c = '<'
    · obtain ⟨t, rfl⟩ : ∃ t, s = '>' :: t := by
        cases s with
        | nil => cases hc h
        | cons x t => exact ⟨t, by rw [Option.some.inj (hc h)]⟩
      simp [angleRe, Re.go, Re.lit, Re.plus, notGt, h]
    · simp [angleRe, Re.go, Re.lit, h]
  rw [matchAt, hgo]
  rfl

/-- **The search finds the first text in brackets.** -/
theorem search_angle {u inner : Text} (hu : Closed u) (hne : inner ≠ []) (hgt : '>' ∉ inner) (rest : Text) :
    (search angleRe (u ++ '<' :: (inner ++ '>' :: rest))).bind (·.group 1) = some inner := by
  have hfrom :
      ∀ prev, (searchFrom angleRe prev (u ++ '<' :: (inner ++ '>' :: rest))).bind (·.group 1) = some inner := by
    induction u with
    | nil =>
      intro prev
      obtain ⟨m, hm, hgroup⟩ := matchAt_angle prev hne hgt rest
      rw [List.nil_append, searchFrom, hm]
      exact hgroup
    | cons c s ih =>
      intro prev
      have hnone : matchAt angleRe prev (c :: (s ++ '<' :: (inner ++ '>' :: rest))) = none := by
        refine matchAt_angle_none prev fun hc => ?_
        rw [List.head?_append, hu.1 hc]
        rfl
      rw [List.cons_append, searchFrom, hnone]
      exact ih hu.2 (some c)
  exact hfrom none

/-! ### What decides -/

/-- `b` decides who the sender is: the first text in brackets in the display name, or the address if none can begin
there. -/
inductive Decides (d : Text) (a : Address) : Text → Prop
  | name {b : Text} (h : Named d b) : Decides d a b
  | address (h : Closed d) : Decides d a a.text

theorem quote_closed {u : Text} (hu : Closed u) : Closed ('"' :: u) := ⟨fun h => absurd h (by decide), hu⟩

theorem search_decides {d b : Text} {a : Address} (h : Decides d a b) :
    (search angleRe (mailbox d a.text)).bind (·.group 1) = some b := by
  cases h with
  | name h =>
    obtain ⟨u, v, rfl, hu, hne, hb⟩ := h
    have hvalue : mailbox (u ++ '<' :: (b ++ '>' :: v)) a.text =
        ('"' :: u) ++ '<' :: (b ++ '>' :: (v ++ cat ["\" <", a.text, ">"])) := by
      simp [mailbox, cat]
    rw [hvalue]
    exact search_angle (quote_closed hu) hne hb _
  | address h =>
    have hvalue : mailbox d a.text = ('"' :: d ++ ['"', ' ']) ++ '<' :: (a.text ++ '>' :: []) := by
      simp [mailbox, cat]
    have hne : a.text ≠ [] := by simp [Address.text]
    rw [hvalue]
    exact search_angle ((quote_closed h).append (closed_of_not_mem (by decide))) hne a.noClosing []

theorem Decides.eq {d b b' : Text} {a : Address} (h : Decides d a b) (h' : Decides d a b') : b = b' := by
  have hsearch := search_decides h
  rw [search_decides h'] at hsearch
  exact (Option.some.inj hsearch).symm

/-- From a bracket that does not end in the display name, the text goes on to the end of the address. -/
theorem search_opened {d w : Text} (h : Opened d w) (a : Address) :
    (search angleRe (mailbox d a.text)).bind (·.group 1) = some ((w ++ ['"']) ++ ' ' :: ('<' :: a.text)) := by
  obtain ⟨u, rfl, hu, hw⟩ := h
  have hvalue : mailbox (u ++ '<' :: w) a.text =
      ('"' :: u) ++ '<' :: (((w ++ ['"']) ++ ' ' :: ('<' :: a.text)) ++ '>' :: []) := by
    simp [mailbox, cat]
  have hgt : '>' ∉ (w ++ ['"']) ++ ' ' :: ('<' :: a.text) := by
    simpa [hw, Address.text] using a.noClosing
  rw [hvalue]
  exact search_angle (quote_closed hu) (by simp) hgt []

theorem Opened.not_decides {d w : Text} (h : Opened d w) (hquote : '"' ∉ d) {a : Address} {b : Text} :
    ¬ Decides d a b := by
  intro hdecides
  have hsearch := search_decides hdecides
  rw [search_opened h a, Option.some.injEq] at hsearch
  cases hdecides with
  | name hnamed =>
    obtain ⟨u, v, rfl, _⟩ := hnamed
    refine hquote ?_
    simp [← hsearch]
  | address hclosed => exact h.not_closed hclosed

section
variable [PyChars]

theorem extractAddress_of_search {v inner : Text} (h : (search angleRe v).bind (·.group 1) = some inner) :
    extractAddress (some v) = some (lower (strip inner)) := by
  have htruthy : truthy (some v) = some v := by
    cases v with
    | nil => cases h
    | cons x xs => rfl
  rw [extractAddress, htruthy, Option.map_some, h]

theorem normaliseEmail_opened (w : Text) (a : Address) :
    normaliseEmail (lower (strip ((w ++ ['"']) ++ ' ' :: ('<' :: a.text)))) = none := by
  rw [normaliseEmail_lower_strip]
  exact normaliseEmail_space (mem_strip ' ' (x := '"') (y := '<') (by simp) rfl (by simp) rfl)

theorem isOwner_lower_strip (au : SenderAuthoriser) (s : Text) : au.IsOwner (lower (strip s)) ↔ au.IsOwner s := by
  rw [SenderAuthoriser.IsOwner, normaliseEmail_lower_strip, SenderAuthoriser.IsOwner]

theorem toEmailMessage_fromAddress {out : Outside} {now : Datetime} {raw : RawMessage} {ref : Text} {msg : EmailMessage}
    (h : toEmailMessage out now raw ref = .ok msg) :
    msg.fromAddress = (extractAddress (raw.get "From")).getD [] := by
  unfold toEmailMessage at h
  cases hbody : extractBodyText out raw with
  | error e =>
    rw [hbody] at h
    cases h
  | ok bodyText =>
    rw [hbody] at h
    cases h
    rfl

/-- If the sender is authorised, the address is an owner's, and it is the sender. -/
def Honest (au : SenderAuthoriser) (address : Text) (result : SenderAuthResult) : Prop :=
  result.reason = .authorised → (∃ id, au.ownerId (lower address) = some id) ∧ result.senderEmail = lower address

/-- **When the display name does not decide**: exactly if the text that decides is no owner's address, or it is the
address in lower case. -/
theorem honest_iff {au : SenderAuthoriser} {out : Outside} {now : Datetime} {raw : RawMessage} {ref d : Text}
    {a : Address} {msg : EmailMessage} (hquote : '"' ∉ d) (hfrom : raw.get "From" = some (mailbox d a.text))
    (hmsg : toEmailMessage out now raw ref = .ok msg) (hpass : SenderAuthoriser.authPass msg.authSignals = true) :
    Honest au a.text (au.authorise msg.fromAddress msg.authSignals) ↔
      ∀ b, Decides d a b → au.IsOwner b → lower (strip b) = lower a.text := by
  have haddress : msg.fromAddress = (extractAddress (some (mailbox d a.text))).getD [] := by
    rw [toEmailMessage_fromAddress hmsg, hfrom]
  have hdecided : (∃ b, Decides d a b) ∨ ∃ w, Opened d w := by
    rcases named_or_closed_or_opened d with ⟨b, h⟩ | h | h
    · exact .inl ⟨b, .name h⟩
    · exact .inl ⟨_, .address h⟩
    · exact .inr h
  rcases hdecided with ⟨b, hb⟩ | ⟨w, hw⟩
  · rw [extractAddress_of_search (search_decides hb), Option.getD_some] at haddress
    have howner : (au.authorise msg.fromAddress msg.authSignals).reason = .authorised ↔ au.IsOwner b := by
      rw [SenderAuthoriser.authorise_eq_authorised, haddress, isOwner_lower_strip]
      simp [hpass]
    have hsender : (au.authorise msg.fromAddress msg.authSignals).reason = .authorised →
        (∃ id, au.ownerId (lower (strip b)) = some id) ∧
          (au.authorise msg.fromAddress msg.authSignals).senderEmail = lower (strip b) := by
      intro h
      obtain ⟨email, id, hn, ho, _, hresult⟩ := SenderAuthoriser.authorise_authorised h
      rw [haddress, normaliseEmail_lower_strip] at hn
      rw [hresult, ← normaliseEmail_eq_some hn]
      exact ⟨⟨id, ho⟩, rfl⟩
    constructor
    · intro hhonest b' hb' hown
      obtain rfl := hb.eq hb'
      rw [← (hsender (howner.2 hown)).2, (hhonest (howner.2 hown)).2]
    · intro h hauth
      rw [← h b hb (howner.1 hauth)]
      exact hsender hauth
  · rw [extractAddress_of_search (search_opened hw a), Option.getD_some] at haddress
    refine iff_of_true (fun hauth => ?_) fun b hb => absurd hb (hw.not_decides hquote)
    obtain ⟨email, id, hn, _⟩ := SenderAuthoriser.authorise_authorised hauth
    rw [haddress, normaliseEmail_opened] at hn
    cases hn

end

section Examples
attribute [local instance] asciiChars

def aliceAddress : Address := ⟨"alice", "uni.ac.uk", by decide, by decide⟩

def eveAddress : Address := ⟨"eve", "evil.org", by decide, by decide⟩

/-- A message from the mailbox, with a DMARC that passes. -/
def mailFrom (d : Text) (a : Address) : RawMessage :=
  { headers := [("From", mailbox d a.text), ("Authentication-Results", "dmarc=pass")], root := {} }

def receivedFrom (d : Text) (a : Address) : EmailMessage :=
  { messageId := "1", providerRef := "1", fromAddress := (extractAddress (some (mailbox d a.text))).getD []
    subject := [], bodyText := [], receivedAt := "2026-08-11T00:00:00", authSignals := parseAuthSignals (mailFrom d a) }

theorem toEmailMessage_mailFrom (d : Text) (a : Address) :
    toEmailMessage .plain "2026-08-11T00:00:00" (mailFrom d a) "1" = .ok (receivedFrom d a) := rfl

theorem honest_iff_alice :
    Honest smallAuthoriser aliceAddress.text
      (smallAuthoriser.authorise (receivedFrom "Doe, Alice" aliceAddress).fromAddress
        (receivedFrom "Doe, Alice" aliceAddress).authSignals) := by
  refine (honest_iff (d := "Doe, Alice") (by decide) rfl (toEmailMessage_mailFrom _ _) (by decide +kernel)).2
    fun b hb _ => ?_
  rw [hb.eq (.address (closed_of_not_mem (by decide)))]
  decide

/-- Eve takes the address of an owner for her display name. -/
theorem eve_authorised :
    ∃ msg, toEmailMessage .plain "2026-08-11T00:00:00" (mailFrom "<alice@uni.ac.uk>" eveAddress) "1" = .ok msg ∧
      SenderAuthoriser.authPass msg.authSignals = true ∧
      ¬ Honest smallAuthoriser eveAddress.text (smallAuthoriser.authorise msg.fromAddress msg.authSignals) := by
  refine ⟨receivedFrom "<alice@uni.ac.uk>" eveAddress, rfl, by decide +kernel, fun h => ?_⟩
  have hauth : (smallAuthoriser.authorise (receivedFrom "<alice@uni.ac.uk>" eveAddress).fromAddress
      (receivedFrom "<alice@uni.ac.uk>" eveAddress).authSignals).senderEmail = "alice@uni.ac.uk" := by
    decide +kernel
  have hsender := (h (by decide +kernel)).2
  rw [hauth] at hsender
  exact absurd hsender (by decide)

end Examples

end GroupAssessmentAgent
