import GroupAssessmentAgent.Python.Text

/-!
# Sender authorisation

The decision about a sender, taken from the address in `From` and the provider's SPF, DKIM and DMARC verdicts.
-/

namespace GroupAssessmentAgent
open Regex

inductive AuthResultReason where
  | authorised | unrecognisedInDomain | unauthorisedExternal | unauthenticated | malformedSender
  deriving DecidableEq, Repr

def AuthResultReason.value : AuthResultReason → Text
  | authorised => "authorised"
  | unrecognisedInDomain => "unrecognised_in_domain"
  | unauthorisedExternal => "unauthorised_external"
  | unauthenticated => "unauthenticated"
  | malformedSender => "malformed_sender"

/-- The verdicts that the provider reports, where it does. -/
structure AuthSignals where
  spf : Option Text := none
  dkim : Option Text := none
  dmarc : Option Text := none
  rawHeader : Option Text := none
  deriving DecidableEq

structure SenderAuthResult where
  ok : Bool
  userId : Option Nat
  senderEmail : Text
  reason : AuthResultReason
  deriving DecidableEq

/-- A character of an address part: no `@`, no white space. -/
def isAddressChar (c : Char) : Bool := c != '@' && !isSpace c

/-- `^[^@\s]+@[^@\s]+\.[^@\s]+$`. -/
def emailRe : Re :=
  .seq .bos (.seq (.plus isAddressChar) (.seq (.one (· == '@')) (.seq (.plus isAddressChar)
    (.seq (.one (· == '.')) (.seq (.plus isAddressChar) .eos)))))

/-- The text after the last `@`. -/
def domainOf (address : Text) : Text := (address.reverse.takeWhile (· != '@')).reverse

section
variable [PyChars]

/-- `_normalise_email`. -/
def normaliseEmail (address : Text) : Option Text :=
  if address = [] then none
  else
    let candidate := lower (strip address)
    if (matchAt emailRe none candidate).isSome then some candidate else none

/-- The test for the empty text decides nothing. -/
theorem normaliseEmail_eq (address : Text) : normaliseEmail address =
    if (matchAt emailRe none (lower (strip address))).isSome then some (lower (strip address)) else none := by
  by_cases hnil : address = []
  · have hlower : lower (strip []) = ([] : Text) := PyChars.lower_ascii [] (by simp)
    have hempty : matchAt emailRe none [] = none := by decide
    rw [hnil, hlower, hempty]
    rfl
  · rw [normaliseEmail, if_neg hnil]

theorem normaliseEmail_eq_some {address email : Text} (h : normaliseEmail address = some email) :
    email = lower (strip address) := by
  rw [normaliseEmail_eq] at h
  split_ifs at h
  exact (Option.some.inj h).symm

theorem normaliseEmail_lower_strip (s : Text) : normaliseEmail (lower (strip s)) = normaliseEmail s := by
  have hagain : lower (strip (lower (strip s))) = lower (strip s) := by
    rw [PyChars.strip_lower, strip_strip, PyChars.lower_lower]
  rw [normaliseEmail_eq, normaliseEmail_eq s, hagain]

theorem normaliseEmail_space {s : Text} (h : ' ' ∈ strip s) : normaliseEmail s = none := by
  have hspace : ' ' ∈ lower (strip s) := by
    have hmem : ' ' ∈ (lower (strip s)).filter isSpace := by
      rw [PyChars.filter_lower]
      exact List.mem_filter.2 ⟨h, by decide⟩
    exact List.mem_of_mem_filter hmem
  have htakes : emailRe.Takes (· ≠ ' ') := by
    have hpart : ∀ x, isAddressChar x = true → x ≠ ' ' := by
      rintro x hx rfl
      cases hx
    refine ⟨trivial, ⟨hpart, hpart⟩, ?_, ⟨hpart, hpart⟩, ?_, ⟨hpart, hpart⟩, trivial⟩ <;> rintro x hx rfl <;> cases hx
  have hgo : emailRe.go ⟨none, lower (strip s), []⟩ = [] := by
    rw [List.eq_nil_iff_forall_not_mem]
    intro d hd
    obtain ⟨w, hw, hne⟩ : Taken (· ≠ ' ') (lower (strip s)) d.rest := go_takes htakes hd
    have hends : emailRe.Ends := trivial
    rw [hw, List.mem_append] at hspace
    rcases hspace with hmem | hmem
    · exact hne _ hmem rfl
    · rcases go_ends hends hd with hrest | hrest <;> simp [hrest] at hmem
  rw [normaliseEmail_eq, matchAt, hgo]
  simp

structure SenderAuthoriser where
  groupOwners : List (Text × Nat)
  authorisedDomains : List Text
  requireAuthPass : Bool := true

namespace SenderAuthoriser

/-- The user id of an owner: of equal keys the last one counts. -/
def ownerId (a : SenderAuthoriser) (email : Text) : Option Nat :=
  (a.groupOwners.map fun kv => (lower (strip kv.1), kv.2)).reverse.lookup email

def knowsDomain (a : SenderAuthoriser) (domain : Text) : Prop :=
  domain ∈ a.authorisedDomains.map fun d => lower (strip d)

instance (a : SenderAuthoriser) (domain : Text) : Decidable (a.knowsDomain domain) :=
  inferInstanceAs (Decidable (_ ∈ _))

/-- A verdict is there, and it is `pass`. -/
def isPass (verdict : Option Text) : Bool := verdict.any fun v => lower v = "pass"

/-- `_auth_pass`. -/
def authPass (signals : AuthSignals) : Bool :=
  isPass signals.dmarc || (isPass signals.spf && isPass signals.dkim)

def authorise (a : SenderAuthoriser) (fromAddress : Text) (signals : AuthSignals) : SenderAuthResult :=
  match normaliseEmail fromAddress with
  | none => ⟨false, none, fromAddress, .malformedSender⟩
  | some email =>
    if a.requireAuthPass && !authPass signals then ⟨false, none, email, .unauthenticated⟩
    else
      match a.ownerId email with
      | some id => ⟨true, some id, email, .authorised⟩
      | none =>
        if a.knowsDomain (domainOf email) then ⟨false, none, email, .unrecognisedInDomain⟩
        else ⟨false, none, email, .unauthorisedExternal⟩

/-- The address of a registered owner. -/
def IsOwner (a : SenderAuthoriser) (address : Text) : Prop :=
  ∃ email id, normaliseEmail address = some email ∧ a.ownerId email = some id

theorem authorise_authorised {a : SenderAuthoriser} {address : Text} {signals : AuthSignals}
    (h : (a.authorise address signals).reason = .authorised) :
    ∃ email id, normaliseEmail address = some email ∧ a.ownerId email = some id ∧
      (a.requireAuthPass = true → authPass signals = true) ∧
      a.authorise address signals = ⟨true, some id, email, .authorised⟩ := by
  rw [authorise] at h ⊢
  cases hn : normaliseEmail address with
  | none => simp [hn] at h
  | some email =>
    by_cases hp : (a.requireAuthPass && !authPass signals) = true
    · simp [hn, hp] at h
    · cases ho : a.ownerId email with
      | none =>
        simp only [hn, hp, ho, Bool.false_eq_true, if_false] at h
        split_ifs at h
      | some id =>
        refine ⟨email, id, rfl, ho, fun hreq => ?_, ?_⟩
        · simpa [hreq] using hp
        · simp only [hp, ho, Bool.false_eq_true, if_false]

theorem authorise_eq_authorised (a : SenderAuthoriser) (address : Text) (signals : AuthSignals) :
    (a.authorise address signals).reason = .authorised ↔
      a.IsOwner address ∧ (a.requireAuthPass = true → authPass signals = true) := by
  constructor
  · intro h
    obtain ⟨email, id, hn, ho, hp, _⟩ := authorise_authorised h
    exact ⟨⟨email, id, hn, ho⟩, hp⟩
  · rintro ⟨⟨email, id, hn, ho⟩, hp⟩
    have hpass : (a.requireAuthPass && !authPass signals) = false := by
      cases hreq : a.requireAuthPass with
      | false => rfl
      | true => simp [hp hreq]
    simp only [authorise, hn, hpass, ho, Bool.false_eq_true, if_false]

theorem authorise_inDomain {a : SenderAuthoriser} {address : Text} {signals : AuthSignals}
    (h : (a.authorise address signals).reason = .unrecognisedInDomain) :
    ∃ email, normaliseEmail address = some email ∧ a.knowsDomain (domainOf email) ∧
      (a.authorise address signals).senderEmail = email := by
  rw [authorise] at h ⊢
  cases hn : normaliseEmail address with
  | none => simp [hn] at h
  | some email =>
    by_cases hp : (a.requireAuthPass && !authPass signals) = true
    · simp [hn, hp] at h
    · cases ho : a.ownerId email with
      | some id => simp [hn, hp, ho] at h
      | none =>
        by_cases hd : a.knowsDomain (domainOf email)
        · exact ⟨email, rfl, hd, by simp only [hp, ho, hd, Bool.false_eq_true, if_false, if_true]⟩
        · simp [hn, hp, ho, hd] at h

end SenderAuthoriser

end

/-- One owner, and the domain of his address. -/
def smallAuthoriser : SenderAuthoriser :=
  { groupOwners := [("alice@uni.ac.uk", 12)], authorisedDomains := ["uni.ac.uk"] }

end GroupAssessmentAgent
