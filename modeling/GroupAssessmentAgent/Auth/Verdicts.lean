import GroupAssessmentAgent.Mail.GraphClient

/-!
# The verdicts in a header

An `Authentication-Results` value of clauses `method=result properties`, joined by `;`. `findAll_value` says what the
scan of the whole value finds: clause by clause, the clause's own verdict, and then whatever in its property text looks
like a verdict. `_parse_auth_signals` keeps the last one for each method, and `_auth_pass` takes a pass of DMARC, or one
of both SPF and DKIM.

`Sound` is what the verdicts are for: a sender is authorised only if the DMARC clause says pass, or if there is no DMARC
clause and those of SPF and DKIM both say pass. `sound_iff` is the exact condition, for both mail clients. It fails for
a failed DMARC beside two passes, and for a property text that contains a verdict; `passes_of_quiet` says that there is
no third way.
-/

namespace GroupAssessmentAgent
open Regex

inductive Method where
  | spf | dkim | dmarc
  deriving DecidableEq, Repr

def Method.name : Method → Text
  | spf => "spf"
  | dkim => "dkim"
  | dmarc => "dmarc"

/-- One clause. The property text begins after the result, so that its first character is not a letter. -/
structure Clause where
  lead : Text := []
  method : Method
  result : Text
  properties : Text := []
  leadSpace : ∀ c ∈ lead, isSpace c = true
  resultWord : result ≠ [] ∧ ∀ c ∈ result, isLetter c = true
  propertiesApart : ∀ c ∈ properties.head?, isLetter c = false
  oneClause : ';' ∉ properties

def Clause.text (c : Clause) : Text := cat [c.lead, c.method.name, "=", c.result, c.properties]

/-- A value with at least one clause, and at most one for each method. -/
structure AuthHeader where
  clauses : List Clause
  nonempty : clauses ≠ []
  distinct : (clauses.map Clause.method).Nodup

def AuthHeader.value (h : AuthHeader) : Text := join ";" (h.clauses.map Clause.text)

theorem AuthHeader.value_ne_nil (h : AuthHeader) : h.value ≠ [] := by
  obtain ⟨c, cs, hc⟩ := List.exists_cons_of_ne_nil h.nonempty
  have hbegin : c.text <+: h.value := by
    rw [AuthHeader.value, hc, join, List.map_cons]
    cases cs with
    | nil => simp
    | cons c' cs => simp [List.intercalate_cons_cons]
  intro hnil
  rw [hnil, List.prefix_nil] at hbegin
  simp [Clause.text, cat] at hbegin

theorem go_methodRe (m : Method) (prev : Option Char) (rest : Text) (g : List (Nat × Text)) :
    methodRe.go ⟨prev, m.name ++ rest, g⟩ = [⟨lastOf prev m.name, rest, g⟩] := by
  cases m <;> simp [methodRe, Re.go, Re.lit, Method.name]

theorem isSpace_of_isLetter {c : Char} (h : isLetter c = true) : isSpace c = false := by
  by_contra hne
  have hspace : isSpace c = true := by simpa using hne
  have := not_alnum_of_isSpace c hspace
  simp [Char.isAlphanum, isLetter] at this h
  simp [this] at h

theorem go_equals {result : Text} (hne : result ≠ []) (hletters : ∀ x ∈ result, isLetter x = true) (rest : Text)
    (prev : Option Char) (g : List (Nat × Text)) :
    (Re.seq (.star isSpace) (.seq (.lit ("=" : Text)) (.seq (.star isSpace) (.group 2 (.plus isLetter))))).go
      ⟨prev, '=' :: (result ++ rest), g⟩ = (Re.group 2 (.plus isLetter)).go ⟨some '=', result ++ rest, g⟩ := by
  obtain ⟨x, xs, hx⟩ := List.exists_cons_of_ne_nil hne
  have hspace : isSpace x = false := isSpace_of_isLetter (hletters x (by simp [hx]))
  have hstop : isSpace '=' = false := by decide
  have hlit : ∀ prev t, (Re.lit ("=" : Text)).go ⟨prev, '=' :: t, g⟩ = [⟨some '=', t, g⟩] :=
    fun prev t => go_lit ['='] prev t g
  simp only [hx, List.cons_append, go_seq, go_star_stop hstop, go_star_stop hspace, List.flatMap_singleton, hlit]

section
variable [PyChars]

/-- The match that a clause is. -/
def Clause.own (c : Clause) : Match :=
  ⟨cat [c.method.name, "=", c.result], [(2, c.result), (1, c.method.name)]⟩

/-- At a place where a word may begin, the clause's own verdict is matched, and its result to the end. -/
theorem matchAt_own (c : Clause) {prev : Option Char} (hprev : prev.any isWord = false) :
    matchAt verdictRe prev (c.own.text ++ c.properties) = some c.own := by
  obtain ⟨hne, hletters⟩ := c.resultWord
  have htext : c.own.text ++ c.properties = c.method.name ++ '=' :: (c.result ++ c.properties) := by
    simp [Clause.own, cat]
  have hbegin : boundary isWord prev (c.own.text ++ c.properties).head? = true := by
    rw [htext]
    cases c.method <;> simp [boundary, hprev, Method.name, isWord, PyChars.isAlnum_ascii]
  have hname := go_methodRe c.method prev ('=' :: (c.result ++ c.properties)) []
  have hgo : (verdictRe.go ⟨prev, c.own.text ++ c.properties, []⟩).head? =
      some ⟨lastOf (some '=') c.result, c.properties, c.own.groups⟩ := by
    have hresult := head?_plus hne hletters c.propertiesApart (some '=') [(1, c.method.name)]
    rw [verdictRe, go_seq, go_wordB hbegin, List.flatMap_singleton, htext, go_seq, go_group]
    simp only [hname, List.map_cons, List.map_nil, List.flatMap_singleton, go_equals hne hletters, take_sub_length,
      go_group,
      List.head?_map, hresult, Option.map_some]
    rfl
  rw [matchAt, hgo, Option.map_some, take_sub_length]

theorem matchAt_of_no_name {prev : Option Char} {s : Text} (h : methodRe.go ⟨prev, s, []⟩ = []) :
    matchAt verdictRe prev s = none := by
  have hgo : verdictRe.go ⟨prev, s, []⟩ = [] := by
    simp only [verdictRe, go_seq, go_group, List.flatMap_eq_nil_iff]
    intro d hd
    rw [Re.go] at hd
    split_ifs at hd
    · obtain rfl := List.mem_singleton.1 hd
      simp [h]
    · cases hd
  rw [matchAt, hgo]
  rfl

theorem matchAt_apart (prev : Option Char) {x : Char} (hx : isLetter x = false) (xs : Text) :
    matchAt verdictRe prev (x :: xs) = none := by
  have hs : x ≠ 's' := by rintro rfl; cases hx
  have hd : x ≠ 'd' := by rintro rfl; cases hx
  exact matchAt_of_no_name (by simp [methodRe, Re.go, Re.lit, hs, hd])

theorem matchAt_end (prev : Option Char) : matchAt verdictRe prev [] = none :=
  matchAt_of_no_name (by simp [methodRe, Re.go, Re.lit])

theorem scan_apart {lead : Text} (h : ∀ x ∈ lead, isLetter x = false) (prev : Option Char) (s : Text) :
    scan verdictRe 0 prev (lead ++ s) = scan verdictRe 0 (lastOf prev lead) s := by
  induction lead generalizing prev with
  | nil => rfl
  | cons x lead ih =>
    rw [List.cons_append, scan, matchAt_apart prev (h x List.mem_cons_self), lastOf_cons]
    exact ih (fun y hy => h y (List.mem_cons_of_mem x hy)) (some x)

/-- What is found in a property text does not depend on what stands before it. -/
theorem scan_properties (c : Clause) (prev : Option Char) :
    scan verdictRe 0 prev c.properties = findAll verdictRe c.properties := by
  have hapart := c.propertiesApart
  unfold findAll
  generalize c.properties = properties at hapart
  cases properties with
  | nil => rfl
  | cons x xs =>
    have hx : isLetter x = false := hapart x rfl
    rw [scan, matchAt_apart prev hx, scan, matchAt_apart none hx]

/-- What is found in a clause: its own verdict, and then what its property text contains. -/
def Clause.found (c : Clause) : List Match := c.own :: findAll verdictRe c.properties

theorem isWord_of_isSpace {x : Char} (h : isSpace x = true) : isWord x = false := by
  have hunderscore : x ≠ '_' := by rintro rfl; cases h
  simp [isWord, PyChars.isAlnum_space x h, hunderscore]

theorem scan_clause (c : Clause) {prev : Option Char} (hprev : prev.any isWord = false) :
    scan verdictRe 0 prev c.text = c.found := by
  have htext : c.text = c.lead ++ (c.own.text ++ c.properties) := by
    simp [Clause.text, Clause.own, cat]
  have hlead : ∀ x ∈ c.lead, isLetter x = false := by
    intro x hx
    by_contra hne
    have hspace := isSpace_of_isLetter (c := x) (by simpa using hne)
    simp [c.leadSpace x hx] at hspace
  have hlast : (lastOf prev c.lead).any isWord = false := by
    rw [lastOf]
    cases hl : c.lead.getLast? with
    | none => exact hprev
    | some x => exact isWord_of_isSpace (c.leadSpace x (List.mem_of_getLast? hl))
  have hown := matchAt_own c hlast
  rw [htext, scan_apart hlead]
  obtain ⟨x, xs, hx⟩ : ∃ x xs, c.own.text = x :: xs := by
    refine List.exists_cons_of_ne_nil fun h => c.resultWord.1 ?_
    simp [Clause.own, cat] at h
  rw [hx, List.cons_append] at hown ⊢
  rw [scan, hown]
  simp only [hx, List.length_cons, Nat.add_sub_cancel]
  rw [scan_skip, scan_properties, Clause.found]

theorem verdictRe_avoids : verdictRe.Avoids ';' := by
  have hword : isWord ';' = false := by simp [isWord, PyChars.isAlnum_ascii]
  have hletter : isLetter ';' = false := by decide
  have hspace : isSpace ';' = false := by decide
  exact ⟨hword, ⟨avoids_lit (by decide), avoids_lit (by decide), avoids_lit (by decide)⟩, hspace,
    avoids_lit (by decide), hspace, hletter, hletter⟩

/-- What the scan of a whole value finds, clause by clause. -/
def AuthHeader.found (h : AuthHeader) : List Match := h.clauses.flatMap Clause.found

/-- **The scan reads clause by clause.** -/
theorem findAll_value (h : AuthHeader) : findAll verdictRe h.value = h.found := by
  have hscan : ∀ (cs : List Clause) (prev : Option Char), prev.any isWord = false →
      scan verdictRe 0 prev (join ";" (cs.map Clause.text)) = cs.flatMap Clause.found := by
    intro cs
    induction cs with
    | nil => exact fun _ _ => rfl
    | cons c cs ih =>
      intro prev hprev
      rw [List.flatMap_cons, ← scan_clause c hprev]
      cases cs with
      | nil => simp [join]
      | cons c' cs =>
        have hjoin : join ";" ((c :: c' :: cs).map Clause.text) =
            c.text ++ ';' :: join ";" ((c' :: cs).map Clause.text) := by
          simp [join, List.intercalate_cons_cons]
        have hsemi : (some ';').any isWord = false := by simp [isWord, PyChars.isAlnum_ascii]
        rw [hjoin, scan_append_sep verdictRe_avoids matchAt_end _ _ _ (Nat.zero_le _), ih (some ';') hsemi]
  exact hscan h.clauses none rfl

/-! ### What counts -/

/-- A clause of the method says `v`. -/
def AuthHeader.Says (h : AuthHeader) (m : Method) (v : Text) : Prop :=
  ∃ c ∈ h.clauses, c.method = m ∧ lower c.result = v

instance (h : AuthHeader) (m : Method) (v : Text) : Decidable (h.Says m v) :=
  inferInstanceAs (Decidable (∃ c ∈ h.clauses, _))

/-- What a pass should rest on: the DMARC clause, or without one both the others. -/
def AuthHeader.Passes (h : AuthHeader) : Prop :=
  h.Says .dmarc "pass" ∨ (∀ c ∈ h.clauses, c.method ≠ .dmarc) ∧ h.Says .spf "pass" ∧ h.Says .dkim "pass"

instance (h : AuthHeader) : Decidable h.Passes := inferInstanceAs (Decidable (_ ∨ _))

/-- A verdict on the method, in a clause or in a property text. -/
def IsOn (m : Method) (x : Match) : Prop := (x.group 1).map lower = some m.name

/-- The last verdict on the method in the whole value says `v`. -/
def AuthHeader.LastSays (h : AuthHeader) (m : Method) (v : Text) : Prop :=
  ∃ before x after, h.found = before ++ x :: after ∧ IsOn m x ∧ (x.group 2).map lower = some v ∧ ∀ y ∈ after, ¬ IsOn m y

/-- What a pass does rest on: the last verdict on DMARC, or the last ones on both the others. -/
def AuthHeader.CountsAsPass (h : AuthHeader) : Prop :=
  h.LastSays .dmarc "pass" ∨ h.LastSays .spf "pass" ∧ h.LastSays .dkim "pass"

theorem verdictOf_eq_some (h : AuthHeader) (m : Method) (v : Text) :
    verdictOf h.found m.name = some v ↔ h.LastSays m v := by
  rw [verdictOf, Option.bind_eq_some_iff]
  simp only [List.find?_eq_some_iff_append, decide_eq_true_eq, AuthHeader.LastSays, IsOn]
  constructor
  · rintro ⟨x, ⟨hx, after, before, hfound, hafter⟩, hv⟩
    refine ⟨before.reverse, x, after.reverse, ?_, hx, hv, fun y hy => ?_⟩
    · simpa using congrArg List.reverse hfound
    · simpa using hafter y (List.mem_reverse.1 hy)
  · rintro ⟨before, x, after, hfound, hx, hv, hafter⟩
    refine ⟨x, ⟨hx, after.reverse, before.reverse, ?_, fun y hy => ?_⟩, hv⟩
    · simp [hfound]
    · simpa using hafter y (List.mem_reverse.1 hy)

theorem verdictOf_lower (found : List Match) (key : Text) {v : Text} (h : verdictOf found key = some v) :
    lower v = v := by
  rw [verdictOf, Option.bind_eq_some_iff] at h
  obtain ⟨x, _, hv⟩ := h
  obtain ⟨w, _, rfl⟩ := Option.map_eq_some_iff.1 hv
  exact PyChars.lower_lower w

theorem isPass_verdictOf (h : AuthHeader) (m : Method) :
    SenderAuthoriser.isPass (verdictOf h.found m.name) = true ↔ h.LastSays m "pass" := by
  rw [← verdictOf_eq_some, SenderAuthoriser.isPass]
  cases hv : verdictOf h.found m.name with
  | none => simp
  | some v => simp [verdictOf_lower _ _ hv]

theorem authPass_value (h : AuthHeader) :
    SenderAuthoriser.authPass (verdictSignals h.value) = true ↔ h.CountsAsPass := by
  rw [verdictSignals, SenderAuthoriser.authPass, findAll_value]
  simp only [Bool.or_eq_true, Bool.and_eq_true]
  exact or_congr (isPass_verdictOf h .dmarc) (and_congr (isPass_verdictOf h .spf) (isPass_verdictOf h .dkim))

/-- The signals that a mail client reads in the header. -/
inductive ReadFrom (h : AuthHeader) : AuthSignals → Prop
  | imap (msg : RawMessage) (hmsg : msg.get "Authentication-Results" = some h.value) : ReadFrom h (parseAuthSignals msg)
  | graph (headers : List InternetMessageHeader)
      (hheaders : GraphMailClient.headerValue headers "authentication-results" = some h.value) :
      ReadFrom h (GraphMailClient.parseAuthSignals headers)

/-- Both clients take the verdicts from the whole text of the header. -/
theorem ReadFrom.eq {h : AuthHeader} {signals : AuthSignals} (hread : ReadFrom h signals) :
    signals = verdictSignals h.value := by
  cases hread with
  | imap msg hmsg =>
    have htruthy : truthy (some h.value) = some h.value := by
      cases hv : h.value with
      | nil => exact absurd hv h.value_ne_nil
      | cons x xs => rfl
    rw [parseAuthSignals, hmsg, htruthy, Option.getD_some, if_neg h.value_ne_nil]
  | graph headers hheaders => rw [GraphMailClient.parseAuthSignals, hheaders]

/-- The sender is authorised only if the header passes. -/
def Sound (a : SenderAuthoriser) (address : Text) (h : AuthHeader) (signals : AuthSignals) : Prop :=
  (a.authorise address signals).reason = .authorised → h.Passes

instance (a : SenderAuthoriser) (address : Text) (h : AuthHeader) (signals : AuthSignals) :
    Decidable (Sound a address h signals) :=
  inferInstanceAs (Decidable (_ → _))

/-- **When the verdicts are sound**: exactly if the sender is no owner, or the header passes, or the last verdicts in it
do not count as a pass. -/
theorem sound_iff {a : SenderAuthoriser} (ha : a.requireAuthPass = true) (address : Text) {h : AuthHeader}
    {signals : AuthSignals} (hread : ReadFrom h signals) :
    Sound a address h signals ↔ ¬ a.IsOwner address ∨ h.Passes ∨ ¬ h.CountsAsPass := by
  rw [Sound, hread.eq, SenderAuthoriser.authorise_eq_authorised, authPass_value]
  simp only [ha, forall_const]
  by_cases hpass : h.Passes <;> by_cases hcount : h.CountsAsPass <;> simp [hpass, hcount]

end

section Examples
attribute [local instance] asciiChars

def receivedWith (h : AuthHeader) : RawMessage :=
  { headers := [("From", "alice@uni.ac.uk"), ("Authentication-Results", h.value)], root := {} }

def spfPass : Clause :=
  { method := .spf, result := "pass", leadSpace := by simp, resultWord := ⟨by decide, List.all_eq_true.1 rfl⟩
    propertiesApart := by simp, oneClause := by simp }

def dkimPass : Clause :=
  { method := .dkim, result := "pass", leadSpace := by simp, resultWord := ⟨by decide, List.all_eq_true.1 rfl⟩
    propertiesApart := by simp, oneClause := by simp }

def dmarcFail : Clause :=
  { method := .dmarc, result := "fail", leadSpace := by simp, resultWord := ⟨by decide, List.all_eq_true.1 rfl⟩
    propertiesApart := by simp, oneClause := by simp }

/-- A failed SPF with a sender that looks like a verdict. -/
def spfFailFrom : Clause :=
  { method := .spf, result := "fail", properties := " smtp.mailfrom=dmarc=pass@evil.org", leadSpace := by simp
    resultWord := ⟨by decide, List.all_eq_true.1 rfl⟩, propertiesApart := by rintro _ ⟨⟩; rfl, oneClause := by decide }

def bothPass : AuthHeader := ⟨[spfPass, dkimPass], by decide, by decide⟩

theorem sound_iff_bothPass :
    Sound smallAuthoriser "alice@uni.ac.uk" bothPass (parseAuthSignals (receivedWith bothPass)) :=
  (sound_iff rfl _ (.imap (receivedWith bothPass) rfl)).2 (.inr (.inl (by decide +kernel)))

def failedDmarc : AuthHeader := ⟨[spfPass, dkimPass, dmarcFail], by decide, by decide⟩

def verdictInSender : AuthHeader := ⟨[spfFailFrom], by decide, by decide⟩

/-- A failed DMARC beside two passes, and a sender of the form of a verdict: both are authorised. -/
theorem failed_authorised :
    ¬ Sound smallAuthoriser "alice@uni.ac.uk" failedDmarc (parseAuthSignals (receivedWith failedDmarc)) ∧
      ¬ Sound smallAuthoriser "alice@uni.ac.uk" verdictInSender (parseAuthSignals (receivedWith verdictInSender)) := by
  decide +kernel

end Examples

/-! ### Property texts without verdicts -/

section
variable [PyChars]

theorem isOn_own (m : Method) (c : Clause) : IsOn m c.own ↔ c.method = m := by
  have hlower : lower c.method.name = c.method.name := by
    rw [PyChars.lower_ascii]
    · cases c.method <;> rfl
    · cases c.method <;> simp [Method.name]
  have hgroup : c.own.group 1 = some c.method.name := rfl
  rw [IsOn, hgroup, Option.map_some, hlower, Option.some.injEq]
  constructor
  · intro h
    cases hc : c.method <;> cases m <;> simp [hc, Method.name] at h ⊢
  · rintro rfl
    rfl

/-- No property text contains a verdict. -/
def AuthHeader.Quiet (h : AuthHeader) : Prop := ∀ c ∈ h.clauses, findAll verdictRe c.properties = []

theorem lastSays_of_quiet {h : AuthHeader} (hquiet : h.Quiet) (m : Method) (v : Text) :
    h.LastSays m v ↔ h.Says m v := by
  have hfound : h.found = h.clauses.map Clause.own := by
    rw [AuthHeader.found, ← List.flatMap_pure_eq_map]
    exact List.flatMap_congr fun c hc => by rw [Clause.found, hquiet c hc]; rfl
  constructor
  · rintro ⟨before, x, after, hsplit, hon, hv, _⟩
    have hx : x ∈ h.clauses.map Clause.own := by
      rw [← hfound, hsplit]
      simp
    obtain ⟨c, hc, rfl⟩ := List.mem_map.1 hx
    exact ⟨c, hc, (isOn_own m c).1 hon, Option.some.inj hv⟩
  · rintro ⟨c, hc, rfl, rfl⟩
    obtain ⟨cs, cs', hsplit⟩ := List.append_of_mem hc
    have hdistinct := h.distinct
    rw [hsplit, List.map_append, List.map_cons, List.nodup_middle, List.nodup_cons] at hdistinct
    refine ⟨cs.map Clause.own, c.own, cs'.map Clause.own, ?_, (isOn_own _ c).2 rfl, rfl, fun y hy hon => ?_⟩
    · rw [hfound, hsplit, List.map_append, List.map_cons]
    · obtain ⟨c', hc', rfl⟩ := List.mem_map.1 hy
      refine hdistinct.1 (List.mem_append_right _ ?_)
      rw [← (isOn_own _ c').1 hon]
      exact List.mem_map_of_mem hc'

/-- Where no property text contains a verdict, only a DMARC that does not pass beside an SPF and a DKIM that do makes
the verdicts unsound. -/
theorem passes_of_quiet {h : AuthHeader} (hquiet : h.Quiet) (hcount : h.CountsAsPass)
    (hdmarc : ∀ c ∈ h.clauses, c.method = .dmarc → lower c.result = "pass") : h.Passes := by
  simp only [AuthHeader.CountsAsPass, lastSays_of_quiet hquiet] at hcount
  rcases hcount with hpass | hboth
  · exact .inl hpass
  · by_cases hclause : ∃ c ∈ h.clauses, c.method = .dmarc
    · obtain ⟨c, hc, hm⟩ := hclause
      exact .inl ⟨c, hc, hm, hdmarc c hc hm⟩
    · exact .inr ⟨fun c hc hm => hclause ⟨c, hc, hm⟩, hboth⟩

end

end GroupAssessmentAgent
