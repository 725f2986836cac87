import GroupAssessmentAgent.Mail.Base

/-!
# The References header of an answer

`_reply_references` joins the inbound References, In-Reply-To and Message-ID without repetitions. It compares the
headers as whole values, and the References of a reply are a list of ids that ends with its In-Reply-To id. So the id
is listed once only if it is the whole of the References (`answer_lists_iff`), and in a longer thread it comes twice.
-/

namespace GroupAssessmentAgent

/-- The headers of a reply in the thread `ids`, a space-separated list of distinct ids that ends with the message the
reply answers. The reply's own id is new. -/
structure Continues (msg : EmailMessage) (ids : List Text) : Prop where
  nonempty : ids ≠ []
  references : msg.references = some (join " " ids)
  inReplyTo : msg.inReplyTo = ids.getLast?
  distinct : ids.Nodup
  token : ∀ id ∈ ids, IsToken id
  messageId : IsToken msg.messageId
  new : msg.messageId ∉ ids

/-! ### Joined ids -/

theorem join_singleton (sep id : Text) : join sep [id] = id := by
  rw [join_cons, List.flatMap_nil, List.append_nil]

theorem join_join_cons (sep : Text) {ids : List Text} (hne : ids ≠ []) (rest : List Text) :
    join sep (join sep ids :: rest) = join sep (ids ++ rest) := by
  obtain ⟨id, ids, rfl⟩ := List.exists_cons_of_ne_nil hne
  rw [join_cons, join_cons, List.cons_append, join_cons, List.flatMap_append, List.append_assoc]

theorem join_ne_nil (sep : Text) {ids : List Text} (hne : ids ≠ []) (hids : ∀ id ∈ ids, IsToken id) :
    join sep ids ≠ [] := by
  obtain ⟨id, ids, rfl⟩ := List.exists_cons_of_ne_nil hne
  rw [join_cons]
  exact List.append_ne_nil_of_left_ne_nil (hids id List.mem_cons_self).1 _

theorem not_isToken_join {id id' : Text} {ids : List Text} : ¬ IsToken (join " " (id :: id' :: ids)) := by
  rintro ⟨-, hvisible⟩
  have hmem : ' ' ∈ join " " (id :: id' :: ids) := by
    rw [join_cons, List.flatMap_cons]
    exact List.mem_append_right _ (List.mem_append_left _ (List.mem_append_left _ List.mem_cons_self))
  exact absurd (hvisible ' ' hmem) (by decide)

/-! ### The headers of an answer -/

/-- The three headers are compared as they are. -/
theorem replyReferences_eq {msg : EmailMessage} {refs last : Text} (hrefs : msg.references = some refs)
    (hlast : msg.inReplyTo = some last) (hrefsNe : refs ≠ []) (hlastNe : last ≠ []) (hidNe : msg.messageId ≠ []) :
    replyReferences msg = join " " (fromKeys [refs, last, msg.messageId]) := by
  rw [replyReferences, hrefs, hlast, truthy_eq_some.2 ⟨rfl, hrefsNe⟩, truthy_eq_some.2 ⟨rfl, hlastNe⟩,
    truthy_eq_some.2 ⟨rfl, hidNe⟩]
  rfl

theorem fromKeys_same {x y : Text} (hne : x ≠ y) : fromKeys [x, x, y] = [x, y] := by
  simp [fromKeys, hne.symm]

theorem fromKeys_distinct {x y z : Text} (hxy : x ≠ y) (hxz : x ≠ z) (hyz : y ≠ z) :
    fromKeys [x, y, z] = [x, y, z] := by
  simp [fromKeys, hxy.symm, hxz.symm, hyz.symm]

/-- References of one id are In-Reply-To, and go in once. -/
theorem replyReferences_one {msg : EmailMessage} {id : Text} (h : Continues msg [id]) :
    replyReferences msg = join " " [id, msg.messageId] := by
  have hid : IsToken id := h.token id List.mem_cons_self
  have hrefs : msg.references = some id := by rw [h.references, join_singleton]
  have hlast : msg.inReplyTo = some id := h.inReplyTo
  have hnew : id ≠ msg.messageId := fun he => h.new (by simp [he])
  rw [replyReferences_eq hrefs hlast hid.1 hid.1 h.messageId.1, fromKeys_same hnew]

/-- References of more ids are not In-Reply-To, and the last of them goes in twice. -/
theorem replyReferences_more {msg : EmailMessage} {refs last : Text} (hrefs : msg.references = some refs)
    (hlast : msg.inReplyTo = some last) (hrefsNe : refs ≠ []) (hmore : ¬ IsToken refs) (htoken : IsToken last)
    (hid : IsToken msg.messageId) (hnew : last ≠ msg.messageId) :
    replyReferences msg = join " " [refs, last, msg.messageId] := by
  have hrefsLast : refs ≠ last := fun he => hmore (he ▸ htoken)
  have hrefsId : refs ≠ msg.messageId := fun he => hmore (he ▸ hid)
  rw [replyReferences_eq hrefs hlast hrefsNe htoken.1 hid.1, fromKeys_distinct hrefsLast hrefsId hnew]

theorem splitWords_replyReferences {msg : EmailMessage} {ids : List Text} (h : Continues msg ids) {last : Text}
    (hlast : ids.getLast? = some last) :
    splitWords (replyReferences msg) =
      if ids.length = 1 then ids ++ [msg.messageId] else ids ++ [last, msg.messageId] := by
  have hmem : last ∈ ids := List.mem_of_getLast? hlast
  split_ifs with hone
  · obtain ⟨id, rfl⟩ := List.length_eq_one_iff.1 hone
    rw [replyReferences_one h, List.singleton_append]
    refine splitWords_join fun word hword => ?_
    rcases List.mem_cons.1 hword with rfl | hword
    · exact h.token word List.mem_cons_self
    · obtain rfl := List.mem_singleton.1 hword
      exact h.messageId
  · have hmore : ¬ IsToken (join " " ids) := by
      obtain ⟨id, ids, rfl⟩ := List.exists_cons_of_ne_nil h.nonempty
      obtain ⟨id', ids, rfl⟩ := List.exists_cons_of_ne_nil fun he : ids = [] => hone (by simp [he])
      exact not_isToken_join
    have hnew : last ≠ msg.messageId := fun he => h.new (he ▸ hmem)
    rw [replyReferences_more h.references (h.inReplyTo.trans hlast) (join_ne_nil " " h.nonempty h.token) hmore
      (h.token last hmem) h.messageId hnew, join_join_cons " " h.nonempty]
    refine splitWords_join fun word hword => ?_
    rcases List.mem_append.1 hword with hword | hword
    · exact h.token word hword
    · rcases List.mem_cons.1 hword with rfl | hword
      · exact h.token word hmem
      · obtain rfl := List.mem_singleton.1 hword
        exact h.messageId

/-- **The answer lists the thread and then the message**, and so one id more than the thread, exactly if the thread
has one id. -/
theorem answer_lists_iff {msg : EmailMessage} {ids : List Text} (h : Continues msg ids) :
    (splitWords (replyReferences msg) = ids ++ [msg.messageId] ↔ ids.length = 1) ∧
      ((splitWords (replyReferences msg)).length = ids.length + 1 ↔ ids.length = 1) := by
  obtain ⟨last, hlast⟩ : ∃ last, ids.getLast? = some last := ⟨_, List.getLast?_eq_some_getLast h.nonempty⟩
  rw [splitWords_replyReferences h hlast]
  split_ifs with hone
  · simp [hone]
  · constructor
    · simp [hone]
    · simp [hone]

/-- A reply to a clarification that was itself sent in answer to a message. -/
def laterReply : EmailMessage where
  messageId := "<answer@uni>"
  providerRef := "7"
  fromAddress := "alice@uni.ac.uk"
  subject := "Re: Which group?"
  bodyText := "Team A"
  receivedAt := "2026-08-11T09:00:00+00:00"
  inReplyTo := some "<question@agent>"
  references := some (join " " ["<request@uni>", "<question@agent>"])

/-- The same reply, where the thread begins with the clarification. -/
def firstReply : EmailMessage := { laterReply with references := some (join " " ["<question@agent>"]) }

theorem isToken_of_all {s : Text} (hne : s ≠ []) (h : s.all (fun c => !isSpace c) = true) : IsToken s :=
  ⟨hne, fun c hc => by simpa using List.all_eq_true.1 h c hc⟩

theorem laterReply_continues : Continues laterReply ["<request@uni>", "<question@agent>"] where
  nonempty := List.cons_ne_nil _ _
  references := rfl
  inReplyTo := rfl
  distinct := by decide
  token := by
    intro id hid
    rcases List.mem_pair.1 hid with rfl | rfl
    · exact isToken_of_all (List.cons_ne_nil _ _) (by decide)
    · exact isToken_of_all (List.cons_ne_nil _ _) (by decide)
  messageId := isToken_of_all (List.cons_ne_nil _ _) (by decide)
  new := by decide

theorem firstReply_continues : Continues firstReply ["<question@agent>"] where
  nonempty := List.cons_ne_nil _ _
  references := rfl
  inReplyTo := rfl
  distinct := List.nodup_singleton _
  token := by
    intro id hid
    obtain rfl := List.mem_singleton.1 hid
    exact isToken_of_all (List.cons_ne_nil _ _) (by decide)
  messageId := laterReply_continues.messageId
  new := by decide

/-- In a thread of one message the answer lists it once. -/
theorem answer_lists_iff_firstReply :
    splitWords (replyReferences firstReply) = [("<question@agent>" : Text), firstReply.messageId] :=
  (answer_lists_iff firstReply_continues).1.2 rfl

/-- In a thread of two messages the answer lists the second of them twice. -/
theorem answer_repeats_laterReply :
    ∃ msg ids, Continues msg ids ∧ splitWords (replyReferences msg) ≠ ids ++ [msg.messageId] ∧
      (splitWords (replyReferences msg)).length ≠ ids.length + 1 := by
  refine ⟨laterReply, _, laterReply_continues, ?_⟩
  have hwords : splitWords (replyReferences laterReply) =
      [("<request@uni>" : Text), "<question@agent>", "<question@agent>", "<answer@uni>"] := by decide
  rw [hwords]
  decide

/-! ### A whole thread -/

/-- A reply to the answer `answerId` that has the References `refs`, as mail clients write it: its References are those
of the answer and then the answer. -/
structure FollowsUp (refs answerId : Text) (msg : EmailMessage) : Prop where
  references : msg.references = some (join " " [refs, answerId])
  inReplyTo : msg.inReplyTo = some answerId
  answerToken : IsToken answerId
  token : IsToken msg.messageId
  new : answerId ≠ msg.messageId

/-- Rounds of one answer and the reply to it, from an answer with the References `refs`. -/
def Correspondence : Text → List (Text × EmailMessage) → Prop
  | _, [] => True
  | refs, (answerId, msg) :: rounds => FollowsUp refs answerId msg ∧ Correspondence (replyReferences msg) rounds

/-- The References of the last answer. -/
def lastReferences (refs : Text) (rounds : List (Text × EmailMessage)) : Text :=
  rounds.foldl (fun _ round => replyReferences round.2) refs

theorem replyReferences_followsUp {ids : List Text} (hne : ids ≠ []) {answerId : Text} {msg : EmailMessage}
    (h : FollowsUp (join " " ids) answerId msg) :
    replyReferences msg = join " " (ids ++ [answerId, answerId, msg.messageId]) := by
  have hrefs : join " " [join " " ids, answerId] = join " " (ids ++ [answerId]) := join_join_cons " " hne [answerId]
  have hmore : ¬ IsToken (join " " [join " " ids, answerId]) := not_isToken_join
  have hrefsNe : join " " [join " " ids, answerId] ≠ [] := by
    rw [join_cons, List.flatMap_singleton]
    exact List.append_ne_nil_of_right_ne_nil _ (List.cons_ne_nil _ _)
  rw [replyReferences_more h.references h.inReplyTo hrefsNe hmore h.answerToken h.token h.new, hrefs,
    join_join_cons " " (List.append_ne_nil_of_left_ne_nil hne _), List.append_assoc]
  rfl

/-- **Over a thread** every round adds three entries to the References for the two messages of the round: each of our
answers is listed twice. -/
theorem lastReferences_words {ids : List Text} (hne : ids ≠ []) (hids : ∀ id ∈ ids, IsToken id)
    {rounds : List (Text × EmailMessage)} (h : Correspondence (join " " ids) rounds) :
    splitWords (lastReferences (join " " ids) rounds) =
      ids ++ rounds.flatMap fun round => [round.1, round.1, round.2.messageId] := by
  induction rounds generalizing ids with
  | nil =>
    rw [List.flatMap_nil, List.append_nil]
    exact splitWords_join hids
  | cons round rounds ih =>
    obtain ⟨hround, hrest⟩ := h
    have hrefs := replyReferences_followsUp hne hround
    rw [hrefs] at hrest
    have htokens : ∀ id ∈ ids ++ [round.1, round.1, round.2.messageId], IsToken id := by
      intro id hid
      simp only [List.mem_append, List.mem_cons, List.not_mem_nil, or_false] at hid
      obtain hid | rfl | rfl | rfl := hid
      · exact hids id hid
      · exact hround.answerToken
      · exact hround.answerToken
      · exact hround.token
    have hlast := ih (List.append_ne_nil_of_left_ne_nil hne _) htokens hrest
    rw [lastReferences, List.foldl_cons, hrefs, List.flatMap_cons, ← List.append_assoc]
    exact hlast

end GroupAssessmentAgent
