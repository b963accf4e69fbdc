import Stabber.ReplyStanzas

/-!
# What the client reads of an authentication

`auth_callback` decides by the texts of the three fields. The client reads the decision as
an element with the id of its request, for which the id has to be plain, as for all
replies.
-/

namespace Stabber.AuthReplies
open XmlDocument XmlReader XmlReading Stanza StanzaRoundTrip Priming Callbacks ReplyIds
open Authentication ReplyStanzas

/-- An `iq` with this id and this type, and nothing in it. -/
def Verdict (id type out : Str) : Prop :=
  Denotes out (.elem "iq".toList [("id".toList, id), ("type".toList, type)] [])

/-- A result for this id with an empty element for each of these names. -/
def Asks (id : Str) (names : List Str) (out : Str) : Prop :=
  Denotes out (.elem "iq".toList [("type".toList, "result".toList), ("id".toList, id)]
    [.elem "query".toList [("xmlns".toList, "jabber:iq:auth".toList)]
      (names.map fun name => .elem name [] [])])

/-- The right messages for a query, an id and a required password: one reply in each case,
and the end of the stream after an error. -/
structure Decided (query : XMPPStanza) (id required : Str) (messages : List Str) : Prop where
  success : (∃ out, messages = [out] ∧ Verdict id "result".toList out) ↔
    missing query = [] ∧ fieldText query passwordField = required
  failure : (∃ out, messages = [out, STREAM_END] ∧ Verdict id "error".toList out) ↔
    missing query = [] ∧ fieldText query passwordField ≠ required
  fields : missing query ≠ [] → ∃ out, messages = [out] ∧ Asks id (missing query) out

/-- The callback completes and writes the right messages. -/
def Decides (primed : Primed) (client : XMPPClient) (stanza query : XMPPStanza)
    (id required : Str) : Prop :=
  ∃ client' messages, authCallback (primeRequiredPasswd required primed) client stanza =
    .ok (client', messages) ∧ Decided query id required messages

/-- A text has one tree, so it has one list of attributes. -/
theorem not_denotes_of_attrs {out n m : Str} {as bs : List (Str × Str)} {ks ls : List Node}
    (h : Denotes out (.elem n as ks)) (hne : as ≠ bs) : ¬ Denotes out (.elem m bs ls) := by
  obtain ⟨r, hfeed, -⟩ := h
  rintro ⟨r', hfeed', -⟩
  rw [hfeed, Node.tokens, Node.tokens] at hfeed'
  simp only [Option.some.injEq, Prod.mk.injEq, List.cons.injEq, Token.start.injEq] at hfeed'
  exact hne hfeed'.2.1.2

theorem nodesOf_emptyStanzas (names : List Str) :
    nodesOf (names.map emptyStanza) = names.map fun name => .elem name [] [] := by
  induction names with
  | nil => rfl
  | cons name names ih =>
      rw [List.map_cons, nodesOf, ih]
      rfl

section Plain
variable {id : Str} (hid : PlainValue id)
include hid

theorem verdict_authsuccess : Verdict id "result".toList (authsuccess (some id)) := by
  rw [← (stanzaToString_verdictStanza id).2]
  exact denotes_stanzaToString (plain_verdictStanza hid (by decide))

theorem verdict_authfail : Verdict id "error".toList (authfail (some id)) := by
  rw [← (stanzaToString_verdictStanza id).1]
  exact denotes_stanzaToString (plain_verdictStanza hid (by decide))

theorem asks_fieldsReply {names : List Str} (hne : names ≠ [])
    (hnames : ∀ n ∈ names, isName n = true) : Asks id names (fieldsReply id names) := by
  have hdenotes := denotes_stanzaToString (plain_fieldsStanza hid hnames)
  rw [stanzaToString_fieldsStanza id hne] at hdenotes
  have hnode : nodeOf (fieldsStanza id names) =
      .elem "iq".toList [("type".toList, "result".toList), ("id".toList, id)]
        [.elem "query".toList [("xmlns".toList, "jabber:iq:auth".toList)]
          (nodesOf (names.map emptyStanza))] := rfl
  rw [hnode, nodesOf_emptyStanzas] at hdenotes
  exact hdenotes

end Plain

/-- In each case the reply carries the id, which is therefore plain. -/
theorem plainValue_of_verdict {id type : Str} (htype : PlainValue type)
    (h : Verdict id type (stanzaToString (verdictStanza id type))) : PlainValue id := by
  have hempty := plain_verdictStanza (by decide : PlainValue []) htype
  exact (carriesId_iff_plain hempty id).mp (carriesId_of_mem h (by simp))

theorem plainValue_of_asks {id : Str} {names : List Str} (hnames : ∀ n ∈ names, isName n = true)
    (h : Asks id names (stanzaToString (fieldsStanza id names))) : PlainValue id := by
  have hempty := plain_fieldsStanza (by decide : PlainValue []) hnames
  exact (carriesId_iff_plain hempty id).mp (carriesId_of_mem h (by simp))

/-! ## The callback -/

theorem isName_of_missing {query : XMPPStanza} {name : Str} (h : name ∈ missing query) :
    isName name = true := by
  have hname := (List.mem_filter.mp h).1
  simp only [fields, List.mem_cons, List.not_mem_nil, or_false] at hname
  rcases hname with rfl | rfl | rfl <;> rfl

section Decided
variable {query : XMPPStanza} {id required : Str}

theorem decided_fields_iff (hsome : missing query ≠ []) :
    Decided query id required [fieldsReply id (missing query)] ↔ PlainValue id := by
  constructor
  · intro h
    obtain ⟨out, hout, hasks⟩ := h.fields hsome
    rw [← List.singleton_inj.mp hout, ← stanzaToString_fieldsStanza id hsome] at hasks
    exact plainValue_of_asks (fun _ => isName_of_missing) hasks
  · intro hid
    have hasks : Asks id (missing query) (fieldsReply id (missing query)) :=
      asks_fieldsReply hid hsome fun _ => isName_of_missing
    constructor
    · refine iff_of_false ?_ (by simp [hsome])
      rintro ⟨out, hout, hverdict⟩
      rw [← List.singleton_inj.mp hout] at hverdict
      exact not_denotes_of_attrs hasks (by simp) hverdict
    · simp [hsome]
    · exact fun _ => ⟨_, rfl, hasks⟩

variable (hall : missing query = [])
include hall

theorem decided_success_iff (htext : fieldText query passwordField = required) :
    Decided query id required [authsuccess (some id)] ↔ PlainValue id := by
  constructor
  · intro h
    obtain ⟨out, hout, hverdict⟩ := h.success.mpr ⟨hall, htext⟩
    rw [← List.singleton_inj.mp hout, ← (stanzaToString_verdictStanza id).2] at hverdict
    exact plainValue_of_verdict (by decide) hverdict
  · intro hid
    constructor
    · exact iff_of_true ⟨_, rfl, verdict_authsuccess hid⟩ ⟨hall, htext⟩
    · simp [htext]
    · exact fun hne => (hne hall).elim

theorem decided_failure_iff (htext : fieldText query passwordField ≠ required) :
    Decided query id required [authfail (some id), STREAM_END] ↔ PlainValue id := by
  constructor
  · intro h
    obtain ⟨out, hout, hverdict⟩ := h.failure.mpr ⟨hall, htext⟩
    rw [← (List.cons.inj hout).1, ← (stanzaToString_verdictStanza id).1] at hverdict
    exact plainValue_of_verdict (by decide) hverdict
  · intro hid
    constructor
    · simp [htext]
    · exact iff_of_true ⟨_, rfl, verdict_authfail hid⟩ ⟨hall, htext⟩
    · exact fun hne => (hne hall).elim

end Decided

theorem decides_iff_of_ok {primed : Primed} {client client' : XMPPClient}
    {stanza query : XMPPStanza} {id required : Str} {messages : List Str}
    (hok : authCallback (primeRequiredPasswd required primed) client stanza =
      .ok (client', messages)) :
    Decides primed client stanza query id required ↔ Decided query id required messages := by
  constructor
  · rintro ⟨client'', messages', hok', hdecided⟩
    rw [hok] at hok'
    cases hok'
    exact hdecided
  · exact fun hdecided => ⟨client', messages, hok, hdecided⟩

section Auth
variable {stanza query : XMPPStanza} {id : Str}
  (hquery : stanzaGetChildByNs (some stanza) "jabber:iq:auth".toList = some query)
  (hid : stanzaGetId (some stanza) = some id) (primed : Primed) (client : XMPPClient)
include hquery hid

theorem textsPresent_of_ok {result : XMPPClient × List Str}
    (h : authCallback primed client stanza = .ok result) : TextsPresent query := by
  intro hall name hname child hchild
  have hpresent := fun name (hname : name ∈ fields) => present_of_missing hname hall
  obtain ⟨username, husername⟩ := hpresent usernameField (by simp [fields])
  obtain ⟨password, hpassword⟩ := hpresent passwordField (by simp [fields])
  obtain ⟨resource, hresource⟩ := hpresent resourceField (by simp [fields])
  obtain ⟨hu, hp, hr⟩ := contents_of_ok hquery hid _ client husername hpassword hresource h
  simp only [fields, List.mem_cons, List.not_mem_nil, or_false] at hname
  rcases hname with rfl | rfl | rfl
  · rw [husername] at hchild
    exact Option.some.inj hchild ▸ hu
  · rw [hpassword] at hchild
    exact Option.some.inj hchild ▸ hp
  · rw [hresource] at hchild
    exact Option.some.inj hchild ▸ hr

/-- The messages of a callback that completes. -/
theorem authCallback_of_textsPresent (required : Str) (htexts : TextsPresent query)
    (hall : missing query = []) :
    ∃ client', authCallback (primeRequiredPasswd required primed) client stanza =
      .ok (client', if fieldText query passwordField = required then [authsuccess (some id)]
        else [authfail (some id), STREAM_END]) := by
  have hpresent := fun name (hname : name ∈ fields) => present_of_missing hname hall
  obtain ⟨username, husername⟩ := hpresent usernameField (by simp [fields])
  obtain ⟨password, hpassword⟩ := hpresent passwordField (by simp [fields])
  obtain ⟨resource, hresource⟩ := hpresent resourceField (by simp [fields])
  have hcontent := fun name (hname : name ∈ fields) child
    (h : stanzaGetChildByName (some query) name = some child) =>
      Option.isSome_iff_exists.mp (htexts hall name hname child h)
  obtain ⟨u, hu⟩ := hcontent usernameField (by simp [fields]) username husername
  obtain ⟨p, hp⟩ := hcontent passwordField (by simp [fields]) password hpassword
  obtain ⟨r, hr⟩ := hcontent resourceField (by simp [fields]) resource hresource
  have hfield : fieldText query passwordField = p := by
    rw [fieldText, hpassword, Option.bind_some, hp, Option.getD_some]
  rw [hfield]
  exact ⟨_, authCallback_of_contents hquery hid primed client husername hpassword hresource
    required hu hp hr⟩

/-- Exactly one reply, the right one and with the id, if and only if no content is missing
where all the elements are there, and the id is plain. -/
theorem decides_iff (required : Str) :
    Decides primed client stanza query id required ↔ TextsPresent query ∧ PlainValue id := by
  have hmessages : TextsPresent query →
      (Decides primed client stanza query id required ↔ PlainValue id) := by
    intro htexts
    by_cases hall : missing query = []
    · obtain ⟨client', hok⟩ :=
        authCallback_of_textsPresent hquery hid primed client required htexts hall
      rw [decides_iff_of_ok hok]
      split_ifs with htext
      · exact decided_success_iff hall htext
      · exact decided_failure_iff hall htext
    · rw [decides_iff_of_ok (authCallback_missing hquery hid _ client hall)]
      exact decided_fields_iff hall
  constructor
  · intro h
    have htexts : TextsPresent query := by
      obtain ⟨client', messages, hok, -⟩ := h
      exact textsPresent_of_ok hquery hid _ client hok
    exact ⟨htexts, (hmessages htexts).mp h⟩
  · rintro ⟨htexts, hplain⟩
    exact (hmessages htexts).mpr hplain

end Auth

/-! ## Requests -/

def authQuery (username password resource : Option Str) : XMPPStanza :=
  ⟨"query".toList, [⟨"xmlns".toList, "jabber:iq:auth".toList⟩],
    [⟨usernameField, [], [], username⟩, ⟨passwordField, [], [], password⟩,
      ⟨resourceField, [], [], resource⟩], none⟩

/-- An authentication with this id and these contents. -/
def authRequest (id : Str) (username password resource : Option Str) : XMPPStanza :=
  ⟨"iq".toList, [⟨"id".toList, id⟩], [authQuery username password resource], none⟩

def untouched : Primed := ⟨none, none, none, none⟩

theorem request_decided :
    Decides untouched xmppclientNew
      (authRequest "a1".toList (some "stabber".toList) (some "secret".toList)
        (some "test".toList))
      (authQuery (some "stabber".toList) (some "secret".toList) (some "test".toList))
      "a1".toList "secret".toList := by
  refine (decides_iff rfl rfl _ _ _).mpr ⟨?_, by decide⟩
  intro _ name hname child hchild
  simp only [fields, List.mem_cons, List.not_mem_nil, or_false] at hname
  rcases hname with rfl | rfl | rfl
  · cases hchild
    rfl
  · cases hchild
    rfl
  · cases hchild
    rfl

/-- With `<username/>` the callback dereferences a null content, and with the id `a&amp;b`
it writes one that no parser reads. -/
theorem empty_username_not_decided :
    authCallback (primeRequiredPasswd "secret".toList untouched) xmppclientNew
        (authRequest "a1".toList none (some "secret".toList) (some "test".toList)) =
      .error .nullDereference ∧
    ¬ Decides untouched xmppclientNew
      (authRequest "a1".toList none (some "secret".toList) (some "test".toList))
      (authQuery none (some "secret".toList) (some "test".toList)) "a1".toList "secret".toList ∧
    ¬ Decides untouched xmppclientNew
      (authRequest "a&b".toList (some "stabber".toList) (some "secret".toList)
        (some "test".toList))
      (authQuery (some "stabber".toList) (some "secret".toList) (some "test".toList))
      "a&b".toList "secret".toList := by
  have hfault : authCallback (primeRequiredPasswd "secret".toList untouched) xmppclientNew
      (authRequest "a1".toList none (some "secret".toList) (some "test".toList)) =
      .error .nullDereference := rfl
  refine ⟨hfault, ?_, ?_⟩
  · rintro ⟨client', messages, hok, -⟩
    rw [hfault] at hok
    cases hok
  · have hok : authCallback (primeRequiredPasswd "secret".toList untouched) xmppclientNew
        (authRequest "a&b".toList (some "stabber".toList) (some "secret".toList)
          (some "test".toList)) =
        .ok (⟨some "stabber".toList, some "secret".toList, some "test".toList⟩,
          [authsuccess (some "a&b".toList)]) := rfl
    rw [decides_iff_of_ok hok]
    intro hdecided
    have hplain := (decided_success_iff rfl rfl).mp hdecided
    revert hplain
    decide

end Stabber.AuthReplies
