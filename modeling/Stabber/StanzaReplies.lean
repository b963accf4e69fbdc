import Stabber.StubBook

/-!
# How many stanzas answer one stanza

Each callback that has something to reply with writes one message, and with plain stubs,
ids and addresses each message is one element.
-/

namespace Stabber.StanzaReplies
open XmlDocument XmlReader Stanza StanzaParse StanzaRoundTrip Priming StreamParser Callbacks
open Replies ReplyIds ReplyStanzas StubReplies StubBook

/-- The message is one element and nothing else. -/
def IsElement (m : Str) : Prop := ∃ n as ks, Denotes m (.elem n as ks)

/-- A reply that ends no stream. -/
def IsStanza (r : Reply) : Prop := ∃ x, r = .stanza x

section Book
variable {book : Book} {env : Env} {id : Option Str} {replies : List Reply}

theorem stanza_of_byStub {stub : XMPPStanza} (h : Book.byStub id stub = some replies) :
    ∀ r ∈ replies, IsStanza r := by
  obtain ⟨i, -, rfl⟩ := Option.map_eq_some_iff.mp h
  rw [List.forall_mem_singleton]
  exact ⟨_, rfl⟩

theorem stanza_of_byId (name : Str) : ∀ r ∈ book.byId name id, IsStanza r := by
  intro r hr
  cases id with
  | none => cases hr
  | some i =>
      obtain ⟨stub, -, rfl⟩ := Option.map_eq_some_iff.mp (Option.mem_toList.mp hr)
      exact ⟨_, rfl⟩

theorem stanza_of_discovery (received : List XMPPStanza) (query : Str) :
    ∀ r ∈ Book.discovery env received query id, IsStanza r := by
  unfold Book.discovery
  dsimp only
  split_ifs
  · rw [List.forall_mem_singleton]
    exact ⟨_, rfl⟩
  · rw [List.forall_mem_singleton]
    exact ⟨_, rfl⟩
  · simp

theorem stanza_of_byQuery {received : List XMPPStanza} {query : Str}
    (h : book.byQuery env received (some query) id = some replies) :
    ∀ r ∈ replies, IsStanza r := by
  unfold Book.byQuery at h
  dsimp only at h
  split at h
  next stub => exact stanza_of_byStub h
  next =>
    cases h
    exact stanza_of_discovery received query

theorem stanza_of_byXmlns {xmlns : Str} (h : book.byXmlns (some xmlns) id = some replies) :
    ∀ r ∈ replies, IsStanza r := by
  unfold Book.byXmlns at h
  dsimp only at h
  split at h
  next stub => exact stanza_of_byStub h
  next =>
    cases h
    simp

/-- With an id there is always an answer. -/
theorem byQuery_isSome (received : List XMPPStanza) (query i : Str) :
    (book.byQuery env received (some query) (some i)).isSome := by
  unfold Book.byQuery
  dsimp only
  split
  · rfl
  · rfl

theorem byXmlns_isSome (xmlns i : Str) : (book.byXmlns (some xmlns) (some i)).isSome := by
  unfold Book.byXmlns
  dsimp only
  split
  · rfl
  · rfl

end Book

/-! ## The messages of a call -/

/-- A call leaves the client alone and writes elements, and with an id it succeeds. -/
structure Elements (result : Except Fault (XMPPClient × List Str)) (client : XMPPClient)
    (hasId : Bool) : Prop where
  same : ∀ client' messages, result = .ok (client', messages) → client' = client
  each : ∀ client' messages, result = .ok (client', messages) → ∀ m ∈ messages, IsElement m
  complete : hasId = true → ∃ messages, result = .ok (client, messages)

theorem elements_of_says {written : Except Fault (List Str)} {client : XMPPClient}
    {replies : Option (List Reply)} {hasId : Bool}
    (hspeaks : Says (written.map (client, ·)) replies)
    (hplain : ∀ rs, replies = some rs → ∀ r ∈ rs, r.IsPlain ∧ IsStanza r)
    (hsome : hasId = true → replies.isSome) : Elements (written.map (client, ·)) client hasId := by
  constructor
  · intro client' messages hok
    cases written with
    | error fault => cases hok
    | ok messages' =>
        cases hok
        rfl
  · intro client' messages hok m hm
    cases replies with
    | none =>
        obtain ⟨fault, hfault⟩ := hspeaks
        rw [hfault] at hok
        cases hok
    | some rs =>
        obtain ⟨client'', hwritten⟩ := hspeaks
        rw [hwritten] at hok
        cases hok
        obtain ⟨r, hr, rfl⟩ := List.mem_map.mp hm
        obtain ⟨hx, x, rfl⟩ := hplain rs rfl r hr
        obtain ⟨name, attrs, children, content⟩ := x
        exact ⟨_, _, _, denotes_stanzaToString hx⟩
  · intro hid
    obtain ⟨rs, rfl⟩ := Option.isSome_iff_exists.mp (hsome hid)
    obtain ⟨client', hwritten⟩ := hspeaks
    cases written with
    | error fault => cases hwritten
    | ok messages => exact ⟨messages, rfl⟩

variable (ctx : Context)

theorem elements_dispatch (hprimed : PlainPrimed ctx.primed)
    (hstore : ∀ r ∈ ctx.received, PlainHead r) {s : XMPPStanza} (hs : PlainHead s)
    (hauth : stanzaGetChildByNs (some s) "jabber:iq:auth".toList = none) :
    ∀ c ∈ dispatch s s, Elements (callback ctx c) ctx.client (stanzaGetId (some s)).isSome := by
  have hbook := plainBook_bookOf ctx.order hprimed
  intro c hc
  rcases (mem_dispatch s hauth).mp hc with ⟨i, hi, rfl⟩ | ⟨query, -, rfl⟩ | ⟨xmlns, -, rfl⟩
  · refine elements_of_says (says_id ctx hprimed s.name i) ?_ fun _ => rfl
    rintro rs ⟨⟩ r hr
    refine ⟨Book.byId_plain hbook ?_ s.name r hr, stanza_of_byId s.name r hr⟩
    rintro j ⟨⟩
    exact hs.id i hi
  · refine elements_of_says (says_query ctx hprimed query (stanzaGetId (some s))) ?_ ?_
    · intro rs hrs r hr
      exact ⟨Book.byQuery_plain hbook hstore hs.id hrs r hr, stanza_of_byQuery hrs r hr⟩
    · intro hid
      obtain ⟨i, hi⟩ := Option.isSome_iff_exists.mp hid
      rw [hi]
      exact byQuery_isSome ctx.received query i
  · refine elements_of_says (says_xmlns ctx hprimed xmlns (stanzaGetId (some s))) ?_ ?_
    · intro rs hrs r hr
      exact ⟨Book.byXmlns_plain hbook hs.id hrs r hr, stanza_of_byXmlns hrs r hr⟩
    · intro hid
      obtain ⟨i, hi⟩ := Option.isSome_iff_exists.mp hid
      rw [hi]
      exact byXmlns_isSome xmlns i

theorem callbacks_elements {calls : List (Call XMPPStanza)} {hasId : Bool}
    (h : ∀ c ∈ calls, Elements (callback ctx c) ctx.client hasId) :
    (∀ m ∈ (callbacks ctx calls).1, IsElement m) ∧
      (hasId = true → (callbacks ctx calls).2 = none) := by
  induction calls with
  | nil => exact ⟨by simp [callbacks], fun _ => rfl⟩
  | cons c calls ih =>
      have hfirst := h c List.mem_cons_self
      have hrest := ih fun c hc => h c (List.mem_cons_of_mem _ hc)
      rw [callbacks]
      cases hresult : callback ctx c with
      | error fault =>
          refine ⟨by simp, fun hid => ?_⟩
          obtain ⟨messages, hok⟩ := hfirst.complete hid
          rw [hresult] at hok
          cases hok
      | ok result =>
          obtain ⟨client, messages⟩ := result
          obtain rfl := hfirst.same _ _ hresult
          refine ⟨?_, hrest.2⟩
          rw [List.forall_mem_append]
          exact ⟨hfirst.each _ _ hresult, hrest.1⟩

/-! ## The replies to a stanza -/

/-- A stanza gets at most three messages, one from each callback that applies, and only a
fault makes them fewer. With plain stubs, ids and addresses each of them is one element, and
only a stub for a stanza without an id ends in a fault. -/
theorem replies_of_stanza (s : XMPPStanza)
    (hauth : stanzaGetChildByNs (some s) "jabber:iq:auth".toList = none) :
    let written := callbacks ctx (dispatch s s)
    applying ctx s ≤ 3 ∧ written.1.length ≤ applying ctx s ∧
      (written.2 = none → written.1.length = applying ctx s) ∧
      (PlainPrimed ctx.primed → PlainHead s → (∀ r ∈ ctx.received, PlainHead r) →
        (∀ m ∈ written.1, IsElement m) ∧
          ((stanzaGetId (some s)).isSome → written.2 = none)) := by
  have hcounted := callbacks_counted ctx s hauth
  refine ⟨applying_le ctx s, hcounted.atMost, hcounted.exact, fun hprimed hs hstore => ?_⟩
  exact callbacks_elements ctx (elements_dispatch ctx hprimed hstore hs hauth)

def comparison : Str := "<iq type=\"result\"><a b='&gt;'>1 &gt; 0</a></iq>".toList

def comparisonAttrs : List (Str × Str) := [("type".toList, "result".toList)]

def comparisonKids : List Node :=
  [.elem "a".toList [("b".toList, ">".toList)] ("1 > 0".toList.map .char)]

theorem denotes_comparison :
    Denotes comparison (.elem "iq".toList comparisonAttrs comparisonKids) :=
  ⟨⟨.outside false, [], true, false⟩, by decide +kernel, by decide⟩

theorem plainCharacters_comparison :
    PlainCharacters (stanza "iq".toList comparisonAttrs comparisonKids) := by
  apply plainCharacters_of_plain
  apply plain_of_test
  decide +kernel

/-- The same stub for the id of a request and for the namespace of its query. -/
def stubbedTwice : Context where
  expat := Expat.reference
  order := KeyOrder.insertion
  env := ⟨false, false, false⟩
  primed := ⟨none, some [("1".toList, comparison)], some [],
    some [(discoInfoNs, some (stanza "iq".toList comparisonAttrs comparisonKids))]⟩
  client := xmppclientNew
  received := [discoRequest]

theorem plainPrimed_stubbedTwice : PlainPrimed stubbedTwice.primed := by
  constructor
  · rintro t ⟨⟩ e he
    rw [List.mem_singleton.mp he]
    exact ⟨_, _, _, denotes_comparison, plainCharacters_comparison⟩
  · rintro t ⟨⟩ e he
    cases he
  · rintro t ⟨⟩ e he
    rw [List.mem_singleton.mp he]
    exact ⟨_, _, _, _, denotes_comparison, rfl, plainCharacters_comparison⟩

theorem plainHead_discoRequest : PlainHead discoRequest := by
  constructor
  · rintro i ⟨⟩
    decide
  · rintro jid hjid
    cases hjid

/-- The two stubs and the default reply to the query. -/
theorem replies_of_discoRequest :
    (∀ m ∈ (callbacks stubbedTwice (dispatch discoRequest discoRequest)).1, IsElement m) ∧
      (callbacks stubbedTwice (dispatch discoRequest discoRequest)).1.length = 3 := by
  obtain ⟨-, -, hexact, helements⟩ := replies_of_stanza stubbedTwice discoRequest rfl
  have hstore : ∀ r ∈ stubbedTwice.received, PlainHead r := by
    intro r hr
    rw [List.mem_singleton.mp hr]
    exact plainHead_discoRequest
  obtain ⟨heach, hcomplete⟩ := helements plainPrimed_stubbedTwice plainHead_discoRequest hstore
  exact ⟨heach, hexact (hcomplete rfl)⟩

/-- The stub for the id and the default reply are both sent, and each is an element. -/
theorem discoRequest_replied_twice :
    isRequest discoRequest = true ∧
      stanzaGetChildByNs (some discoRequest) "jabber:iq:auth".toList = none ∧
      Denotes "<iq/>".toList (.elem "iq".toList [] []) ∧
      (callbacks stubbedId (dispatch discoRequest discoRequest)).1.length = 2 ∧
      ∀ m ∈ (callbacks stubbedId (dispatch discoRequest discoRequest)).1, IsElement m := by
  refine ⟨rfl, rfl, ⟨⟨.outside false, [], true, false⟩, rfl, rfl⟩, rfl, ?_⟩
  have hstore : ∀ r ∈ stubbedId.received, PlainHead r := by
    intro r hr
    rw [List.mem_singleton.mp hr]
    exact plainHead_discoRequest
  have hprimed : PlainPrimed stubbedId.primed :=
    plainPrimed_primeForId (plainPrimed_none none) plainStub_iq _
  exact (callbacks_elements stubbedId
    (elements_dispatch stubbedId hprimed hstore plainHead_discoRequest rfl)).1

end Stabber.StanzaReplies
