import Stabber.MalformedTexts
import Stabber.Replies
import Stabber.StubSelection

/-!
# Stanzas without an id

`_end_element` fetches the id once. It asks for one before `id_callback` only, and the
two other callbacks hand it on, to `stanza_set_id` or into a default reply.
-/

namespace Stabber.NullIds
open XmlDocument XmlReader Stanza StanzaParse Priming StreamParser Callbacks Replies
open MalformedTexts StubReplies StubSelection

/-! ## Stubs that can be parsed -/

def Parses (E : Expat) (text : Str) : Prop := ∃ s, stanzaParse E text = .ok (some s)

/-- Whatever the callbacks take from the tables and parse gives a stanza. -/
structure StubsParse (E : Expat) (p : Primed) : Prop where
  id : ∀ order name id stub, stubFor order p name id = some stub → Parses E stub
  query : ∀ query stub, primeGetForQuery p query = some stub → Parses E (stanzaToString stub)
  xmlns : ∀ xmlns stub, primeGetForXmlns p xmlns = some stub → Parses E (stanzaToString stub)

theorem reply_of_parses {E : Expat} {text : Str} (h : Parses E text) (id : Str) :
    ∃ out, reply E text (some id) = .ok out := by
  obtain ⟨s, hs⟩ := h
  refine ⟨stanzaToString { s with attrs := setId id s.attrs }, ?_⟩
  rw [reply, hs]
  rfl

/-- Well-formed stubs that survive being written and parsed once more. -/
structure WellStubbed (E : Expat) (p : Primed) : Prop where
  id : ∀ t, p.idstubs = some t → ∀ e ∈ t, ∃ d, Denotes e.2 d
  query : ∀ t, p.querystubs = some t → ∀ e ∈ t, ∃ stub, e.2 = some stub ∧
    stanzaParse E (stanzaToString stub) = .ok (some stub)
  xmlns : ∀ t, p.xmlnsstubs = some t → ∀ e ∈ t, ∃ stub, e.2 = some stub ∧
    stanzaParse E (stanzaToString stub) = .ok (some stub)

theorem parses_of_denotes (E : Expat) {text : Str} {d : Node} (h : Denotes text d) :
    Parses E text := by
  obtain ⟨n, as, ks, rfl⟩ := denotes_elem h
  exact ⟨_, stanzaParse_document E h⟩

/-- The stub in an entry of a table of stanzas. -/
theorem parses_of_entry {E : Expat} {table : Option (Table (Option XMPPStanza))} {key : Str}
    {stub : XMPPStanza} (h : ∀ t, table = some t → ∀ e ∈ t, ∃ s, e.2 = some s ∧
      stanzaParse E (stanzaToString s) = .ok (some s))
    (hget : (table.bind fun t => t.lookup key).join = some stub) :
    Parses E (stanzaToString stub) := by
  cases table with
  | none => cases hget
  | some t =>
      rw [Option.bind_some, Option.join_eq_some_iff] at hget
      obtain ⟨e, he, hvalue⟩ := mem_of_lookup hget
      obtain ⟨s, hs, hparse⟩ := h t rfl e he
      rw [hvalue, Option.some.injEq] at hs
      rw [hs]
      exact ⟨s, hparse⟩

theorem WellStubbed.stubsParse {E : Expat} {p : Primed} (h : WellStubbed E p) :
    StubsParse E p := by
  constructor
  · intro order name id stub hfor
    obtain ⟨t, key, ht, hkey⟩ := entry_of_stubFor hfor
    obtain ⟨e, he, rfl⟩ := mem_of_lookup hkey
    obtain ⟨d, hd⟩ := h.id t ht e he
    exact parses_of_denotes E hd
  · intro query stub hget
    exact parses_of_entry h.query hget
  · intro xmlns stub hget
    exact parses_of_entry h.xmlns hget

/-! ## The calls for one stanza -/

/-- The callbacks reach the end if each of them does. -/
theorem callbacks_end {ctx : Context} {calls : List (Call XMPPStanza)}
    (h : ∀ c ∈ calls, ∃ messages, callback ctx c = .ok (ctx.client, messages)) :
    (callbacks ctx calls).2 = none := by
  induction calls with
  | nil => rfl
  | cons c calls ih =>
      obtain ⟨messages, hc⟩ := h c List.mem_cons_self
      rw [callbacks, hc]
      exact ih fun d hd => h d (List.mem_cons_of_mem c hd)

/-- The id that the callback gets is null. -/
def NullId : Call XMPPStanza → Prop
  | .query _ id => id = none
  | .xmlns _ id => id = none
  | _ => False

/-- The callbacks reach the end of the dispatch. Every message that they write carries
the id that they get, so none is written with a null id. -/
structure Defined (ctx : Context) (s : XMPPStanza) : Prop where
  ends : (callbacks ctx (dispatch s s)).2 = none
  ids : ∀ c ∈ dispatch s s, NullId c → callback ctx c = .ok (ctx.client, [])

section Calls
variable {ctx : Context} (hstubs : StubsParse ctx.expat ctx.primed)
include hstubs

theorem idCallback_ok (name id : Str) :
    ∃ messages, idCallback ctx.expat ctx.order ctx.primed name id = .ok messages := by
  cases hfor : stubFor ctx.order ctx.primed name id with
  | some stub =>
      obtain ⟨out, hout⟩ := reply_of_parses (hstubs.id _ _ _ _ hfor) id
      refine ⟨[out], ?_⟩
      rw [idCallback_of_stub ctx.expat hfor, hout]
      rfl
  | none =>
      refine ⟨[], ?_⟩
      unfold stubFor at hfor
      unfold idCallback
      cases hid : primeGetForId ctx.order ctx.primed id with
      | some stub =>
          rw [hid] at hfor
          cases hfor
      | none =>
          simp only [hid] at hfor
          simp only [hfor]

theorem queryCallback_ok (query id : Str) :
    ∃ messages, queryCallback ctx.expat ctx.env ctx.primed ctx.received query (some id) =
      .ok messages := by
  unfold queryCallback
  cases hstub : primeGetForQuery ctx.primed query with
  | some stub =>
      obtain ⟨out, hout⟩ := reply_of_parses (hstubs.query _ _ hstub) id
      refine ⟨[out], ?_⟩
      dsimp only
      rw [hout]
      rfl
  | none =>
      dsimp only
      split_ifs
      · exact ⟨_, rfl⟩
      · exact ⟨_, rfl⟩
      · exact ⟨_, rfl⟩

theorem xmlnsCallback_ok (xmlns id : Str) :
    ∃ messages, xmlnsCallback ctx.expat ctx.primed xmlns (some id) = .ok messages := by
  unfold xmlnsCallback
  cases hstub : primeGetForXmlns ctx.primed xmlns with
  | some stub =>
      obtain ⟨out, hout⟩ := reply_of_parses (hstubs.xmlns _ _ hstub) id
      refine ⟨[out], ?_⟩
      dsimp only
      rw [hout]
      rfl
  | none => exact ⟨[], rfl⟩

/-- With an id every callback can be completed. -/
theorem callback_ok_of_id {s : XMPPStanza} {id : Str} (hid : stanzaGetId (some s) = some id)
    (hauth : stanzaGetChildByNs (some s) "jabber:iq:auth".toList = none) :
    ∀ c ∈ dispatch s s, ∃ messages, callback ctx c = .ok (ctx.client, messages) := by
  intro c hc
  rcases (mem_dispatch s hauth).mp hc with ⟨i, _, rfl⟩ | ⟨query, _, rfl⟩ | ⟨xmlns, _, rfl⟩
  · obtain ⟨messages, h⟩ := idCallback_ok hstubs s.name i
    exact ⟨messages, by rw [callback, h]; rfl⟩
  · rw [hid]
    obtain ⟨messages, h⟩ := queryCallback_ok hstubs query id
    exact ⟨messages, by rw [callback, h]; rfl⟩
  · rw [hid]
    obtain ⟨messages, h⟩ := xmlnsCallback_ok hstubs xmlns id
    exact ⟨messages, by rw [callback, h]; rfl⟩

end Calls

/-! ## Stanzas for which dispatch is defined -/

theorem nothing_of_map {client : XMPPClient} {result : Except Fault (List Str)}
    (h : result.map (client, ·) = .ok (client, [])) : result = .ok [] := by
  cases result with
  | error f => cases h
  | ok messages =>
      cases h
      rfl

section Dispatch
variable {ctx : Context} {s : XMPPStanza}
  (hauth : stanzaGetChildByNs (some s) "jabber:iq:auth".toList = none)
include hauth

theorem defined_of_id (hstubs : StubsParse ctx.expat ctx.primed) {id : Str}
    (hid : stanzaGetId (some s) = some id) : Defined ctx s := by
  constructor
  · exact callbacks_end (callback_ok_of_id hstubs hid hauth)
  · intro c hc hnull
    rcases (mem_dispatch s hauth).mp hc with ⟨i, _, rfl⟩ | ⟨query, _, rfl⟩ | ⟨xmlns, _, rfl⟩
    · exact hnull.elim
    · rw [NullId, hid] at hnull
      cases hnull
    · rw [NullId, hid] at hnull
      cases hnull

/-- The calls of a stanza to which neither of the two callbacks replies. -/
theorem callback_nothing (hid : stanzaGetId (some s) = none)
    (hquery : queryApplies ctx s = false) (hxmlns : xmlnsApplies ctx s = false) :
    ∀ c ∈ dispatch s s, callback ctx c = .ok (ctx.client, []) := by
  intro c hc
  rcases (mem_dispatch s hauth).mp hc with ⟨i, hi, rfl⟩ | ⟨query, hq, rfl⟩ | ⟨xmlns, hx, rfl⟩
  · rw [hid] at hi
    cases hi
  · rw [queryApplies, hq, Option.any_some, Bool.or_eq_false_iff, Bool.or_eq_false_iff] at hquery
    have hnone := Option.not_isSome_iff_eq_none.mp (Bool.eq_false_iff.mp hquery.1.1)
    have hitems := of_decide_eq_false hquery.1.2
    have hinfo := of_decide_eq_false hquery.2
    simp only [callback, queryCallback, hnone, hitems, hinfo, if_false]
    rfl
  · rw [xmlnsApplies, hx, Option.any_some] at hxmlns
    have hnone := Option.not_isSome_iff_eq_none.mp (Bool.eq_false_iff.mp hxmlns)
    simp only [callback, xmlnsCallback, hnone]
    rfl

/-- A reply that a callback would make needs the id. -/
theorem applies_of_defined (h : Defined ctx s) (hid : stanzaGetId (some s) = none) :
    queryApplies ctx s = false ∧ xmlnsApplies ctx s = false := by
  constructor
  · cases hq : stanzaGetQueryRequest s with
    | none => rw [queryApplies, hq, Option.any_none]
    | some query =>
        have hmem := (mem_dispatch s hauth).mpr (Or.inr (Or.inl ⟨query, hq, rfl⟩))
        have hlength := queryCallback_length ctx query _ [] (nothing_of_map (h.ids _ hmem hid))
        rw [queryApplies, hq, Option.any_some]
        exact Bool.toNat_eq_zero.mp hlength.symm
  · cases hx : stanzaGetXmlns s with
    | none => rw [xmlnsApplies, hx, Option.any_none]
    | some xmlns =>
        have hmem := (mem_dispatch s hauth).mpr (Or.inr (Or.inr ⟨xmlns, hx, rfl⟩))
        have hlength := xmlnsCallback_length ctx xmlns _ [] (nothing_of_map (h.ids _ hmem hid))
        rw [xmlnsApplies, hx, Option.any_some]
        exact Bool.toNat_eq_zero.mp hlength.symm

/-- Dispatch is defined for the stanzas with an id, and for those without one to which
the query and xmlns callbacks have nothing to reply. -/
theorem defined_iff (hstubs : StubsParse ctx.expat ctx.primed) :
    Defined ctx s ↔ (stanzaGetId (some s)).isSome ∨
      (queryApplies ctx s = false ∧ xmlnsApplies ctx s = false) := by
  cases hid : stanzaGetId (some s) with
  | some id =>
      constructor
      · exact fun _ => Or.inl rfl
      · exact fun _ => defined_of_id hauth hstubs hid
  | none =>
      constructor
      · exact fun h => Or.inr (applies_of_defined hauth h hid)
      · intro h
        obtain ⟨hquery, hxmlns⟩ := h.resolve_left (by simp)
        have hnothing := callback_nothing hauth hid hquery hxmlns
        constructor
        · exact callbacks_end fun c hc => ⟨[], hnothing c hc⟩
        · exact fun c hc _ => hnothing c hc

end Dispatch

/-- A request for the roster, with these attributes. -/
def rosterRequest (attrs : List XMPPAttr) : XMPPStanza :=
  ⟨"iq".toList, attrs, [⟨"query".toList, [⟨"xmlns".toList, "jabber:iq:roster".toList⟩], [], none⟩],
    none⟩

/-- A stub for the roster, and nothing else. -/
def rosterStub : Context where
  expat := Expat.reference
  order := .insertion
  env := ⟨false, false, false⟩
  primed := ⟨none, some [],
    some [("jabber:iq:roster".toList, some ⟨"iq".toList, [], [], none⟩)], some []⟩
  client := xmppclientNew
  received := []

theorem wellStubbed_rosterStub : WellStubbed Expat.reference rosterStub.primed := by
  constructor
  · intro t ht e he
    cases ht
    cases he
  · intro t ht e he
    cases ht
    obtain rfl := List.mem_singleton.mp he
    exact ⟨_, rfl, rfl⟩
  · intro t ht e he
    cases ht
    cases he

theorem rosterRequest_defined : Defined rosterStub (rosterRequest [⟨"id".toList, "r1".toList⟩]) :=
  (defined_iff rfl wellStubbed_rosterStub.stubsParse).mpr (Or.inl rfl)

/-- Without an id the request ends in a copy of a null string. -/
theorem rosterRequest_not_defined :
    WellStubbed Expat.reference rosterStub.primed ∧
      callbacks rosterStub (dispatch (rosterRequest []) (rosterRequest [])) =
        ([], some .nullDereference) ∧
      ¬ Defined rosterStub (rosterRequest []) := by
  have hfault : callbacks rosterStub (dispatch (rosterRequest []) (rosterRequest [])) =
      ([], some .nullDereference) := rfl
  refine ⟨wellStubbed_rosterStub, hfault, ?_⟩
  intro h
  have hends := h.ends
  rw [hfault] at hends
  cases hends

end Stabber.NullIds
