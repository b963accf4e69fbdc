import Stabber.Authentication
import Stabber.ReplyIds

/-!
# The replies of the server's own as stanzas

The default replies and the answers to an authentication are what `stanza_to_string` writes
for some stanza, which is plain if the ids and addresses in it are.
-/

namespace Stabber.ReplyStanzas
open XmlDocument XmlReader XmlReading Stanza Stanzas StanzaRoundTrip Callbacks ReplyIds

mutual
def isPlain : XMPPStanza → Bool
  | ⟨name, attrs, children, content⟩ =>
      isName name && attrs.all (fun a => isName a.name && decide (PlainValue a.value)) &&
        decide (attrs.map XMPPAttr.name).Nodup &&
        content.all (fun t => t ≠ [] && decide (PlainText t) && children.isEmpty) &&
        arePlain children

def arePlain : List XMPPStanza → Bool
  | [] => true
  | c :: cs => isPlain c && arePlain cs
end

theorem arePlain_iff (cs : List XMPPStanza) : arePlain cs = true ↔ ∀ c ∈ cs, isPlain c = true := by
  induction cs with
  | nil => simp [arePlain]
  | cons c cs ih => simp [arePlain, ih]

theorem plain_of_test {s : XMPPStanza} (h : isPlain s = true) : Plain s := by
  induction s using XMPPStanza.induction with
  | mk name attrs children content ih =>
      simp only [isPlain, Bool.and_eq_true, List.all_eq_true, decide_eq_true_eq] at h
      obtain ⟨⟨⟨⟨hname, hattrs⟩, hdistinct⟩, hcontent⟩, hchildren⟩ := h
      refine .mk hname hattrs hdistinct ?_ ?_
      · intro t ht
        rw [ht] at hcontent
        simp only [Option.all_some, Bool.and_eq_true, decide_eq_true_eq] at hcontent
        exact ⟨hcontent.1.1, hcontent.1.2, List.isEmpty_iff.mp hcontent.2⟩
      · intro c hc
        exact ih c hc ((arePlain_iff children).mp hchildren c hc)

/-! ## The default replies -/

/-- A result for this id from this address, as the default replies have it. -/
def resultStanza (id from_jid : Str) (child : XMPPStanza) : XMPPStanza :=
  ⟨"iq".toList, resultAttrs id ++ [⟨"from".toList, from_jid⟩], [child], none⟩

theorem stanzaToString_resultStanza (id from_jid : Str) (child : XMPPStanza) :
    stanzaToString (resultStanza id from_jid child) =
      resultTag id from_jid ++ (stanzaToString child ++ "</iq>".toList) := by
  rw [resultTag, beforeFrom_eq]
  simp only [resultStanza, stanzaToString, childrenToString, closeWith, List.flatMap_append,
    List.flatMap_cons, List.flatMap_nil, List.append_nil, List.append_assoc, attrToString]
  rfl

theorem plain_resultStanza {id from_jid : Str} {child : XMPPStanza} (hid : PlainValue id)
    (hfrom : PlainValue from_jid) (hchild : Plain child) :
    Plain (resultStanza id from_jid child) := by
  refine .mk rfl ?_ ?_ (by simp) ?_
  · intro a ha
    rw [List.mem_append, List.mem_singleton] at ha
    rcases ha with ha | rfl
    · exact resultAttrs_plain hid a ha
    · exact ⟨rfl, hfrom⟩
  · change ["type".toList, "id".toList, "to".toList, "from".toList].Nodup
    decide
  · intro c hc
    rw [List.mem_singleton.mp hc]
    exact hchild

def queryStanza (ns : Str) (children : List XMPPStanza) : XMPPStanza :=
  ⟨"query".toList, [⟨"xmlns".toList, ns⟩], children, none⟩

def featureStanza (var : Str) : XMPPStanza := ⟨"feature".toList, [⟨"var".toList, var⟩], [], none⟩

def itemsChild (id : Str) : XMPPStanza :=
  queryStanza discoItemsNs
    (if some id = some "discoitemsreq_onconnect".toList then
      [⟨"item".toList, [⟨"jid".toList, "pubsub.localhost".toList⟩,
        ⟨"name".toList, "PubSub Service".toList⟩], [], none⟩]
    else [])

def infoChild (env : Env) : XMPPStanza :=
  queryStanza discoInfoNs
    (⟨"identity".toList, [⟨"category".toList, "server".toList⟩, ⟨"type".toList, "im".toList⟩,
        ⟨"name".toList, "Stabber".toList⟩], [], none⟩ ::
      ([discoInfoNs, discoItemsNs] ++
        (if env.disable_carbons then [] else ["urn:xmpp:carbons:2".toList]) ++
        (if env.disable_mam then [] else ["urn:xmpp:mam:2".toList]) ++
        (if env.disable_ping then [] else ["urn:xmpp:ping".toList])).map featureStanza)

theorem itemsChild_written (id : Str) :
    Plain (itemsChild id) ∧ stanzaToString (itemsChild id) = itemsQuery id := by
  unfold itemsChild itemsQuery
  split_ifs
  · exact ⟨plain_of_test (by decide +kernel), by decide +kernel⟩
  · exact ⟨plain_of_test (by decide +kernel), by decide +kernel⟩

theorem infoChild_written (env : Env) :
    Plain (infoChild env) ∧ stanzaToString (infoChild env) = infoQuery env := by
  have hall : ∀ carbons mam ping, isPlain (infoChild ⟨carbons, mam, ping⟩) = true ∧
      stanzaToString (infoChild ⟨carbons, mam, ping⟩) = infoQuery ⟨carbons, mam, ping⟩ := by
    decide +kernel
  rcases env with ⟨carbons, mam, ping⟩
  obtain ⟨hplain, htext⟩ := hall carbons mam ping
  exact ⟨plain_of_test hplain, htext⟩

theorem printed_none : printed none = "(null)".toList := rfl

theorem printed_some (id : Str) : printed (some id) = id := rfl

/-- A missing id is printed like any other. -/
theorem discoItems_printed (id : Option Str) (from_jid : Str) :
    discoItems id from_jid = discoItems (some (printed id)) from_jid := by
  cases id with
  | some id => rw [printed_some]
  | none =>
      have hother : ¬ some "(null)".toList = some "discoitemsreq_onconnect".toList := by decide
      have hnone : ¬ (none : Option Str) = some "discoitemsreq_onconnect".toList := by simp
      unfold discoItems
      rw [printed_none, if_neg hother, if_neg hnone, printed_some]

theorem discoInfo_printed (env : Env) (id : Option Str) (from_jid : Str) :
    discoInfo env id from_jid = discoInfo env (some (printed id)) from_jid := by
  unfold discoInfo
  rw [printed_some]

/-- The default replies are results with one child. -/
theorem discoItems_stanza (id : Option Str) (from_jid : Str) : discoItems id from_jid =
    stanzaToString (resultStanza (printed id) from_jid (itemsChild (printed id))) := by
  rw [discoItems_printed, discoItems_eq, stanzaToString_resultStanza, (itemsChild_written _).2]

theorem discoInfo_stanza (env : Env) (id : Option Str) (from_jid : Str) :
    discoInfo env id from_jid =
      stanzaToString (resultStanza (printed id) from_jid (infoChild env)) := by
  rw [discoInfo_printed, discoInfo_eq, stanzaToString_resultStanza, (infoChild_written _).2]

/-! ## The answers to an authentication -/

def emptyStanza (name : Str) : XMPPStanza := ⟨name, [], [], none⟩

theorem childrenToString_emptyStanzas (names : List Str) :
    childrenToString (names.map emptyStanza) =
      names.flatMap fun name => "<".toList ++ name ++ "/>".toList := by
  induction names with
  | nil => rfl
  | cons name names ih =>
      rw [List.map_cons, childrenToString, ih, List.flatMap_cons]
      simp only [emptyStanza, stanzaToString, List.flatMap_nil, List.append_nil]

/-- The result that asks for missing fields. -/
def fieldsStanza (id : Str) (names : List Str) : XMPPStanza :=
  ⟨"iq".toList, [⟨"type".toList, "result".toList⟩, ⟨"id".toList, id⟩],
    [queryStanza "jabber:iq:auth".toList (names.map emptyStanza)], none⟩

/-- A result or an error, and nothing else. -/
def verdictStanza (id type : Str) : XMPPStanza :=
  ⟨"iq".toList, [⟨"id".toList, id⟩, ⟨"type".toList, type⟩], [], none⟩

theorem stanzaToString_fieldsStanza (id : Str) {names : List Str} (hnames : names ≠ []) :
    stanzaToString (fieldsStanza id names) = Authentication.fieldsReply id names := by
  obtain ⟨name, more, rfl⟩ := List.exists_cons_of_ne_nil hnames
  have hchildren : stanzaToString (emptyStanza name) ++ childrenToString (more.map emptyStanza) =
      childrenToString ((name :: more).map emptyStanza) := rfl
  unfold Authentication.fieldsReply
  rw [← childrenToString_emptyStanzas]
  simp only [fieldsStanza, queryStanza, stanzaToString, childrenToString, List.map_cons, closeWith,
    List.flatMap_cons, List.flatMap_nil, List.append_nil, List.append_assoc, attrToString]
  rfl

theorem plain_fieldsStanza {id : Str} (hid : PlainValue id) {names : List Str}
    (hnames : ∀ n ∈ names, isName n = true) : Plain (fieldsStanza id names) := by
  have hresult : PlainValue "result".toList := by decide
  have hns : PlainValue "jabber:iq:auth".toList := by decide
  refine .mk rfl ?_ ?_ (by simp) ?_
  · rw [List.forall_mem_cons, List.forall_mem_singleton]
    exact ⟨⟨rfl, hresult⟩, rfl, hid⟩
  · change ["type".toList, "id".toList].Nodup
    decide
  · rw [List.forall_mem_singleton]
    refine .mk rfl ?_ (by decide) (by simp) ?_
    · rw [List.forall_mem_singleton]
      exact ⟨rfl, hns⟩
    · intro c hc
      obtain ⟨n, hn, rfl⟩ := List.mem_map.mp hc
      exact .mk (hnames n hn) (by simp) (by simp) (by simp) (by simp)

theorem plain_verdictStanza {id type : Str} (hid : PlainValue id) (htype : PlainValue type) :
    Plain (verdictStanza id type) := by
  refine .mk rfl ?_ ?_ (by simp) (by simp)
  · rw [List.forall_mem_cons, List.forall_mem_singleton]
    exact ⟨⟨rfl, hid⟩, rfl, htype⟩
  · change ["id".toList, "type".toList].Nodup
    decide

theorem stanzaToString_verdictStanza (id : Str) :
    stanzaToString (verdictStanza id "error".toList) = authfail (some id) ∧
      stanzaToString (verdictStanza id "result".toList) = authsuccess (some id) := by
  unfold authfail authsuccess verdictStanza
  simp only [stanzaToString, List.flatMap_cons, List.flatMap_nil, List.append_nil,
    List.append_assoc, attrToString, Option.getD_some]
  exact ⟨rfl, rfl⟩

/-- The id and the address of a stanza stand for themselves. -/
structure PlainHead (s : XMPPStanza) : Prop where
  id : ∀ i, stanzaGetId (some s) = some i → PlainValue i
  to_jid : ∀ jid, stanzaGetAttr s "to".toList = some jid → PlainValue jid

/-- Children and text leave the head alone. -/
theorem PlainHead.of_attrs {s t : XMPPStanza} (hs : PlainHead s) (h : t.attrs = s.attrs) :
    PlainHead t := by
  have hget : ∀ name, stanzaGetAttr t name = stanzaGetAttr s name := by
    intro name
    unfold stanzaGetAttr
    rw [h]
  constructor
  · intro i hi
    exact hs.id i ((hget _).symm.trans hi)
  · intro jid hjid
    exact hs.to_jid jid ((hget _).symm.trans hjid)

theorem plainValue_printed {id : Option Str} (hid : ∀ i, id = some i → PlainValue i) :
    PlainValue (printed id) := by
  cases id with
  | none => exact (by decide : PlainValue "(null)".toList)
  | some i => exact hid i rfl

theorem plainValue_getD {id : Option Str} (hid : ∀ i, id = some i → PlainValue i) :
    PlainValue (id.getD []) := by
  cases id with
  | none => exact (by decide : PlainValue [])
  | some i => exact hid i rfl

/-- The address is that of the first stored stanza with the id. -/
theorem plain_from_jid {received : List XMPPStanza} (hstore : ∀ s ∈ received, PlainHead s)
    (id : Option Str) :
    PlainValue ((stanzasGetToById (fun s => s) id received).getD "localhost".toList) := by
  cases hto : stanzasGetToById (fun s => s) id received with
  | none => exact (by decide : PlainValue "localhost".toList)
  | some jid =>
      obtain ⟨s, hs, hjid⟩ := Option.bind_eq_some_iff.mp hto
      exact (hstore s (List.mem_of_find?_eq_some hs)).to_jid jid hjid

end Stabber.ReplyStanzas
