import Stabber.Callbacks

/-!
# How many replies one stanza gets

The id, query and xmlns callbacks run one after the other on the same request,
and none of them knows whether another has replied. Each writes one message if it
has something to reply with.
-/

namespace Stabber.Replies
open XmlDocument XmlReader Stanza StanzaParse Priming StreamParser Callbacks

/-- There is a stub for the id, or for the name with the id. -/
def idApplies (ctx : Context) (s : XMPPStanza) : Bool :=
  (stanzaGetId (some s)).any fun id =>
    (primeGetForId ctx.order ctx.primed id).isSome ||
      (primeGetForId ctx.order ctx.primed (s.name ++ ":".toList ++ id)).isSome

/-- There is a stub for the namespace of the query child, or it is one of the two
with a default reply. -/
def queryApplies (ctx : Context) (s : XMPPStanza) : Bool :=
  (stanzaGetQueryRequest s).any fun query =>
    (primeGetForQuery ctx.primed query).isSome || query = discoItemsNs || query = discoInfoNs

/-- There is a stub for the namespace of the first child. -/
def xmlnsApplies (ctx : Context) (s : XMPPStanza) : Bool :=
  (stanzaGetXmlns s).any fun xmlns => (primeGetForXmlns ctx.primed xmlns).isSome

def applying (ctx : Context) (s : XMPPStanza) : ℕ :=
  (idApplies ctx s).toNat + (queryApplies ctx s).toNat + (xmlnsApplies ctx s).toNat

/-- At most `n` messages, and exactly `n` unless a fault ends the callbacks. -/
structure Counted (written : List Str × Option Fault) (n : ℕ) : Prop where
  atMost : written.1.length ≤ n
  exact : written.2 = none → written.1.length = n

theorem counted_nil (ctx : Context) : Counted (callbacks ctx []) 0 := ⟨Nat.le_refl 0, fun _ => rfl⟩

/-- A call that leaves the client alone comes first. -/
theorem Counted.cons {ctx : Context} {call : Call XMPPStanza} {calls : List (Call XMPPStanza)}
    {result : Except Fault (List Str)} {m n : ℕ}
    (hcall : callback ctx call = result.map (ctx.client, ·))
    (hm : ∀ messages, result = .ok messages → messages.length = m)
    (hn : Counted (callbacks ctx calls) n) : Counted (callbacks ctx (call :: calls)) (m + n) := by
  rw [callbacks, hcall]
  cases result with
  | error fault =>
      constructor
      · exact Nat.zero_le _
      · intro h
        cases h
  | ok messages =>
      have hlen := hm messages rfl
      constructor
      · change (messages ++ (callbacks ctx calls).1).length ≤ m + n
        rw [List.length_append, hlen]
        exact Nat.add_le_add_left hn.atMost m
      · intro h
        change (messages ++ (callbacks ctx calls).1).length = m + n
        rw [List.length_append, hlen, hn.exact h]

theorem reply_length {E : Expat} {stub : Str} {id : Option Str} {messages : List Str}
    (h : (do return [← reply E stub id] : Except Fault (List Str)) = .ok messages) :
    messages.length = 1 := by
  cases hreply : reply E stub id with
  | error fault =>
      rw [hreply] at h
      cases h
  | ok message =>
      rw [hreply] at h
      cases h
      rfl

variable (ctx : Context)

theorem idCallback_length (name id : Str) (messages : List Str)
    (h : idCallback ctx.expat ctx.order ctx.primed name id = .ok messages) :
    messages.length = ((primeGetForId ctx.order ctx.primed id).isSome ||
      (primeGetForId ctx.order ctx.primed (name ++ ":".toList ++ id)).isSome).toNat := by
  unfold idCallback at h
  cases hid : primeGetForId ctx.order ctx.primed id with
  | some stream =>
      rw [hid] at h
      exact reply_length h
  | none =>
      rw [hid] at h
      cases hname : primeGetForId ctx.order ctx.primed (name ++ ":".toList ++ id) with
      | some stream =>
          simp only [hname] at h
          exact reply_length h
      | none =>
          simp only [hname] at h
          cases h
          rfl

theorem queryCallback_length (query : Str) (id : Option Str) (messages : List Str)
    (h : queryCallback ctx.expat ctx.env ctx.primed ctx.received query id = .ok messages) :
    messages.length = ((primeGetForQuery ctx.primed query).isSome || query = discoItemsNs ||
      query = discoInfoNs).toNat := by
  unfold queryCallback at h
  cases hstub : primeGetForQuery ctx.primed query with
  | some stub =>
      rw [hstub] at h
      exact reply_length h
  | none =>
      rw [hstub] at h
      dsimp only at h
      split_ifs at h with hitems hinfo
      · cases h
        simp [hitems]
      · cases h
        simp [hinfo]
      · cases h
        simp [hitems, hinfo]

theorem xmlnsCallback_length (xmlns : Str) (id : Option Str) (messages : List Str)
    (h : xmlnsCallback ctx.expat ctx.primed xmlns id = .ok messages) :
    messages.length = (primeGetForXmlns ctx.primed xmlns).isSome.toNat := by
  unfold xmlnsCallback at h
  cases hstub : primeGetForXmlns ctx.primed xmlns with
  | some stub =>
      rw [hstub] at h
      exact reply_length h
  | none =>
      rw [hstub] at h
      cases h
      rfl

/-- A call that is made only when there is something to call it with. -/
theorem Counted.optional {ctx : Context} {calls : List (Call XMPPStanza)} {n : ℕ}
    (argument : Option Str) {call : Str → Call XMPPStanza} {result : Str → Except Fault (List Str)}
    {applies : Str → Bool} (hcall : ∀ x, callback ctx (call x) = (result x).map (ctx.client, ·))
    (hlen : ∀ x messages, result x = .ok messages → messages.length = (applies x).toNat)
    (hn : Counted (callbacks ctx calls) n) :
    Counted (callbacks ctx ((argument.map call).toList ++ calls))
      ((argument.any applies).toNat + n) := by
  cases argument with
  | none =>
      change Counted (callbacks ctx calls) (0 + n)
      rw [Nat.zero_add]
      exact hn
  | some x => exact Counted.cons (hcall x) (hlen x) hn

/-- Each of the three callbacks writes one reply if it applies, and they do not
exclude each other. -/
theorem callbacks_counted (s : XMPPStanza)
    (hauth : stanzaGetChildByNs (some s) "jabber:iq:auth".toList = none) :
    Counted (callbacks ctx (dispatch s s)) (applying ctx s) := by
  rw [dispatch_of_not_auth s hauth, applying, List.append_assoc, Nat.add_assoc]
  apply Counted.optional _ (fun _ => rfl) (idCallback_length ctx s.name)
  apply Counted.optional _ (fun _ => rfl) fun x => queryCallback_length ctx x _
  have hxmlns : Counted (callbacks ctx
      (((stanzaGetXmlns s).map (.xmlns · (stanzaGetId (some s)))).toList ++ []))
      ((xmlnsApplies ctx s).toNat + 0) :=
    Counted.optional _ (fun _ => rfl) (fun x => xmlnsCallback_length ctx x _) (counted_nil ctx)
  rw [List.append_nil] at hxmlns
  exact hxmlns

theorem applying_le (s : XMPPStanza) : applying ctx s ≤ 3 := by
  have hid := Bool.toNat_le (idApplies ctx s)
  have hquery := Bool.toNat_le (queryApplies ctx s)
  have hxmlns := Bool.toNat_le (xmlnsApplies ctx s)
  unfold applying
  omega

/-- A service discovery request with a stub for its id. -/
def discoRequest : XMPPStanza :=
  ⟨"iq".toList, [⟨"id".toList, "1".toList⟩, ⟨"type".toList, "get".toList⟩],
    [⟨"query".toList, [⟨"xmlns".toList, discoInfoNs⟩], [], none⟩], none⟩

def stubbedId : Context where
  expat := Expat.reference
  order := KeyOrder.insertion
  env := ⟨false, false, false⟩
  primed := primeForId "1".toList "<iq/>".toList ⟨none, none, none, none⟩
  client := xmppclientNew
  received := [discoRequest]

end Stabber.Replies
