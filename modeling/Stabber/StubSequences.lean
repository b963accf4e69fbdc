import Stabber.MalformedTexts
import Stabber.ReplyIds

/-!
# Stubs of several elements

A stub is kept as text and parsed as one document. What the client reads of the reply,
inside its open stream, is the first element of the stub alone.
-/

namespace Stabber.StubSequences
open XmlDocument XmlReader XmlReading XmlSoundness XmlAttributes Stanza StanzaParse
open StanzaRoundTrip MalformedTexts Verbatim Priming Callbacks StubReplies ReplyIds

/-! ## Forests with the tokens of one element -/

/-- Within an element the levels come back to zero only at its end. -/
theorem prefix_whole {n : Str} {as : List (Str × Str)} {ks : List Node} {us : List Token}
    (h : us <+: (Node.elem n as ks).tokens) (hne : us ≠ []) (hlevel : level us = 0) :
    us = (Node.elem n as ks).tokens := by
  cases us with
  | nil => exact (hne rfl).elim
  | cons u us =>
      rw [Node.tokens, List.cons_prefix_cons] at h
      obtain ⟨rfl, h⟩ := h
      rw [level_cons, Token.level] at hlevel
      rcases prefix_append_cases h with ⟨hinner, _⟩ | ⟨vs, rfl, hlast⟩
      · have hpos := level_prefix_forest ks hinner
        omega
      · rw [level_append, level_forestTokens] at hlevel
        rcases List.prefix_cons_iff.mp hlast with rfl | ⟨ws, rfl, hws⟩
        · rw [level_nil] at hlevel
          omega
        · rw [List.prefix_nil.mp hws, Node.tokens]

theorem length_of_forestTokens {n : Str} {as : List (Str × Str)} {ks ds : List Node}
    (h : forestTokens ds = (Node.elem n as ks).tokens) : ds.length = 1 := by
  cases ds with
  | nil => exact ((Node.elem n as ks).tokens_ne_nil h.symm).elim
  | cons d ds =>
      rw [forestTokens] at h
      have hpre : d.tokens <+: (Node.elem n as ks).tokens := ⟨forestTokens ds, h⟩
      have hwhole := prefix_whole hpre d.tokens_ne_nil d.level_tokens
      rw [hwhole] at h
      have hrest : forestTokens ds = [] := List.append_right_eq_self.mp h
      cases ds with
      | nil => rfl
      | cons e es =>
          rw [forestTokens, List.append_eq_nil_iff] at hrest
          exact (e.tokens_ne_nil hrest.1).elim

/-! ## What the client reads -/

/-- In an open stream, the messages are these elements one after another. -/
def ReadsInStream (messages : List Str) (ds : List Node) : Prop :=
  ∀ stream above, (⟨.content 0, stream :: above, true, false⟩ : Reader).feed messages.flatten =
    some (⟨.content 0, stream :: above, true, false⟩, forestTokens ds)

/-- The same name, children and content, whatever the attributes. -/
def SameBody : Node → Node → Prop
  | .elem n _ ks, .elem m _ ls => n = m ∧ ks = ls
  | _, _ => False

/-- The reply consists of as many elements, each with the body of its original. -/
def AllSent (result : Except Fault (List Str)) (ds : List Node) : Prop :=
  ∃ messages sent, result = .ok messages ∧ ReadsInStream messages sent ∧
    List.Forall₂ SameBody ds sent

theorem nodeOf_withId {n : Str} {as : List (Str × Str)} {ks : List Node}
    (h : nodeOf (stanza n as ks) = .elem n as ks) (id : Str) :
    nodeOf (stanza n (withId id as) ks) = .elem n (withId id as) ks := by
  rw [stanza, nodeOf] at h ⊢
  injection h with _ _ hkids
  rw [hkids, List.map_map]
  congr 1
  exact List.map_id _

section Reads
variable {text n : Str} {as : List (Str × Str)} {ks : List Node}
  (hdoc : Denotes text (.elem n as ks)) (hsafe : Safe (.elem n as ks)) {id : Str}
include hdoc hsafe

/-- The client reads a safe element, with whatever value the id stands for. -/
theorem reads_stanza (hid : AttText id) : ∃ w,
    ReadsInStream [stanzaToString (stanza n (withId id as) ks)] [.elem n (withId w as) ks] := by
  obtain ⟨hplain, hnode⟩ := plain_of_safe n as ks hsafe (sound_of_denotes hdoc)
  obtain ⟨front, tail, hnew, hopen, hclose⟩ := feed_idValue hplain
  obtain ⟨w, hvalue⟩ := feed_attText (t := ⟨n, front⟩) hid hnew
  refine ⟨w, fun stream above => ?_⟩
  have hread := hopen id (.content 0) false (stream :: above) true [] rfl (by simp)
  rw [hvalue, hclose] at hread
  rw [List.flatten_singleton, forestTokens, forestTokens, ← nodeOf_withId hnode w,
    ← List.append_nil (stanzaToString _), stanza_withId, stanza_withId]
  exact hread

/-- With an id that has no quote it is read only if the id stands for a value. -/
theorem attText_of_reads {ds : List Node} (hquote : '"' ∉ id)
    (h : ReadsInStream [stanzaToString (stanza n (withId id as) ks)] ds) : AttText id := by
  obtain ⟨hplain, -⟩ := plain_of_safe n as ks hsafe (sound_of_denotes hdoc)
  obtain ⟨front, tail, -, hopen, -⟩ := feed_idValue hplain
  have hread := h [] []
  rw [List.flatten_singleton, stanza_withId, ← List.append_nil (stanzaToString _)] at hread
  exact attText_of_feed hquote
    ((hopen id (.content 0) false [[]] true [] rfl (by simp)).symm.trans hread)

end Reads

/-- Of a stub that begins with a document, the reply is that document. -/
theorem reply_first (E : PrefixExpat) {text n : Str} {as : List (Str × Str)} {ks : List Node}
    (h : Denotes text (.elem n as ks)) (rest id : Str) :
    reply E.toExpat (text ++ rest) (some id) =
      .ok (stanzaToString (stanza n (withId id as) ks)) := by
  have hfill : some (fill (stanzaNew n as) ks) = some (stanza n as ks) :=
    (fill_stanzaNew n as ks).symm
  apply reply_of_parse
  rw [stanzaParse_after_document E h rest, hfill]

section Stub
variable (E : PrefixExpat) {order : KeyOrder} {primed : Primed} {name id text rest n : Str}
  {as : List (Str × Str)} {ks : List Node}
  (hfor : stubFor order primed name id = some (text ++ rest))
  (hdoc : Denotes text (.elem n as ks)) (hsafe : Safe (.elem n as ks))
include hfor hdoc

theorem idCallback_first : idCallback E.toExpat order primed name id =
    .ok [stanzaToString (stanza n (withId id as) ks)] := by
  rw [idCallback_of_stub E.toExpat hfor, reply_first E hdoc rest id]
  rfl

include hsafe

/-- One element is sent, so not more than one can be asked for. -/
theorem length_of_allSent {ds : List Node} (hquote : '"' ∉ id)
    (h : AllSent (idCallback E.toExpat order primed name id) ds) :
    ds.length = 1 ∧ AttText id := by
  obtain ⟨messages, sent, hmessages, hsent, hbody⟩ := h
  rw [idCallback_first E hfor hdoc] at hmessages
  cases hmessages
  have hid := attText_of_reads hdoc hsafe hquote hsent
  obtain ⟨w, hread⟩ := reads_stanza hdoc hsafe hid
  have htokens := (hsent [] []).symm.trans (hread [] [])
  rw [Option.some.injEq, Prod.mk.injEq, forestTokens, forestTokens, List.append_nil] at htokens
  rw [hbody.length_eq]
  exact ⟨length_of_forestTokens htokens.2, hid⟩

theorem allSent_alone (hid : AttText id) :
    AllSent (idCallback E.toExpat order primed name id) [.elem n as ks] := by
  obtain ⟨w, hread⟩ := reads_stanza hdoc hsafe hid
  exact ⟨_, _, idCallback_first E hfor hdoc, hread, .cons ⟨rfl, rfl⟩ .nil⟩

end Stub

/-- A stub of safe elements is sent as a whole if it is a single element and the id stands
for a value as it is. Only an id with a quote can do without that. -/
theorem allSent_iff (E : PrefixExpat) {order : KeyOrder} {primed : Primed} {name id : Str}
    {texts : List Str} {ds : List Node} (hdocs : List.Forall₂ Denotes texts ds)
    (hsafe : ∀ d ∈ ds, Safe d) (hne : ds ≠ [])
    (hfor : stubFor order primed name id = some texts.flatten) :
    (ds.length = 1 ∧ AttText id → AllSent (idCallback E.toExpat order primed name id) ds) ∧
      ('"' ∉ id → AllSent (idCallback E.toExpat order primed name id) ds →
        ds.length = 1 ∧ AttText id) := by
  cases hdocs with
  | nil => exact (hne rfl).elim
  | @cons text d texts ds hdoc hrest =>
      obtain ⟨n, as, ks, rfl⟩ := denotes_elem hdoc
      have hfirst := hsafe _ List.mem_cons_self
      rw [List.flatten_cons] at hfor
      constructor
      · rintro ⟨hlength, hid⟩
        have hnil : ds = [] := List.length_eq_zero_iff.mp (Nat.succ.inj hlength)
        rw [hnil]
        exact allSent_alone E hfor hdoc hfirst hid
      · exact length_of_allSent E hfor hdoc hfirst

def presence (from_jid show_text status : Str) : XMPPStanza :=
  ⟨"presence".toList, [⟨"to".toList, "stabber@localhost".toList⟩, ⟨"from".toList, from_jid⟩],
    [⟨"show".toList, [], [], some show_text⟩, ⟨"status".toList, [], [], some status⟩], none⟩

/-- The three presences that `stabbertest.c` primes as one stub. -/
def presences : List XMPPStanza :=
  [presence "buddy1@localhost/mobile".toList "dnd".toList "busy!".toList,
    presence "buddy1@localhost/laptop".toList "chat".toList "Talk to me!".toList,
    presence "buddy2@localhost/work".toList "away".toList "Out of office".toList]

theorem denotes_presences : List.Forall₂ Denotes (presences.map stanzaToString)
    (presences.map nodeOf) :=
  .cons ⟨⟨.outside false, [], true, false⟩, by decide +kernel, rfl⟩
    (.cons ⟨⟨.outside false, [], true, false⟩, by decide +kernel, rfl⟩
      (.cons ⟨⟨.outside false, [], true, false⟩, by decide +kernel, rfl⟩ .nil))

def profPresence : Str := "prof_presence_1".toList

def primedWith (stub : Str) : Primed := primeForId profPresence stub ⟨none, none, none, none⟩

theorem stubFor_primedWith (stub : Str) :
    stubFor .insertion (primedWith stub) "presence".toList profPresence = some stub := by
  rw [stubFor, primedWith, primeGetForId_primeForId]

theorem attText_profPresence : AttText profPresence := attText_of_plain (by decide)

/-- The first presence on its own is sent. -/
theorem presence_sent :
    AllSent (idCallback PrefixExpat.reference.toExpat .insertion
      (primedWith ((presences.take 1).map stanzaToString).flatten) "presence".toList profPresence)
      ((presences.take 1).map nodeOf) := by
  have hdocs := List.forall₂_take 1 denotes_presences
  have hsafe : ∀ d ∈ (presences.take 1).map nodeOf, Safe d := by
    intro d hd
    obtain rfl := List.mem_singleton.mp hd
    cases hdocs with
    | cons hdoc _ => exact safe_of_denotes rfl hdoc
  exact (allSent_iff PrefixExpat.reference hdocs hsafe (by simp [presences])
    (stubFor_primedWith _)).1 ⟨rfl, attText_profPresence⟩

/-- Of the three presences only the first is sent. -/
theorem presences_not_sent :
    (∃ out first, idCallback PrefixExpat.reference.toExpat .insertion
        (primedWith (presences.map stanzaToString).flatten) "presence".toList profPresence =
          .ok [out] ∧ ReadsInStream [out] [first]) ∧
      ¬ AllSent (idCallback PrefixExpat.reference.toExpat .insertion
        (primedWith (presences.map stanzaToString).flatten) "presence".toList profPresence)
        (presences.map nodeOf) := by
  have hfor := stubFor_primedWith (presences.map stanzaToString).flatten
  cases denotes_presences with
  | cons hdoc _ =>
      have hsafe : Safe (nodeOf (presence "buddy1@localhost/mobile".toList "dnd".toList
        "busy!".toList)) := safe_of_denotes rfl hdoc
      obtain ⟨w, hread⟩ := reads_stanza hdoc hsafe attText_profPresence
      refine ⟨⟨_, _, idCallback_first PrefixExpat.reference hfor hdoc, hread⟩, ?_⟩
      intro h
      have hlength := (length_of_allSent PrefixExpat.reference hfor hdoc hsafe
        (not_mem_of_attText attText_profPresence) h).1
      exact absurd hlength (by decide)

end Stabber.StubSequences
