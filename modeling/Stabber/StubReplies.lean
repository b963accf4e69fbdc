import Stabber.Callbacks
import Stabber.Verbatim

/-!
# What a stub becomes on its way out

An id stub is parsed, given the id of the request and written; a query or xmlns
stub is parsed when it is primed, and written and parsed once more before that.
Each pass copies characters verbatim, so a stub keeps its meaning exactly as long
as its document is safe.
-/

namespace Stabber.StubReplies
open XmlDocument XmlReader XmlReading XmlCost XmlSoundness Stanza StanzaParse StanzaRoundTrip
open Verbatim Priming Callbacks

/-! ## The id of the root -/

/-- `setId` on the attributes of a document. -/
def withId (id : Str) : List (Str × Str) → List (Str × Str)
  | [] => [("id".toList, id)]
  | a :: as => if a.1 = "id".toList then (a.1, id) :: as else a :: withId id as

theorem setId_eq (id : Str) (as : List (Str × Str)) :
    setId id (as.map fun a => ⟨a.1, a.2⟩) = (withId id as).map fun a => ⟨a.1, a.2⟩ := by
  induction as with
  | nil => rfl
  | cons a as ih =>
      rw [List.map_cons, setId, withId]
      split_ifs with h
      · rfl
      · rw [ih, List.map_cons]

theorem withId_names (id : Str) (as : List (Str × Str)) :
    (withId id as).map Prod.fst = as.map Prod.fst ∨
      "id".toList ∉ as.map Prod.fst ∧
        (withId id as).map Prod.fst = as.map Prod.fst ++ ["id".toList] := by
  induction as with
  | nil => exact Or.inr ⟨by simp, rfl⟩
  | cons a as ih =>
      rw [withId]
      split_ifs with h
      · exact Or.inl rfl
      · rcases ih with heq | ⟨hnew, heq⟩
        · exact Or.inl (by rw [List.map_cons, heq, List.map_cons])
        · refine Or.inr ⟨?_, by rw [List.map_cons, heq, List.map_cons, List.cons_append]⟩
          rw [List.map_cons, List.mem_cons, not_or]
          exact ⟨fun heq => h heq.symm, hnew⟩

theorem sound_withId (id : Str) {n : Str} {as : List (Str × Str)} {ks : List Node}
    (h : ∀ t ∈ (Node.elem n as ks).tokens, SoundToken t) :
    ∀ t ∈ (Node.elem n (withId id as) ks).tokens, SoundToken t := by
  have htag : SoundTag ⟨n, as⟩ := h (.start n as) List.mem_cons_self
  have hnames : ∀ a ∈ withId id as, a.1 ∈ (withId id as).map Prod.fst := fun a ha =>
    List.mem_map_of_mem ha
  have hold : ∀ x ∈ as.map Prod.fst, isName x = true := by
    intro x hx
    obtain ⟨a, ha, rfl⟩ := List.mem_map.mp hx
    exact htag.attrs a ha
  have hnew : SoundTag ⟨n, withId id as⟩ := by
    constructor
    · exact htag.name
    · intro a ha
      have hmem := hnames a ha
      rcases withId_names id as with heq | ⟨_, heq⟩
      · rw [heq] at hmem
        exact hold a.1 hmem
      · rw [heq, List.mem_append, List.mem_singleton] at hmem
        rcases hmem with hmem | hmem
        · exact hold a.1 hmem
        · rw [hmem]
          rfl
    · rcases withId_names id as with heq | ⟨hfresh, heq⟩
      · change ((withId id as).map Prod.fst).Nodup
        rw [heq]
        exact htag.distinct
      · change ((withId id as).map Prod.fst).Nodup
        rw [heq, List.nodup_append_comm]
        exact List.nodup_cons.mpr ⟨hfresh, htag.distinct⟩
  intro t ht
  rcases List.mem_cons.mp ht with rfl | ht
  · exact hnew
  · exact h t (List.mem_cons_of_mem _ ht)

theorem plain_withId {id : Str} (hid : PlainValue id) {as : List (Str × Str)}
    (hdistinct : (as.map Prod.fst).Nodup) :
    (∀ a ∈ withId id as, PlainValue a.2) ↔ ∀ a ∈ as, a.1 ≠ "id".toList → PlainValue a.2 := by
  induction as with
  | nil => simpa [withId] using hid
  | cons b as ih =>
      rw [List.map_cons, List.nodup_cons] at hdistinct
      rw [withId]
      split_ifs with h
      · have hothers : ∀ a ∈ as, a.1 ≠ "id".toList := by
          intro a ha heq
          exact hdistinct.1 (h.trans heq.symm ▸ List.mem_map_of_mem ha)
        constructor
        · intro hall a ha hne
          rcases List.mem_cons.mp ha with rfl | ha
          · exact (hne h).elim
          · exact hall a (List.mem_cons_of_mem _ ha)
        · intro hall a ha
          rcases List.mem_cons.mp ha with rfl | ha
          · exact hid
          · exact hall a (List.mem_cons_of_mem _ ha) (hothers a ha)
      · rw [List.forall_mem_cons, List.forall_mem_cons, ih hdistinct.2]
        exact and_congr_left fun _ => ⟨fun hb _ => hb, fun hb => hb h⟩

theorem attrsCost_withId_le (id : Str) (as : List (Str × Str)) :
    attrsCost (withId id as) ≤ attrsCost as + textWeight id + 6 := by
  induction as with
  | nil =>
      have h : textWeight "id".toList = 2 := rfl
      simp only [withId, attrsCost_cons, attrsCost_nil, h]
      omega
  | cons a as ih =>
      rw [withId]
      split_ifs <;> simp only [attrsCost_cons] <;> omega

theorem withId_of_no_id {id : Str} {as : List (Str × Str)} (h : ∀ a ∈ as, a.1 ≠ "id".toList) :
    withId id as = as ++ [("id".toList, id)] := by
  induction as with
  | nil => rfl
  | cons a as ih =>
      rw [withId, if_neg (h a List.mem_cons_self), ih fun b hb => h b (List.mem_cons_of_mem a hb)]
      rfl

theorem nodeCost_attrs (n : Str) (as bs : List (Str × Str)) (ks : List Node) :
    nodeCost (.elem n bs ks) + attrsCost as = nodeCost (.elem n as ks) + attrsCost bs := by
  cases ks <;> simp only [nodeCost] <;> omega

/-! ## One pass -/

/-- The stanza of an element. -/
def stanza (n : Str) (as : List (Str × Str)) (ks : List Node) : XMPPStanza :=
  ⟨n, as.map fun a => ⟨a.1, a.2⟩, stanzasOf ks, contentOf ks⟩

theorem stanzaParse_stub (E : Expat) {stub n : Str} {as : List (Str × Str)} {ks : List Node}
    (h : Denotes stub (.elem n as ks)) : stanzaParse E stub = .ok (some (stanza n as ks)) := by
  have hfill : some (fill (stanzaNew n as) ks) = some (stanza n as ks) :=
    (fill_stanzaNew n as ks).symm
  rw [stanzaParse_document E h, hfill]

theorem reply_of_parse {E : Expat} {stub n : Str} {as : List (Str × Str)} {ks : List Node}
    (h : stanzaParse E stub = .ok (some (stanza n as ks))) (id : Str) :
    reply E stub (some id) = .ok (stanzaToString (stanza n (withId id as) ks)) := by
  rw [reply, h]
  change Except.ok (stanzaToString { stanza n as ks with attrs := setId id (stanza n as ks).attrs })
    = _
  rw [stanza, setId_eq]
  rfl

theorem stanza_withId (n id : Str) (as : List (Str × Str)) (ks : List Node) :
    stanza n (withId id as) ks =
      { stanza n as ks with attrs := setId id (stanza n as ks).attrs } := by
  simp only [stanza, setId_eq]

theorem reply_stub (E : Expat) {stub n : Str} {as : List (Str × Str)} {ks : List Node}
    (h : Denotes stub (.elem n as ks)) (id : Str) :
    reply E stub (some id) = .ok (stanzaToString (stanza n (withId id as) ks)) :=
  reply_of_parse (stanzaParse_stub E h) id

/-- Safe apart from the value of the root's id, which is replaced. -/
def SafeStub (as : List (Str × Str)) (ks : List Node) : Prop :=
  (∀ a ∈ as, a.1 ≠ "id".toList → PlainValue a.2) ∧ SafeContent ks

theorem safe_withId {id : Str} (hid : PlainValue id) (n : Str) {as : List (Str × Str)}
    {ks : List Node} (hdistinct : (as.map Prod.fst).Nodup) :
    Safe (.elem n (withId id as) ks) ↔ SafeStub as ks := by
  rw [Safe, plain_withId hid hdistinct, SafeStub, SafeContent]

/-! ## The three callbacks -/

/-- The stub that answers a request with this name and id. -/
def stubFor (order : KeyOrder) (primed : Primed) (name id : Str) : Option Str :=
  match primeGetForId order primed id with
  | some stream => some stream
  | none => primeGetForId order primed (name ++ ":".toList ++ id)

theorem entry_of_stubFor {order : KeyOrder} {primed : Primed} {name id stub : Str}
    (h : stubFor order primed name id = some stub) :
    ∃ t key, primed.idstubs = some t ∧ t.lookup key = some stub := by
  unfold stubFor at h
  split at h
  next stream hget =>
    cases h
    exact entry_of_primeGetForId hget
  next => exact entry_of_primeGetForId h

theorem idCallback_of_stub (E : Expat) {order : KeyOrder} {primed : Primed} {name id stub : Str}
    (h : stubFor order primed name id = some stub) :
    idCallback E order primed name id = do return [← reply E stub (some id)] := by
  unfold stubFor at h
  unfold idCallback
  cases hid : primeGetForId order primed id with
  | some stream =>
      rw [hid] at h
      rw [Option.some.inj h]
  | none =>
      simp only [hid] at h
      simp only [h]

/-- The callback writes one message, a text of this document. -/
def Writes (result : Except Fault (List Str)) (d : Node) : Prop :=
  ∃ out, result = .ok [out] ∧ Denotes out d

theorem writes_reply {E : Expat} {stub out : Str} {id : Option Str} (d : Node)
    (h : reply E stub id = .ok out) :
    Writes (do return [← reply E stub id]) d ↔ Denotes out d := by
  have hone : (do return [← reply E stub id] : Except Fault (List Str)) = .ok [out] := by
    rw [h]
    rfl
  unfold Writes
  rw [hone]
  constructor
  · intro hw
    obtain ⟨out', heq, hd⟩ := hw
    cases heq
    exact hd
  · intro hd
    exact ⟨out, rfl, hd⟩

open Classical in
/-- An Expat that reports nothing of a text that is no document. -/
noncomputable def Expat.strict : Expat where
  report text := if ∃ d, Denotes text d then Expat.reference.report text else []
  reports_document text d h := by
    rw [if_pos ⟨d, h⟩]
    exact Expat.reference.reports_document text d h

/-- What is parsed once more must be a document. -/
theorem denotes_of_writes {text : Str} {id : Option Str} {d : Node}
    (h : ∀ E, Writes (do return [← reply E text id]) d) :
    ∃ n as ks, Denotes text (.elem n as ks) := by
  obtain ⟨out, hout, _⟩ := h Expat.strict
  by_cases hd : ∃ d, Denotes text d
  · obtain ⟨d, hd⟩ := hd
    cases d with
    | elem n as ks => exact ⟨n, as, ks, hd⟩
    | char c =>
        have hfault : stanzaParse Expat.strict text = .error .nullDereference := by
          rw [stanzaParse, deliver_reports handleData_append _ (Expat.strict.reports_document _ _ hd)]
          rfl
        rw [reply, hfault] at hout
        cases hout
  · have hnothing : stanzaParse Expat.strict text = .ok none := by
      have hreport : Expat.strict.report text = [] := if_neg hd
      rw [stanzaParse, hreport]
      rfl
    rw [reply, hnothing] at hout
    cases hout

/-- Wherever the stub answers by id, the reply is the stub's document with the id
of the request on its root. -/
def IdKept (stub id : Str) (d : Node) : Prop :=
  ∀ E order primed name, stubFor order primed name id = some stub →
    Writes (idCallback E order primed name id) d

def QueryKept (stub id : Str) (d : Node) : Prop :=
  ∀ E env primed received query, stanzaParse E stub = .ok (primeGetForQuery primed query) →
    Writes (queryCallback E env primed received query (some id)) d

def XmlnsKept (stub id : Str) (d : Node) : Prop :=
  ∀ E primed xmlns, stanzaParse E stub = .ok (primeGetForXmlns primed xmlns) →
    Writes (xmlnsCallback E primed xmlns (some id)) d

theorem distinct_names {stub n : Str} {as : List (Str × Str)} {ks : List Node}
    (h : Denotes stub (.elem n as ks)) : (as.map Prod.fst).Nodup :=
  (sound_of_denotes h (.start n as) List.mem_cons_self : SoundTag ⟨n, as⟩).distinct

section Stub
variable {stub n : Str} {as : List (Str × Str)} {ks : List Node} {id : Str}
  (hstub : Denotes stub (.elem n as ks)) (hid : PlainValue id)
include hstub hid

theorem idKept_iff : IdKept stub id (.elem n (withId id as) ks) ↔ SafeStub as ks := by
  have hsound := sound_withId id (sound_of_denotes hstub)
  rw [← safe_withId hid n (distinct_names hstub), ← denotes_iff_safe hsound]
  constructor
  · intro h
    have hfor : stubFor .insertion (primeForId id stub ⟨none, none, none, none⟩) n id =
        some stub := by
      rw [stubFor, primeGetForId_primeForId]
    have hw := h Expat.reference _ _ n hfor
    rw [idCallback_of_stub _ hfor] at hw
    exact (writes_reply _ (reply_stub _ hstub id)).mp hw
  · intro hd E order primed name hfor
    rw [idCallback_of_stub E hfor]
    exact (writes_reply _ (reply_stub E hstub id)).mpr hd

/-- A safe stub survives being written and parsed once more. -/
theorem written_twice (E : Expat) (hsafe : Safe (.elem n as ks)) :
    Writes (do return [← reply E (stanzaToString (stanza n as ks)) (some id)])
      (.elem n (withId id as) ks) := by
  have hsound := sound_of_denotes hstub
  have hagain : Denotes (stanzaToString (stanza n as ks)) (.elem n as ks) :=
    (denotes_iff_safe hsound).mpr hsafe
  have hvalues := (plain_withId hid (distinct_names hstub)).mpr fun a ha _ => hsafe.1 a ha
  have hwith : Safe (.elem n (withId id as) ks) := ⟨hvalues, hsafe.2⟩
  exact (writes_reply _ (reply_stub E hagain id)).mpr
    ((denotes_iff_safe (sound_withId id hsound)).mpr hwith)

theorem queryKept_of_safe (hsafe : Safe (.elem n as ks)) :
    QueryKept stub id (.elem n (withId id as) ks) := by
  intro E env primed received query hparse
  rw [stanzaParse_stub E hstub] at hparse
  have hget : primeGetForQuery primed query = some (stanza n as ks) := (Except.ok.inj hparse).symm
  rw [queryCallback, hget]
  exact written_twice hstub hid E hsafe

theorem xmlnsKept_of_safe (hsafe : Safe (.elem n as ks)) :
    XmlnsKept stub id (.elem n (withId id as) ks) := by
  intro E primed xmlns hparse
  rw [stanzaParse_stub E hstub] at hparse
  have hget : primeGetForXmlns primed xmlns = some (stanza n as ks) := (Except.ok.inj hparse).symm
  rw [xmlnsCallback, hget]
  exact written_twice hstub hid E hsafe

/-- If some text of the stub with the new id comes back from the second pass, the
first pass lost nothing. -/
theorem safe_of_written_twice (hnone : ∀ a ∈ as, a.1 ≠ "id".toList)
    (hw : ∀ E, Writes (do return [← reply E (stanzaToString (stanza n as ks)) (some id)])
      (.elem n (withId id as) ks)) : Safe (.elem n as ks) := by
  obtain ⟨n₂, as₂, ks₂, hagain⟩ := denotes_of_writes hw
  have hout := (writes_reply _ (reply_stub Expat.reference hagain id)).mp (hw Expat.reference)
  -- the texts cannot be lighter than their documents nor heavier than their stanzas
  have hfirst := cost_le_of_denotes hagain
  have hsecond := cost_le_of_denotes hout
  have hwritten := written_le (.elem n as ks) (stanza n as ks) rfl
  have hrewritten := (written_le (.elem n₂ (withId id as₂) ks₂) (stanza n₂ (withId id as₂) ks₂)
    rfl).1
  have hold := nodeCost_attrs n as (withId id as) ks
  have hnew := nodeCost_attrs n₂ as₂ (withId id as₂) ks₂
  have hadded : attrsCost (withId id as) = attrsCost as + textWeight id + 6 := by
    have h : textWeight "id".toList = 2 := rfl
    rw [withId_of_no_id hnone, attrsCost_append, attrsCost_cons, attrsCost_nil]
    dsimp only
    omega
  have hatMost := attrsCost_withId_le id as₂
  rw [cost_tokens] at hfirst hsecond
  have hunmixed := hwritten.2 (by omega)
  have hplain := plain_of_denotes hout (by rw [cost_tokens]; omega)
  rw [← List.append_nil (Node.elem n (withId id as) ks).tokens] at hplain
  have hsafe := (safe_of_plainTokens n (withId id as) ks 0 [] hunmixed hplain).1
  rw [safe_withId hid n (distinct_names hstub)] at hsafe
  exact ⟨fun a ha => hsafe.1 a ha (hnone a ha), hsafe.2⟩

end Stub

theorem safe_of_queryKept {stub n : Str} {as : List (Str × Str)} {ks : List Node} {id : Str}
    (hstub : Denotes stub (.elem n as ks)) (hid : PlainValue id)
    (hnone : ∀ a ∈ as, a.1 ≠ "id".toList)
    (h : QueryKept stub id (.elem n (withId id as) ks)) : Safe (.elem n as ks) := by
  apply safe_of_written_twice hstub hid hnone
  intro E
  have hget : primeGetForQuery ⟨none, none, some [(n, some (stanza n as ks))], none⟩ n =
      some (stanza n as ks) := by
    simp [primeGetForQuery, Table.lookup]
  have hw := h E ⟨false, false, false⟩ _ [] n ((stanzaParse_stub E hstub).trans
    (congrArg Except.ok hget.symm))
  rw [queryCallback, hget] at hw
  exact hw

theorem safe_of_xmlnsKept {stub n : Str} {as : List (Str × Str)} {ks : List Node} {id : Str}
    (hstub : Denotes stub (.elem n as ks)) (hid : PlainValue id)
    (hnone : ∀ a ∈ as, a.1 ≠ "id".toList)
    (h : XmlnsKept stub id (.elem n (withId id as) ks)) : Safe (.elem n as ks) := by
  apply safe_of_written_twice hstub hid hnone
  intro E
  have hget : primeGetForXmlns ⟨none, none, none, some [(n, some (stanza n as ks))]⟩ n =
      some (stanza n as ks) := by
    simp [primeGetForXmlns, Table.lookup]
  have hw := h E _ n ((stanzaParse_stub E hstub).trans (congrArg Except.ok hget.symm))
  rw [xmlnsCallback, hget] at hw
  exact hw

/-- Exactly the safe stubs keep their meaning, and a stub for an id may have any id
of its own. -/
theorem stub_kept_iff_safe {stub n : Str} {as : List (Str × Str)} {ks : List Node} {id : Str}
    (hstub : Denotes stub (.elem n as ks)) (hid : PlainValue id) :
    (IdKept stub id (.elem n (withId id as) ks) ↔ SafeStub as ks) ∧
    (Safe (.elem n as ks) → QueryKept stub id (.elem n (withId id as) ks) ∧
      XmlnsKept stub id (.elem n (withId id as) ks)) ∧
    ((∀ a ∈ as, a.1 ≠ "id".toList) →
      (QueryKept stub id (.elem n (withId id as) ks) → Safe (.elem n as ks)) ∧
      (XmlnsKept stub id (.elem n (withId id as) ks) → Safe (.elem n as ks))) := by
  refine ⟨idKept_iff hstub hid, ?_, ?_⟩
  · intro hsafe
    exact ⟨queryKept_of_safe hstub hid hsafe, xmlnsKept_of_safe hstub hid hsafe⟩
  · intro hnone
    exact ⟨safe_of_queryKept hstub hid hnone, safe_of_xmlnsKept hstub hid hnone⟩

def rosterStub : Str :=
  "<iq type='result' from='stabber&#64;localhost'><query xmlns=\"jabber:iq:roster\">".toList ++
    "<item jid=\"b1@localhost\" name='Buddy &gt; 1'><group>Friends &gt; &#x42;uddies</group>".toList
      ++ "</item></query></iq>".toList

def rosterItem : Node :=
  .elem "item".toList [("jid".toList, "b1@localhost".toList), ("name".toList, "Buddy > 1".toList)]
    [.elem "group".toList [] ("Friends > Buddies".toList.map .char)]

def rosterQuery : Node :=
  .elem "query".toList [("xmlns".toList, "jabber:iq:roster".toList)] [rosterItem]

def rosterAttrs : List (Str × Str) :=
  [("type".toList, "result".toList), ("from".toList, "stabber@localhost".toList)]

theorem safeAll_chars (t : Str) : SafeAll (t.map .char) := by
  induction t with
  | nil => trivial
  | cons c t ih => exact ⟨trivial, ih⟩

theorem safe_rosterQuery : Safe rosterQuery := by
  have hgroup : Safe (.elem "group".toList [] ("Friends > Buddies".toList.map .char)) := by
    refine ⟨by simp, Or.inr (stanzasOf_chars _), ?_, safeAll_chars _⟩
    rw [textOf_chars]
    decide
  have hitem : Safe rosterItem := ⟨by decide, Or.inl rfl, plainText_nil, hgroup, trivial⟩
  exact ⟨by decide, Or.inl rfl, plainText_nil, hitem, trivial⟩

/-- A roster with references in its values and its text, by id, by query and by namespace. -/
theorem roster_stub_kept :
    IdKept rosterStub "1".toList
        (.elem "iq".toList (rosterAttrs ++ [("id".toList, "1".toList)]) [rosterQuery]) ∧
      QueryKept rosterStub "1".toList
        (.elem "iq".toList (rosterAttrs ++ [("id".toList, "1".toList)]) [rosterQuery]) ∧
      XmlnsKept rosterStub "1".toList
        (.elem "iq".toList (rosterAttrs ++ [("id".toList, "1".toList)]) [rosterQuery]) := by
  have hstub : Denotes rosterStub (.elem "iq".toList rosterAttrs [rosterQuery]) :=
    ⟨⟨.outside false, [], true, false⟩, by decide +kernel, by decide⟩
  have hid : PlainValue "1".toList := by decide
  have hattrs : ∀ a ∈ rosterAttrs, PlainValue a.2 := by decide
  have hsafe : SafeContent [rosterQuery] :=
    ⟨Or.inl rfl, plainText_nil, safe_rosterQuery, trivial⟩
  obtain ⟨hkept, hothers, -⟩ := stub_kept_iff_safe hstub hid
  exact ⟨hkept.mpr ⟨fun a ha _ => hattrs a ha, hsafe⟩, hothers ⟨hattrs, hsafe⟩⟩

/-- The reply to this stub is no XML at all. -/
theorem escaped_stub_broken :
    Denotes "<iq><b>1 &lt; 2</b></iq>".toList
        (.elem "iq".toList [] [.elem "b".toList [] ("1 < 2".toList.map .char)]) ∧
      idCallback Expat.reference .insertion
        (primeForId "1".toList "<iq><b>1 &lt; 2</b></iq>".toList ⟨none, none, none, none⟩)
        "iq".toList "1".toList = .ok ["<iq id=\"1\"><b>1 < 2</b></iq>".toList] ∧
      ¬ ∃ d, Denotes "<iq id=\"1\"><b>1 < 2</b></iq>".toList d := by
  refine ⟨⟨⟨.outside false, [], true, false⟩, by decide +kernel, by decide⟩, by decide +kernel, ?_⟩
  intro h
  obtain ⟨d, r, hfeed, _⟩ := h
  have hnone : Reader.init.feed "<iq id=\"1\"><b>1 < 2</b></iq>".toList = none := by
    decide +kernel
  rw [hnone] at hfeed
  cases hfeed

end Stabber.StubReplies
