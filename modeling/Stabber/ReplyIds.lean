import Stabber.Replies
import Stabber.StubReplies
import Stabber.XmlClosing

/-!
# The id of the replies

A reply has the id of the request spliced into it: as the value of an attribute of
the stub, or by a template that has the address of the request beside it. Neither is
escaped, so the id comes out as it went in just if it is plain.
-/

namespace Stabber.ReplyIds
open XmlDocument XmlReader XmlReading XmlNesting XmlTree XmlContext XmlCost XmlSoundness
  XmlAttributes XmlClosing Stanza Stanzas StanzaParse StanzaRoundTrip Verbatim StreamParser
  Priming Callbacks Replies StubReplies

/-- The text is an element whose root has one id attribute, with this value. -/
def CarriesId (out id : Str) : Prop :=
  ∃ n as ks, Denotes out (.elem n as ks) ∧
    as.filter (fun a => a.1 = "id".toList) = [("id".toList, id)]

theorem filter_of_distinct {as : List (Str × Str)} {k v : Str} (h : (as.map Prod.fst).Nodup)
    (hmem : (k, v) ∈ as) : as.filter (fun a => a.1 = k) = [(k, v)] := by
  induction as with
  | nil => cases hmem
  | cons a as ih =>
      rw [List.map_cons, List.nodup_cons] at h
      rcases List.mem_cons.mp hmem with rfl | hmem
      · have hnone : as.filter (fun a => a.1 = k) = [] := by
          rw [List.filter_eq_nil_iff]
          intro b hb heq
          exact h.1 (List.mem_map.mpr ⟨b, hb, by simpa using heq⟩)
        rw [List.filter_cons_of_pos (by simp), hnone]
      · have hne : a.1 ≠ k := by
          rintro rfl
          exact h.1 (List.mem_map.mpr ⟨_, hmem, rfl⟩)
        rw [List.filter_cons_of_neg (by simpa using hne), ih h.2 hmem]

theorem carriesId_of_mem {out id n : Str} {as : List (Str × Str)} {ks : List Node}
    (h : Denotes out (.elem n as ks)) (hmem : ("id".toList, id) ∈ as) : CarriesId out id :=
  ⟨n, as, ks, h, filter_of_distinct (distinct_names h) hmem⟩

theorem value_of_filter {as : List (Str × Str)} {id : Str}
    (h : as.filter (fun a => a.1 = "id".toList) = [("id".toList, id)]) :
    ∀ a ∈ as, a.1 = "id".toList → a.2 = id := by
  intro a ha hname
  have hmem : a ∈ as.filter (fun a => a.1 = "id".toList) := by
    rw [List.mem_filter]
    exact ⟨ha, by simpa using hname⟩
  rw [h, List.mem_singleton] at hmem
  rw [hmem]

mutual
/-- Content hides the children. -/
def written : XMPPStanza → XMPPStanza
  | ⟨name, attrs, _, some text⟩ => ⟨name, attrs, [], some text⟩
  | ⟨name, attrs, children, none⟩ => ⟨name, attrs, writtenAll children, none⟩

def writtenAll : List XMPPStanza → List XMPPStanza
  | [] => []
  | c :: cs => written c :: writtenAll cs
end

mutual
theorem stanzaToString_written : ∀ s : XMPPStanza,
    stanzaToString (written s) = stanzaToString s
  | ⟨name, attrs, _, some text⟩ => by simp only [written, stanzaToString]
  | ⟨name, attrs, [], none⟩ => by simp only [written, writtenAll]
  | ⟨name, attrs, c :: cs, none⟩ => by
      simp only [written, writtenAll, stanzaToString, stanzaToString_written c,
        childrenToString_written cs]

theorem childrenToString_written : ∀ cs : List XMPPStanza,
    childrenToString (writtenAll cs) = childrenToString cs
  | [] => rfl
  | c :: cs => by
      simp only [writtenAll, childrenToString, stanzaToString_written c,
        childrenToString_written cs]
end

theorem written_attrs (s : XMPPStanza) (attrs : List XMPPAttr) :
    written { s with attrs := attrs } = { written s with attrs := attrs } := by
  rcases s with ⟨name, old, children, _ | text⟩
  · rfl
  · rfl

theorem attrs_written (s : XMPPStanza) : (written s).attrs = s.attrs := by
  rcases s with ⟨name, attrs, children, _ | text⟩
  · rfl
  · rfl

/-- Every value and every text stands for itself. -/
inductive PlainCharacters : XMPPStanza → Prop
  | mk {name : Str} {attrs : List XMPPAttr} {children : List XMPPStanza} {content : Option Str} :
      (∀ a ∈ attrs, PlainValue a.value) → (∀ t, content = some t → PlainText t) →
      (∀ c ∈ children, PlainCharacters c) → PlainCharacters ⟨name, attrs, children, content⟩

theorem plainCharacters_of_plain {s : XMPPStanza} (h : Plain s) : PlainCharacters s := by
  induction h with
  | mk named values distinct text below ih =>
      exact .mk (fun a ha => (values a ha).2) (fun t ht => (text t ht).2.1) ih

mutual
/-- With plain characters, what is written of a document's stanza is plain. -/
theorem plain_written : ∀ (n : Str) (as : List (Str × Str)) (ks : List Node),
    (∀ t ∈ (Node.elem n as ks).tokens, SoundToken t) → PlainCharacters (stanza n as ks) →
      Plain (written (stanza n as ks))
  | n, as, ks, hsound, hplain => by
      have htag : SoundTag ⟨n, as⟩ := hsound (.start n as) List.mem_cons_self
      have hvalues : ∀ a ∈ as.map (fun a => (⟨a.1, a.2⟩ : XMPPAttr)),
          isName a.name = true ∧ PlainValue a.value := by
        rcases hplain with ⟨hvalues, -, -⟩
        intro a ha
        refine ⟨?_, hvalues a ha⟩
        obtain ⟨p, hp, rfl⟩ := List.mem_map.mp ha
        exact htag.attrs p hp
      have hdistinct : ((as.map fun a => (⟨a.1, a.2⟩ : XMPPAttr)).map XMPPAttr.name).Nodup := by
        rw [List.map_map]
        exact htag.distinct
      rcases hplain with ⟨-, htext, hbelow⟩
      rw [stanza]
      rcases hcontent : contentOf ks with _ | text
      · refine .mk htag.name hvalues hdistinct (by simp) ?_
        exact plain_writtenAll ks (fun t ht => hsound t
          (List.mem_cons_of_mem _ (List.mem_append_left _ ht))) hbelow
      · refine .mk htag.name hvalues hdistinct ?_ (by simp)
        intro t ht
        obtain rfl := Option.some.inj ht
        refine ⟨?_, htext text hcontent, rfl⟩
        rintro rfl
        rw [contentOf, addContent] at hcontent
        split_ifs at hcontent with hempty
        · simp only [Option.getD_none, List.nil_append, Option.some.injEq] at hcontent
          exact hempty hcontent

theorem plain_writtenAll : ∀ ks : List Node, (∀ t ∈ forestTokens ks, SoundToken t) →
    (∀ c ∈ stanzasOf ks, PlainCharacters c) → ∀ c ∈ writtenAll (stanzasOf ks), Plain c
  | [], _, _ => by simp [stanzasOf, writtenAll]
  | .char c :: ks, hsound, hplain =>
      plain_writtenAll ks (fun t ht => hsound t (List.mem_append_right _ ht)) hplain
  | .elem n as ls :: ks, hsound, hplain => by
      intro c hc
      change c ∈ written (stanza n as ls) :: writtenAll (stanzasOf ks) at hc
      rcases List.mem_cons.mp hc with rfl | hc
      · exact plain_written n as ls (fun t ht => hsound t (List.mem_append_left _ ht))
          (hplain _ List.mem_cons_self)
      · exact plain_writtenAll ks (fun t ht => hsound t (List.mem_append_right _ ht))
          (fun d hd => hplain d (List.mem_cons_of_mem _ hd)) c hc
end

/-- A document with plain characters. -/
def PlainStub (stub : Str) : Prop :=
  ∃ n as ks, Denotes stub (.elem n as ks) ∧ PlainCharacters (stanza n as ks)

/-- The parsed form of such a stub. -/
def PlainEntry (s : Option XMPPStanza) : Prop :=
  ∃ stub n as ks, Denotes stub (.elem n as ks) ∧ s = some (stanza n as ks) ∧
    PlainCharacters (stanza n as ks)

structure PlainPrimed (p : Primed) : Prop where
  ids : ∀ t, p.idstubs = some t → ∀ e ∈ t, PlainStub e.2
  queries : ∀ t, p.querystubs = some t → ∀ e ∈ t, PlainEntry e.2
  xmlns : ∀ t, p.xmlnsstubs = some t → ∀ e ∈ t, PlainEntry e.2

theorem plainPrimed_none (passwd : Option Str) : PlainPrimed ⟨passwd, none, none, none⟩ where
  ids := by simp
  queries := by simp
  xmlns := by simp

theorem plainPrimed_primeInit {p : Primed} (h : PlainPrimed p) : PlainPrimed (primeInit p) := by
  rw [primeInit]
  rcases p.idstubs with _ | t
  · exact ⟨by simp, by simp, by simp⟩
  · exact h

theorem mem_insert {α : Type} {t : Table α} {key : Str} {value : α} {e : Str × α}
    (h : e ∈ t.insert key value) : e ∈ t ∨ e.2 = value := by
  induction t with
  | nil =>
      rw [Table.insert, List.mem_singleton] at h
      exact Or.inr (congrArg Prod.snd h)
  | cons f t ih =>
      rw [Table.insert] at h
      split_ifs at h with hkey
      · rcases List.mem_cons.mp h with rfl | h
        · exact Or.inr rfl
        · exact Or.inl (List.mem_cons_of_mem _ h)
      · rcases List.mem_cons.mp h with rfl | h
        · exact Or.inl List.mem_cons_self
        · rcases ih h with h | h
          · exact Or.inl (List.mem_cons_of_mem _ h)
          · exact Or.inr h

/-- A table that gets one more entry of a kind. -/
theorem insert_entries {α : Type} {P : α → Prop} {table : Option (Table α)} {key : Str} {value : α}
    (h : ∀ t, table = some t → ∀ e ∈ t, P e.2) (hvalue : P value) :
    ∀ t, (table.map fun t => t.insert key value) = some t → ∀ e ∈ t, P e.2 := by
  intro t ht e he
  obtain ⟨u, hu, rfl⟩ := Option.map_eq_some_iff.mp ht
  rcases mem_insert he with he | he
  · exact h u hu e he
  · rw [he]
    exact hvalue

theorem plainEntry_of_parse {E : Expat} {stream : Str} (hstream : PlainStub stream)
    {s : Option XMPPStanza} (hs : stanzaParse E stream = .ok s) : PlainEntry s := by
  obtain ⟨n, as, ks, hd, hplain⟩ := hstream
  rw [stanzaParse_stub E hd] at hs
  exact ⟨stream, n, as, ks, hd, (Except.ok.inj hs).symm, hplain⟩

section Prime
variable {p p' : Primed} (h : PlainPrimed p) {stream : Str} (hstream : PlainStub stream)
include h

theorem plainPrimed_ready (b : Bool) : PlainPrimed (if b then primeInit p else p) := by
  split_ifs
  · exact plainPrimed_primeInit h
  · exact h

include hstream

theorem plainPrimed_primeForId (id : Str) : PlainPrimed (primeForId id stream p) := by
  have hready := plainPrimed_ready h p.idstubs.isNone
  exact ⟨insert_entries hready.ids hstream, hready.queries, hready.xmlns⟩

theorem plainPrimed_primeForQuery {E : Expat} (query : Str)
    (hp : primeForQuery E query stream p = .ok p') : PlainPrimed p' := by
  have hready := plainPrimed_ready h p.querystubs.isNone
  rw [primeForQuery] at hp
  rcases hs : stanzaParse E stream with fault | s
  · rw [hs] at hp
    cases hp
  · rw [hs] at hp
    obtain rfl := Except.ok.inj hp
    exact ⟨hready.ids, insert_entries hready.queries (plainEntry_of_parse hstream hs),
      hready.xmlns⟩

theorem plainPrimed_primeForXmlns {E : Expat} (xmlns : Str)
    (hp : primeForXmlns E xmlns stream p = .ok p') : PlainPrimed p' := by
  have hready := plainPrimed_ready h p.xmlnsstubs.isNone
  rw [primeForXmlns] at hp
  rcases hs : stanzaParse E stream with fault | s
  · rw [hs] at hp
    cases hp
  · rw [hs] at hp
    obtain rfl := Except.ok.inj hp
    exact ⟨hready.ids, hready.queries,
      insert_entries hready.xmlns (plainEntry_of_parse hstream hs)⟩

end Prime

/-- Written out, a parsed stub is a plain stub again. -/
theorem plainStub_of_entry {s : XMPPStanza} (h : PlainEntry (some s)) :
    PlainStub (stanzaToString s) := by
  obtain ⟨stub, n, as, ks, hd, hs, hplain⟩ := h
  obtain rfl := Option.some.inj hs
  have hwritten := plain_written n as ks (sound_of_denotes hd) hplain
  have hdenotes := denotes_stanzaToString hwritten
  have hof := stanzaOf_nodeOf hwritten
  rw [stanzaToString_written] at hdenotes
  rcases hw : written (stanza n as ks) with ⟨n', attrs, children, content⟩
  rw [hw] at hwritten hdenotes hof
  rw [nodeOf] at hdenotes hof
  refine ⟨_, _, _, hdenotes, ?_⟩
  have hsame : stanza n' (attrs.map attrPair)
      ((content.getD []).map .char ++ nodesOf children) = ⟨n', attrs, children, content⟩ :=
    Option.some.inj hof
  rw [hsame]
  exact plainCharacters_of_plain hwritten

/-- The reply to a plain stub is a plain stanza's text, but for the id. -/
theorem reply_of_plainStub (E : Expat) {stub : Str} (h : PlainStub stub) (id : Str) :
    ∃ p, Plain p ∧
      reply E stub (some id) = .ok (stanzaToString { p with attrs := setId id p.attrs }) := by
  obtain ⟨n, as, ks, hd, hplain⟩ := h
  refine ⟨_, plain_written n as ks (sound_of_denotes hd) hplain, ?_⟩
  rw [reply_stub E hd, stanza_withId, attrs_written, ← written_attrs, stanzaToString_written]

/-- The other attributes stay as they are. -/
theorem setId_split (attrs : List XMPPAttr) :
    ∃ front back, (∀ id, setId id attrs = front ++ ⟨"id".toList, id⟩ :: back) ∧ front <+: attrs ∧
      "id".toList ∉ front.map XMPPAttr.name := by
  induction attrs with
  | nil => exact ⟨[], [], fun _ => rfl, List.nil_prefix, by simp⟩
  | cons a as ih =>
      by_cases h : a.name = "id".toList
      · refine ⟨[], as, fun id => ?_, List.nil_prefix, by simp⟩
        rw [setId, if_pos h, h]
        rfl
      · obtain ⟨front, back, heq, hpre, hnew⟩ := ih
        refine ⟨a :: front, back, fun id => ?_, List.cons_prefix_cons.mpr ⟨rfl, hpre⟩, ?_⟩
        · rw [setId, if_neg h, heq]
          rfl
        · rw [List.map_cons, List.mem_cons, not_or]
          exact ⟨fun heq => h heq.symm, hnew⟩

theorem plain_setId {p : XMPPStanza} (hp : Plain p) {id : Str} (hid : PlainValue id) :
    Plain { p with attrs := setId id p.attrs } := by
  rcases hp with ⟨named, values, distinct, text, below⟩
  rename_i name attrs children content
  have hattrs : attrs = (attrs.map attrPair).map fun a => ⟨a.1, a.2⟩ := by
    rw [List.map_map, mk_comp_attrPair, List.map_id]
  have hdistinct : ((attrs.map attrPair).map Prod.fst).Nodup := by
    rw [List.map_map]
    exact distinct
  have hset : setId id attrs = (withId id (attrs.map attrPair)).map fun a => ⟨a.1, a.2⟩ := by
    rw [← setId_eq, ← hattrs]
  have hnames : (withId id (attrs.map attrPair)).map Prod.fst =
      (setId id attrs).map XMPPAttr.name := by
    rw [hset, List.map_map]
    rfl
  have hold : ∀ n ∈ (attrs.map attrPair).map Prod.fst, isName n = true := by
    intro n hn
    obtain ⟨b, hb, rfl⟩ := List.mem_map.mp hn
    obtain ⟨a, ha, rfl⟩ := List.mem_map.mp hb
    exact (values a ha).1
  have hvalues : ∀ a ∈ withId id (attrs.map attrPair), PlainValue a.2 := by
    refine (plain_withId hid hdistinct).mpr fun b hb _ => ?_
    obtain ⟨a, ha, rfl⟩ := List.mem_map.mp hb
    exact (values a ha).2
  refine .mk named ?_ ?_ text below
  · intro a ha
    constructor
    · have hmem : a.name ∈ (withId id (attrs.map attrPair)).map Prod.fst := by
        rw [hnames]
        exact List.mem_map_of_mem ha
      rcases withId_names id (attrs.map attrPair) with heq | ⟨-, heq⟩
      · rw [heq] at hmem
        exact hold a.name hmem
      · rw [heq, List.mem_append, List.mem_singleton] at hmem
        rcases hmem with hmem | hmem
        · exact hold a.name hmem
        · rw [hmem]
          rfl
    · rw [hset] at ha
      obtain ⟨b, hb, rfl⟩ := List.mem_map.mp ha
      exact hvalues b hb
  · change ((setId id attrs).map XMPPAttr.name).Nodup
    rw [← hnames]
    rcases withId_names id (attrs.map attrPair) with heq | ⟨hfresh, heq⟩
    · rw [heq]
      exact hdistinct
    · rw [heq, List.nodup_append_comm]
      exact List.nodup_cons.mpr ⟨hfresh, hdistinct⟩

/-- How a plain stanza is read up to the quote that opens the value of its id, and from the
quote that closes it. -/
theorem feed_idValue {p : XMPPStanza} (hp : Plain p) : ∃ front tail,
    "id".toList ∉ front.map Prod.fst ∧
    (∀ (id : Str) (m : Mode) (first : Bool) (st : List Str) (seen : Bool) (rest : Str),
      (⟨m, st, seen, false⟩ : Reader).lex '<' =
          (⟨m, st, seen, false⟩ : Reader).go (.opened first) →
        (st = [] → seen = false) →
        (⟨m, st, seen, false⟩ : Reader).feed
            (stanzaToString { p with attrs := setId id p.attrs } ++ rest) =
          (⟨.attrValue ⟨p.name, front⟩ "id".toList '"' [], st, seen, false⟩ : Reader).feed
            (id ++ '"' :: (tail ++ rest))) ∧
    ∀ (w : Str) (st : List Str) (seen : Bool) (rest : Str),
      (⟨.afterValue ⟨p.name, front ++ [("id".toList, w)]⟩, st, seen, false⟩ : Reader).feed
          (tail ++ rest) =
        ((⟨home st, st, true, false⟩ : Reader).feed rest).map fun q =>
          (q.1, (nodeOf { p with attrs := setId w p.attrs }).tokens ++ q.2) := by
  obtain ⟨front, back, hsplit, -, hnew⟩ := setId_split p.attrs
  have hset := plain_setId hp (by decide : PlainValue [])
  rcases p with ⟨name, attrs, children, content⟩
  rcases hset with ⟨named, values, distinct, text, below⟩
  change ∀ id, setId id attrs = _ at hsplit
  rw [hsplit] at values distinct
  obtain ⟨c, body, hc, hshape, hbody⟩ :=
    feed_body named text fun c hc => readsAs_of_plain (below c hc)
  have hfront : ∀ a ∈ front, isName a.name = true ∧ PlainValue a.value :=
    fun a ha => values a (List.mem_append_left _ ha)
  have hback : ∀ a ∈ back, isName a.name = true ∧ PlainValue a.value :=
    fun a ha => values a (List.mem_append_right _ (List.mem_cons_of_mem _ ha))
  refine ⟨front.map attrPair, back.flatMap attrToString ++ c :: body, ?_, ?_, ?_⟩
  · rw [List.map_map]
    exact hnew
  · intro id m first st seen rest hm hroot
    have htext : stanzaToString ⟨name, setId id attrs, children, content⟩ ++ rest =
        "<".toList ++ name ++ front.flatMap attrToString ++
          ' ' :: ("id".toList ++ "=\"".toList ++
            (id ++ '"' :: (back.flatMap attrToString ++ c :: body ++ rest))) := by
      rw [hshape, hsplit]
      simp [attrToString]
    change Reader.feed _ (stanzaToString ⟨name, setId id attrs, children, content⟩ ++ rest) = _
    have hdistinct : (front.map XMPPAttr.name).Nodup := by
      rw [List.map_append] at distinct
      exact (List.nodup_append.mp distinct).1
    rw [htext, feed_head _ hm hroot named hfront hdistinct (by decide)]
    exact feed_attrOpen _ rfl
  · intro w st seen rest
    have hdistinct : ((front.map attrPair ++ [("id".toList, w)]).map Prod.fst ++
        back.map XMPPAttr.name).Nodup := by
      have hsame : (front.map attrPair ++ [("id".toList, w)]).map Prod.fst ++
          back.map XMPPAttr.name = (front ++ ⟨"id".toList, []⟩ :: back).map XMPPAttr.name := by
        simp [attrPair]
      rw [hsame]
      exact distinct
    rw [List.append_assoc, feed_attrs name _ back _ hback hdistinct, hbody]
    have hnode : nodeOf ⟨name, setId w attrs, children, content⟩ =
        .elem name (front.map attrPair ++ [("id".toList, w)] ++ back.map attrPair)
          ((content.getD []).map .char ++ nodesOf children) := by
      rw [hsplit, nodeOf]
      simp [attrPair]
    rw [← hnode]

/-- After this much text the reader is at the beginning of an attribute's value. -/
def Reaches (front : Str) (t : Tag) (attr : Str) : Prop :=
  ∀ rest, Reader.init.feed (front ++ rest) =
    (⟨.attrValue t attr '"' [], [], false, false⟩ : Reader).feed rest

/-- Put there as it is, an id that comes back is plain. -/
theorem plainValue_of_carriesId {front rest id : Str} {t : Tag}
    (hfront : Reaches front t "id".toList) (ht : TidyTag t)
    (hnew : "id".toList ∉ t.attrs.map Prod.fst)
    (h : CarriesId (front ++ (id ++ '"' :: rest)) id) : PlainValue id := by
  obtain ⟨n, as, ks, ⟨r, hfeed, -⟩, hid⟩ := h
  rw [hfront, Node.tokens] at hfeed
  exact plainValue_of_attr rfl ht hnew hfeed (value_of_filter hid)

theorem outside_lt : (⟨.outside true, [], false, false⟩ : Reader).lex '<' =
    (⟨.outside true, [], false, false⟩ : Reader).go (.opened true) := rfl

theorem reaches_of_plain {name attr : Str} {front : List XMPPAttr} (named : isName name = true)
    (values : ∀ a ∈ front, isName a.name = true ∧ PlainValue a.value)
    (distinct : (front.map XMPPAttr.name).Nodup) (hattr : isName attr = true) :
    Reaches ("<".toList ++ name ++ front.flatMap attrToString ++
      (" ".toList ++ attr ++ "=\"".toList)) ⟨name, front.map attrPair⟩ attr := by
  intro rest
  have hshape : "<".toList ++ name ++ front.flatMap attrToString ++
      (" ".toList ++ attr ++ "=\"".toList) ++ rest =
        "<".toList ++ name ++ front.flatMap attrToString ++
          ' ' :: (attr ++ "=\"".toList ++ rest) := by
    simp
  rw [hshape, Reader.init,
    feed_head _ outside_lt (fun _ => rfl) named values distinct (by decide)]
  exact feed_attrOpen rest hattr

theorem stanzaToString_id (name id : Str) (front back : List XMPPAttr)
    (children : List XMPPStanza) (content : Option Str) : ∃ rest,
      stanzaToString ⟨name, front ++ ⟨"id".toList, id⟩ :: back, children, content⟩ =
        "<".toList ++ name ++ front.flatMap attrToString ++
          (" ".toList ++ "id".toList ++ "=\"".toList) ++ (id ++ '"' :: rest) := by
  have hattrs : ∀ close, "<".toList ++ name ++
      (front ++ ⟨"id".toList, id⟩ :: back).flatMap attrToString ++ close =
        "<".toList ++ name ++ front.flatMap attrToString ++
          (" ".toList ++ "id".toList ++ "=\"".toList) ++
          (id ++ '"' :: (back.flatMap attrToString ++ close)) := by
    intro close
    simp [attrToString]
  rcases content with _ | text
  · rcases children with _ | ⟨c, cs⟩
    · exact ⟨_, by rw [stanzaToString, hattrs]⟩
    · exact ⟨_, by rw [stanzaToString, hattrs]⟩
  · exact ⟨_, by rw [stanzaToString, hattrs]⟩

theorem carriesId_iff_plain {p : XMPPStanza} (hp : Plain p) (id : Str) :
    CarriesId (stanzaToString { p with attrs := setId id p.attrs }) id ↔ PlainValue id := by
  constructor
  · intro h
    rcases hp with ⟨named, values, distinct, -, -⟩
    rename_i name attrs children content
    obtain ⟨front, back, hsplit, hpre, hnew⟩ := setId_split attrs
    have heq := hsplit id
    have hname : isName "id".toList = true := rfl
    have hreaches := reaches_of_plain named (fun a ha => values a (hpre.subset ha))
      (distinct.sublist (hpre.sublist.map XMPPAttr.name)) hname
    obtain ⟨rest, hrest⟩ := stanzaToString_id name id front back children content
    change CarriesId (stanzaToString ⟨name, setId id attrs, children, content⟩) id at h
    rw [heq, hrest] at h
    refine plainValue_of_carriesId hreaches ?_ ?_ h
    · intro a ha
      obtain ⟨b, hb, rfl⟩ := List.mem_map.mp ha
      exact (values b (hpre.subset hb)).2
    · rw [List.map_map]
      exact hnew
  · intro hid
    have hplain := plain_setId hp hid
    have hdenotes := denotes_stanzaToString hplain
    obtain ⟨front, back, hsplit, -⟩ := setId_split p.attrs
    have heq := hsplit id
    rcases p with ⟨name, attrs, children, content⟩
    rw [nodeOf] at hdenotes
    apply carriesId_of_mem hdenotes
    have hmem : (⟨"id".toList, id⟩ : XMPPAttr) ∈ setId id attrs := by
      rw [heq]
      simp
    exact List.mem_map_of_mem (f := attrPair) hmem

/-! ## The default replies -/

def beforeId : Str := "<iq type=\"result\" id=\"".toList

def beforeFrom (id : Str) : Str :=
  beforeId ++ id ++ "\" to=\"stabber@localhost/profanity\" from=\"".toList

/-- The start tag of both templates. -/
def resultTag (id from_jid : Str) : Str := beforeFrom id ++ from_jid ++ "\">".toList

def itemsQuery (id : Str) : Str :=
  if some id = some "discoitemsreq_onconnect".toList then
    "<query xmlns=\"http://jabber.org/protocol/disco#items\">".toList ++
      "<item jid=\"pubsub.localhost\" name=\"PubSub Service\"/>".toList ++ "</query>".toList
  else "<query xmlns=\"http://jabber.org/protocol/disco#items\"/>".toList

def infoQuery (env : Env) : Str :=
  "<query xmlns=\"http://jabber.org/protocol/disco#info\">".toList ++
    "<identity category=\"server\" type=\"im\" name=\"Stabber\"/>".toList ++ featuresXml env ++
    "</query>".toList

theorem discoItems_eq (id from_jid : Str) :
    discoItems (some id) from_jid =
      resultTag id from_jid ++ (itemsQuery id ++ "</iq>".toList) :=
  List.append_assoc _ _ _

theorem append_query (tag query identity features close rest : Str) :
    tag ++ query ++ identity ++ features ++ close ++ rest =
      tag ++ (query ++ identity ++ features ++ close ++ rest) := by
  simp only [List.append_assoc]

theorem discoInfo_eq (env : Env) (id from_jid : Str) :
    discoInfo env (some id) from_jid =
      resultTag id from_jid ++ (infoQuery env ++ "</iq>".toList) :=
  append_query _ _ _ _ _ _

/-- The child of a default reply: an element that can be put in or left out. -/
structure FixedChild (q : Str) : Prop where
  document : ∃ d, Denotes q d
  undeclared : ¬ Declares q
  shape : ∃ c cs, q = '<' :: c :: cs ∧ isNameStart c = true
  plain : ∀ c ∈ q, c ∉ ending

/-- What has to be computed of it. -/
def isFixedChild (q : Str) : Bool :=
  "<q".toList.isPrefixOf q && q.all (fun c => c ∉ ending) &&
    (Reader.init.feed q).any fun p => p.1.complete

theorem fixedChild_of_test {q : Str} (h : isFixedChild q = true) : FixedChild q := by
  simp only [isFixedChild, Bool.and_eq_true, List.isPrefixOf_iff_prefix] at h
  obtain ⟨⟨⟨rest, hshape⟩, hplain⟩, hcomplete⟩ := h
  obtain ⟨⟨r, ts⟩, hfeed, hc⟩ := (Option.any_eq_true _ _).mp hcomplete
  obtain ⟨n, as, ks, -, hd⟩ := denotes_of_complete hfeed hc
  refine ⟨⟨_, hd⟩, ?_, ⟨'q', rest, hshape.symm, by decide⟩, ?_⟩
  · rintro ⟨c, more, -, heq⟩
    rw [← hshape] at heq
    cases heq
  · intro c hc
    have h := List.all_eq_true.mp hplain c hc
    exact of_decide_eq_true h

theorem fixedChild_itemsQuery (id : Str) : FixedChild (itemsQuery id) := by
  rw [itemsQuery]
  split_ifs
  · exact fixedChild_of_test (by decide +kernel)
  · exact fixedChild_of_test (by decide +kernel)

theorem fixedChild_infoQuery (env : Env) : FixedChild (infoQuery env) := by
  rcases env with ⟨carbons, mam, ping⟩
  have hall : ∀ carbons mam ping, isFixedChild (infoQuery ⟨carbons, mam, ping⟩) = true := by
    decide +kernel
  exact fixedChild_of_test (hall carbons mam ping)

theorem beforeId_eq : beforeId = "<".toList ++ "iq".toList ++
    [(⟨"type".toList, "result".toList⟩ : XMPPAttr)].flatMap attrToString ++
      (" ".toList ++ "id".toList ++ "=\"".toList) := by
  decide +kernel

theorem reaches_beforeId :
    Reaches beforeId ⟨"iq".toList, [("type".toList, "result".toList)]⟩ "id".toList := by
  rw [beforeId_eq]
  exact reaches_of_plain rfl (by decide) (by decide) rfl

/-- The attributes before the address. -/
def resultAttrs (id : Str) : List XMPPAttr :=
  [⟨"type".toList, "result".toList⟩, ⟨"id".toList, id⟩,
    ⟨"to".toList, "stabber@localhost/profanity".toList⟩]

theorem beforeFrom_eq (id : Str) : beforeFrom id = "<".toList ++ "iq".toList ++
    (resultAttrs id).flatMap attrToString ++
      (" ".toList ++ "from".toList ++ "=\"".toList) := by
  have hlast : "\" to=\"stabber@localhost/profanity\" from=\"".toList = "\"".toList ++
      attrToString ⟨"to".toList, "stabber@localhost/profanity".toList⟩ ++
        (" ".toList ++ "from".toList ++ "=\"".toList) := by
    decide +kernel
  rw [beforeFrom, hlast, beforeId_eq, resultAttrs]
  simp only [List.flatMap_cons, List.flatMap_nil, List.append_nil, List.append_assoc, attrToString]

theorem resultAttrs_plain {id : Str} (hid : PlainValue id) :
    ∀ a ∈ resultAttrs id, isName a.name = true ∧ PlainValue a.value := by
  have hresult : PlainValue "result".toList := by decide
  have hto : PlainValue "stabber@localhost/profanity".toList := by decide +kernel
  rw [resultAttrs, List.forall_mem_cons, List.forall_mem_cons, List.forall_mem_singleton]
  exact ⟨⟨rfl, hresult⟩, ⟨rfl, hid⟩, rfl, hto⟩

theorem feed_beforeFrom {id : Str} (hid : PlainValue id) : Reader.init.feed (beforeFrom id) =
    some (⟨.attrValue ⟨"iq".toList, (resultAttrs id).map attrPair⟩ "from".toList '"' [], [],
      false, false⟩, []) := by
  have hdistinct : ((resultAttrs id).map XMPPAttr.name).Nodup := by
    change ["type".toList, "id".toList, "to".toList].Nodup
    decide
  have hreaches := reaches_of_plain (rfl : isName "iq".toList = true) (resultAttrs_plain hid)
    hdistinct (rfl : isName "from".toList = true)
  have hfeed := hreaches []
  rw [List.append_nil, ← beforeFrom_eq] at hfeed
  exact hfeed

/-- The address leaves the start tag as well as it was: with the end tag it is an
element. -/
def Spliced (id from_jid : Str) : Prop := ∃ d, Denotes (resultTag id from_jid ++ "</iq>".toList) d

section Disco
variable {id from_jid : Str} (hid : PlainValue id) {r : Reader} {ts : List Token}
include hid

/-- Reading goes on in the start tag, or the start tag is the first token. -/
theorem continued_beforeFrom {rest : Str}
    (hfeed : Reader.init.feed (beforeFrom id ++ rest) = some (r, ts)) :
    Continued ⟨"iq".toList, (resultAttrs id).map attrPair⟩ r ts := by
  rw [feed_append _ (feed_beforeFrom hid), Option.map_eq_some_iff] at hfeed
  obtain ⟨⟨r', us⟩, hrest, heq⟩ := hfeed
  cases heq
  exact continued_feed rfl hrest

variable (hfeed : Reader.init.feed (resultTag id from_jid) = some (r, ts))
include hfeed

theorem root_resultTag : ∀ first, r.mode = .outside first → r.seen = true := by
  intro first hmode
  have hcontinued := hfeed
  rw [resultTag, List.append_assoc] at hcontinued
  rcases continued_beforeFrom hid hcontinued with ⟨t, ht, -, -⟩ | ⟨as, us, -⟩
  · rw [hmode] at ht
    cases ht
  · have hfits := (nested_feed nested_init hfeed).1.mode
    rw [hmode] at hfits
    have hnil : r.stack = [] := hfits
    rcases reading_init hfeed with _ | hopen | ⟨_, _, _, _, hseen⟩
    · exact (hopen.stack_ne_nil hnil).elim
    · exact hseen

end Disco

theorem append_quoted {quote quote' : Str} (h : quote = '"' :: quote') (front v back rest : Str) :
    front ++ v ++ quote ++ back ++ rest = front ++ (v ++ '"' :: (quote' ++ back ++ rest)) := by
  subst h
  simp

theorem resultTag_shape (id from_jid rest : Str) : ∃ more,
    resultTag id from_jid ++ rest = beforeId ++ (id ++ '"' :: more) := by
  have hquote : "\" to=\"stabber@localhost/profanity\" from=\"".toList =
      '"' :: " to=\"stabber@localhost/profanity\" from=\"".toList := by decide +kernel
  have hassoc : resultTag id from_jid ++ rest = beforeId ++ id ++
      "\" to=\"stabber@localhost/profanity\" from=\"".toList ++ from_jid ++
        ("\">".toList ++ rest) := List.append_assoc _ _ _
  exact ⟨_, hassoc.trans (append_quoted hquote _ _ _ _)⟩

theorem carriesId_disco (id from_jid : Str) {q : Str} (hq : FixedChild q) :
    CarriesId (resultTag id from_jid ++ (q ++ "</iq>".toList)) id ↔
      PlainValue id ∧ Spliced id from_jid := by
  obtain ⟨d, hd⟩ := hq.document
  obtain ⟨c, cs, hshape, hc⟩ := hq.shape
  have hname : isName "iq".toList = true := rfl
  have hending : ∀ c ∈ ['i', 'q'], c ∉ ending := by simp [ending]
  constructor
  · intro h
    have hid : PlainValue id := by
      obtain ⟨more, hmore⟩ := resultTag_shape id from_jid (q ++ "</iq>".toList)
      rw [hmore] at h
      have hresult : PlainValue "result".toList := by decide
      refine plainValue_of_carriesId reaches_beforeId ?_ (by decide) h
      rw [TidyTag, List.forall_mem_singleton]
      exact hresult
    refine ⟨hid, ?_⟩
    obtain ⟨n, as, ks, ⟨u, hu, hcomplete⟩, -⟩ := h
    obtain ⟨r, ts, us, hfeed, hrest, -⟩ := feed_of_feed_append hu
    obtain ⟨u', us', hend, hc'⟩ := complete_remove (nested_feed nested_init hfeed).1 hname hending
      hd hq.undeclared hshape hc hq.plain (root_resultTag hid hfeed) hrest hcomplete
    have hall : Reader.init.feed (resultTag id from_jid ++ "</iq>".toList) =
        some (u', ts ++ us') := by
      rw [feed_append _ hfeed]
      change (r.feed ("</".toList ++ "iq".toList ++ ">".toList)).map _ = _
      rw [hend]
      rfl
    obtain ⟨n, as, ks, -, hdoc⟩ := denotes_of_complete hall hc'
    exact ⟨_, hdoc⟩
  · intro h
    obtain ⟨hid, d', u, hu, hcomplete⟩ := h
    obtain ⟨r, ts, us, hfeed, hrest, -⟩ := feed_of_feed_append hu
    obtain ⟨u', us', hend, hc'⟩ := complete_insert (nested_feed nested_init hfeed).1 hname hending
      hd hq.undeclared hrest hcomplete
    have hall : Reader.init.feed (resultTag id from_jid ++ (q ++ "</iq>".toList)) =
        some (u', ts ++ us') := by
      rw [feed_append _ hfeed]
      change (r.feed (q ++ ("</".toList ++ "iq".toList ++ ">".toList))).map _ = _
      rw [hend]
      rfl
    obtain ⟨n, as, ks, htokens, hdoc⟩ := denotes_of_complete hall hc'
    apply carriesId_of_mem hdoc
    rw [resultTag, List.append_assoc, List.append_assoc, htokens, Node.tokens] at hall
    rcases continued_beforeFrom hid hall with _ | ⟨_, _, hpre⟩
    exact hpre.subset (by simp [resultAttrs, attrPair])

theorem resultTag_from (id from_jid rest : Str) : resultTag id from_jid ++ rest =
    beforeFrom id ++ (from_jid ++ '"' :: ('>' :: rest)) := by
  simp [resultTag]

section Address
variable {id from_jid : Str} (hid : PlainValue id)
include hid

/-- The address may be any text that stands for a value. -/
theorem spliced_of_attText (hfrom : AttText from_jid) : Spliced id from_jid := by
  have hnew : "from".toList ∉
      (⟨"iq".toList, (resultAttrs id).map attrPair⟩ : Tag).attrs.map Prod.fst := by
    change "from".toList ∉ ["type".toList, "id".toList, "to".toList]
    decide
  obtain ⟨w, hvalue⟩ := feed_attText hfrom hnew
  have hend : (⟨.content 0, ["iq".toList], true, false⟩ : Reader).feed "</iq>".toList = _ :=
    feed_rootEnd rfl rfl (rfl : isName "iq".toList = true)
  have hall := feed_append (from_jid ++ '"' :: ('>' :: "</iq>".toList)) (feed_beforeFrom hid)
  rw [← resultTag_from, hvalue, feed_startTag, hend] at hall
  obtain ⟨n, as, ks, -, hd⟩ := denotes_of_complete hall rfl
  exact ⟨_, hd⟩

/-- Without a quote, which would end the value, it may be no other. -/
theorem attText_of_spliced (hquote : '"' ∉ from_jid) (h : Spliced id from_jid) :
    AttText from_jid := by
  obtain ⟨d, r, hfeed, -⟩ := h
  rw [resultTag_from] at hfeed
  obtain ⟨vs, hrest, -⟩ := feed_rest (feed_beforeFrom hid) hfeed
  exact attText_of_feed hquote hrest

end Address

/-- The callback does not fail, and all its messages carry the id just if this holds. -/
def Carries (result : Except Fault (List Str)) (id : Str) (condition : Prop) : Prop :=
  ∃ messages, result = .ok messages ∧ ((∀ out ∈ messages, CarriesId out id) ↔ condition)

theorem carries_none (id : Str) {condition : Prop} (h : condition) :
    Carries (.ok []) id condition :=
  ⟨[], rfl, fun _ => h, fun _ => by simp⟩

theorem carries_one {out id : Str} {condition : Prop} (h : CarriesId out id ↔ condition) :
    Carries (.ok [out]) id condition := by
  refine ⟨[out], rfl, ?_⟩
  rw [List.forall_mem_singleton]
  exact h

theorem carries_reply (E : Expat) {stub : Str} (h : PlainStub stub) (id : Str) :
    Carries (do return [← reply E stub (some id)]) id (PlainValue id) := by
  obtain ⟨p, hp, hreply⟩ := reply_of_plainStub E h id
  rw [hreply]
  exact carries_one (carriesId_iff_plain hp id)

section Callbacks
variable {primed : Primed} (hprimed : PlainPrimed primed)
include hprimed

theorem plainStub_of_id {order : KeyOrder} {id stream : Str}
    (h : primeGetForId order primed id = some stream) : PlainStub stream := by
  obtain ⟨t, key, ht, hkey⟩ := entry_of_primeGetForId h
  obtain ⟨e, he, rfl⟩ := mem_of_lookup hkey
  exact hprimed.ids t ht e he

theorem plainStub_of_query {query : Str} {stub : XMPPStanza}
    (h : primeGetForQuery primed query = some stub) : PlainStub (stanzaToString stub) := by
  obtain ⟨t, ht, hlookup⟩ := Option.bind_eq_some_iff.mp (Option.join_eq_some_iff.mp h)
  obtain ⟨e, he, hvalue⟩ := mem_of_lookup hlookup
  have hentry := hprimed.queries t ht e he
  rw [hvalue] at hentry
  exact plainStub_of_entry hentry

theorem plainStub_of_xmlns {xmlns : Str} {stub : XMPPStanza}
    (h : primeGetForXmlns primed xmlns = some stub) : PlainStub (stanzaToString stub) := by
  obtain ⟨t, ht, hlookup⟩ := Option.bind_eq_some_iff.mp (Option.join_eq_some_iff.mp h)
  obtain ⟨e, he, hvalue⟩ := mem_of_lookup hlookup
  have hentry := hprimed.xmlns t ht e he
  rw [hvalue] at hentry
  exact plainStub_of_entry hentry

theorem carries_idCallback (E : Expat) (order : KeyOrder) (name id : Str) :
    Carries (idCallback E order primed name id) id
      ((primeGetForId order primed id).isSome ||
        (primeGetForId order primed (name ++ ":".toList ++ id)).isSome → PlainValue id) := by
  rw [idCallback]
  rcases hid : primeGetForId order primed id with _ | stream
  · rcases hname : primeGetForId order primed (name ++ ":".toList ++ id) with _ | stream
    · exact carries_none id (by simp)
    · have h := carries_reply E (plainStub_of_id hprimed hname) id
      simpa using h
  · have h := carries_reply E (plainStub_of_id hprimed hid) id
    simpa using h

/-- The address that a default reply is from. -/
def address (received : List XMPPStanza) (id : Str) : Str :=
  (stanzasGetToById (fun s => s) (some id) received).getD "localhost".toList

def isDisco (query : Str) : Bool := query = discoItemsNs || query = discoInfoNs

theorem carries_queryCallback (E : Expat) (env : Env) (received : List XMPPStanza)
    (query id : Str) :
    Carries (queryCallback E env primed received query (some id)) id
      (((primeGetForQuery primed query).isSome || isDisco query → PlainValue id) ∧
        ((primeGetForQuery primed query).isNone && isDisco query →
          Spliced id (address received id))) := by
  rw [queryCallback]
  rcases hstub : primeGetForQuery primed query with _ | stub
  · have hcondition : PlainValue id ∧ Spliced id (address received id) ↔
        ((none : Option XMPPStanza).isSome || true → PlainValue id) ∧
          ((none : Option XMPPStanza).isNone && true → Spliced id (address received id)) := by
      simp
    dsimp only
    by_cases hitems : query = discoItemsNs
    · have hdisco : isDisco query = true := by
        rw [isDisco, decide_eq_true hitems, Bool.true_or]
      rw [if_pos hitems, hdisco, discoItems_eq]
      exact carries_one ((carriesId_disco id _ (fixedChild_itemsQuery id)).trans hcondition)
    rw [if_neg hitems]
    by_cases hinfo : query = discoInfoNs
    · have hdisco : isDisco query = true := by
        rw [isDisco, decide_eq_true hinfo, Bool.or_true]
      rw [if_pos hinfo, hdisco, discoInfo_eq]
      exact carries_one ((carriesId_disco id _ (fixedChild_infoQuery env)).trans hcondition)
    · have hdisco : isDisco query = false := by
        rw [isDisco, decide_eq_false hitems, decide_eq_false hinfo, Bool.or_false]
      rw [if_neg hinfo, hdisco]
      exact carries_none id (by simp)
  · have h := carries_reply E (plainStub_of_query hprimed hstub) id
    simpa using h

theorem carries_xmlnsCallback (E : Expat) (xmlns id : Str) :
    Carries (xmlnsCallback E primed xmlns (some id)) id
      ((primeGetForXmlns primed xmlns).isSome → PlainValue id) := by
  rw [xmlnsCallback]
  rcases hstub : primeGetForXmlns primed xmlns with _ | stub
  · exact carries_none id (by simp)
  · have h := carries_reply E (plainStub_of_xmlns hprimed hstub) id
    simpa using h

end Callbacks

/-- Nothing fails, and all messages carry the id just if this holds. -/
structure Carried (written : List Str × Option Fault) (id : Str) (condition : Prop) : Prop where
  sound : written.2 = none
  all : (∀ out ∈ written.1, CarriesId out id) ↔ condition

theorem carried_nil (ctx : Context) (id : Str) : Carried (callbacks ctx []) id True :=
  ⟨rfl, by simp [callbacks]⟩

theorem Carried.cons {ctx : Context} {call : Call XMPPStanza} {calls : List (Call XMPPStanza)}
    {result : Except Fault (List Str)} {id : Str} {P Q : Prop}
    (hcall : callback ctx call = result.map (ctx.client, ·)) (hresult : Carries result id P)
    (hrest : Carried (callbacks ctx calls) id Q) :
    Carried (callbacks ctx (call :: calls)) id (P ∧ Q) := by
  obtain ⟨messages, hmessages, hall⟩ := hresult
  rw [callbacks, hcall, hmessages]
  constructor
  · exact hrest.sound
  · change (∀ out ∈ messages ++ (callbacks ctx calls).1, CarriesId out id) ↔ _
    rw [List.forall_mem_append, hall, hrest.all]

theorem Carried.optional {ctx : Context} {calls : List (Call XMPPStanza)} {id : Str}
    (argument : Option Str) {call : Str → Call XMPPStanza} {result : Str → Except Fault (List Str)}
    {P : Str → Prop} {Q : Prop}
    (hcall : ∀ x, callback ctx (call x) = (result x).map (ctx.client, ·))
    (hresult : ∀ x, Carries (result x) id (P x)) (hrest : Carried (callbacks ctx calls) id Q) :
    Carried (callbacks ctx ((argument.map call).toList ++ calls)) id
      ((∀ x, argument = some x → P x) ∧ Q) := by
  cases argument with
  | none => simpa using hrest
  | some x =>
      have h := Carried.cons (hcall x) (hresult x) hrest
      simpa using h

/-- A default reply is made. -/
def discoApplies (ctx : Context) (s : XMPPStanza) : Bool :=
  (stanzaGetQueryRequest s).any fun query =>
    (primeGetForQuery ctx.primed query).isNone && isDisco query

theorem queryApplies_eq (ctx : Context) (s : XMPPStanza) :
    queryApplies ctx s = (stanzaGetQueryRequest s).any fun query =>
      (primeGetForQuery ctx.primed query).isSome || isDisco query := by
  simp only [queryApplies, isDisco, Bool.or_assoc]

theorem any_imp {α : Type} (o : Option α) (p : α → Bool) (A : Prop) :
    (o.any p → A) ↔ ∀ x, o = some x → p x → A := by
  cases o <;> simp

/-- All replies carry the id if it is plain, and the address of a default reply leaves its
start tag whole. -/
theorem carried_dispatch (ctx : Context) (hprimed : PlainPrimed ctx.primed) {s : XMPPStanza}
    (hauth : stanzaGetChildByNs (some s) "jabber:iq:auth".toList = none) {id : Str}
    (hid : stanzaGetId (some s) = some id) :
    Carried (callbacks ctx (dispatch s s)) id ((0 < applying ctx s → PlainValue id) ∧
      (discoApplies ctx s → Spliced id (address ctx.received id))) := by
  have hxmlns : Carried (callbacks ctx
      (((stanzaGetXmlns s).map (.xmlns · (some id))).toList ++ [])) id _ :=
    Carried.optional _ (fun _ => rfl) (fun x => carries_xmlnsCallback hprimed ctx.expat x id)
      (carried_nil ctx id)
  have hquery : Carried (callbacks ctx
      (((stanzaGetQueryRequest s).map (.query · (some id))).toList ++ _)) id _ :=
    Carried.optional _ (fun _ => rfl)
      (fun x => carries_queryCallback hprimed ctx.expat ctx.env ctx.received x id) hxmlns
  have hall : Carried (callbacks ctx (.id s.name id :: _)) id _ :=
    Carried.cons rfl (carries_idCallback hprimed ctx.expat ctx.order s.name id) hquery
  have hcalls : dispatch s s = .id s.name id ::
      (((stanzaGetQueryRequest s).map (.query · (some id))).toList ++
        (((stanzaGetXmlns s).map (.xmlns · (some id))).toList ++ [])) := by
    rw [dispatch_of_not_auth s hauth, hid, List.append_assoc, List.append_nil]
    rfl
  have happlying : 0 < applying ctx s ↔
      (idApplies ctx s ∨ queryApplies ctx s ∨ xmlnsApplies ctx s) := by
    unfold applying
    cases idApplies ctx s <;> cases queryApplies ctx s <;> cases xmlnsApplies ctx s <;> simp
  have hidApplies : idApplies ctx s = ((primeGetForId ctx.order ctx.primed id).isSome ||
      (primeGetForId ctx.order ctx.primed (s.name ++ ":".toList ++ id)).isSome) := by
    rw [idApplies, hid]
    rfl
  rw [hcalls]
  refine ⟨hall.sound, hall.all.trans ?_⟩
  rw [happlying, or_imp, or_imp, hidApplies, queryApplies_eq, xmlnsApplies, discoApplies, any_imp,
    any_imp, any_imp]
  constructor
  · rintro ⟨hid, hquery, hxmlns, -⟩
    exact ⟨⟨hid, fun x hx => (hquery x hx).1, hxmlns⟩, fun x hx => (hquery x hx).2⟩
  · rintro ⟨⟨hid, hquery, hxmlns⟩, hdisco⟩
    exact ⟨hid, fun x hx => ⟨hquery x hx, hdisco x hx⟩, hxmlns, trivial⟩

/-- The first stored stanza with the id has no address that could not be put between
quotes as it stands. -/
def AddressStands (received : List XMPPStanza) (id : Str) : Prop :=
  ∀ to_jid, stanzasGetToById (fun s => s) (some id) received = some to_jid → AttText to_jid

theorem address_cases (received : List XMPPStanza) (id : Str) :
    address received id = "localhost".toList ∧
        stanzasGetToById (fun s => s) (some id) received = none ∨
      stanzasGetToById (fun s => s) (some id) received = some (address received id) := by
  unfold address
  cases stanzasGetToById (fun s => s) (some id) received with
  | none => exact Or.inl ⟨rfl, rfl⟩
  | some to_jid => exact Or.inr rfl

theorem addressStands_iff (received : List XMPPStanza) (id : Str) :
    AddressStands received id ↔ AttText (address received id) := by
  unfold AddressStands
  rcases address_cases received id with ⟨haddress, hnone⟩ | hsome
  · have hlocalhost : AttText "localhost".toList := by decide
    rw [haddress, hnone]
    exact iff_of_true (by simp) hlocalhost
  · rw [hsome]
    simp

/-- The id is read back from every reply if it is plain and the address of a default reply
stands for a value as it is. Only an address with a quote can do without that. -/
theorem replies_carry_id_iff (ctx : Context) (hprimed : PlainPrimed ctx.primed) {s : XMPPStanza}
    (hauth : stanzaGetChildByNs (some s) "jabber:iq:auth".toList = none) {id : Str}
    (hid : stanzaGetId (some s) = some id) :
    let written := callbacks ctx (dispatch s s)
    let condition := (0 < applying ctx s → PlainValue id) ∧
      (discoApplies ctx s → AddressStands ctx.received id)
    written.2 = none ∧ (condition → ∀ out ∈ written.1, CarriesId out id) ∧
      ((∀ out ∈ written.1, CarriesId out id) → (0 < applying ctx s → PlainValue id) ∧
        ((discoApplies ctx s → '"' ∉ address ctx.received id) → condition)) := by
  have hcarried := carried_dispatch ctx hprimed hauth hid
  have hdue : discoApplies ctx s = true → 0 < applying ctx s := by
    intro hdisco
    have hquery : queryApplies ctx s = true := by
      rw [queryApplies_eq]
      obtain ⟨query, hquery, happlies⟩ := (Option.any_eq_true _ _).mp hdisco
      refine (Option.any_eq_true _ _).mpr ⟨query, hquery, ?_⟩
      rw [Bool.and_eq_true] at happlies
      rw [happlies.2, Bool.or_true]
    unfold applying
    rw [hquery, Bool.toNat_true]
    omega
  intro written condition
  refine ⟨hcarried.sound, ?_, ?_⟩
  · rintro ⟨hplain, hstands⟩
    refine hcarried.all.mpr ⟨hplain, fun hdisco => ?_⟩
    exact spliced_of_attText (hplain (hdue hdisco)) ((addressStands_iff _ _).mp (hstands hdisco))
  · intro hall
    obtain ⟨hplain, hspliced⟩ := hcarried.all.mp hall
    refine ⟨hplain, fun hquote => ⟨hplain, fun hdisco => ?_⟩⟩
    exact (addressStands_iff _ _).mpr
      (attText_of_spliced (hplain (hdue hdisco)) (hquote hdisco) (hspliced hdisco))

theorem plainStub_iq : PlainStub "<iq/>".toList :=
  ⟨"iq".toList, [], [], ⟨⟨.outside false, [], true, false⟩, rfl, rfl⟩,
    .mk (by simp) (by simp [contentOf, addContent, textOf]) (by simp [stanzasOf])⟩

theorem discoRequest_replies_carry_id :
    (callbacks stubbedId (dispatch discoRequest discoRequest)).2 = none ∧
      ∀ out ∈ (callbacks stubbedId (dispatch discoRequest discoRequest)).1,
        CarriesId out "1".toList := by
  have hprimed : PlainPrimed stubbedId.primed :=
    plainPrimed_primeForId (plainPrimed_none none) plainStub_iq _
  have hauth : stanzaGetChildByNs (some discoRequest) "jabber:iq:auth".toList = none := rfl
  have hid : stanzaGetId (some discoRequest) = some "1".toList := rfl
  have hplain : PlainValue "1".toList := by decide
  have haddress : AttText (address stubbedId.received "1".toList) := by decide +kernel
  obtain ⟨hsound, hcarry, -⟩ := replies_carry_id_iff stubbedId hprimed hauth hid
  exact ⟨hsound, hcarry ⟨fun _ => hplain, fun _ => (addressStands_iff _ _).mpr haddress⟩⟩

/-- A request with this id and address. -/
def itemsRequest (id to_jid : Str) : XMPPStanza :=
  ⟨"iq".toList, [⟨"id".toList, id⟩, ⟨"to".toList, to_jid⟩],
    [⟨"query".toList, [⟨"xmlns".toList, discoItemsNs⟩], [], none⟩], none⟩

def unprimed (received : List XMPPStanza) : Context :=
  ⟨Expat.reference, KeyOrder.insertion, ⟨false, false, false⟩, ⟨none, none, none, none⟩,
    xmppclientNew, received⟩

theorem not_carriesId {out id : Str} (h : Reader.init.feed out = none) : ¬ CarriesId out id := by
  rintro ⟨n, as, ks, ⟨r, hfeed, -⟩, -⟩
  rw [h] at hfeed
  cases hfeed

/-- A request with this id and address, and a reply to it that does not carry the id. -/
def LosesId (id to_jid : Str) : Prop :=
  let s := itemsRequest id to_jid
  stanzaGetChildByNs (some s) "jabber:iq:auth".toList = none ∧ stanzaGetId (some s) = some id ∧
    ∃ out ∈ (callbacks (unprimed [s]) (dispatch s s)).1, ¬ CarriesId out id

/-- With an ampersand in the id, or a quote in the address, the reply is no XML. -/
theorem ampersand_and_quote_not_carried :
    PlainPrimed (unprimed []).primed ∧ LosesId "a&b".toList "localhost".toList ∧
      LosesId "1".toList "a\"b".toList := by
  refine ⟨plainPrimed_none none, ⟨rfl, rfl, ?_⟩, rfl, rfl, ?_⟩
  · refine ⟨discoItems (some "a&b".toList) "localhost".toList, by decide +kernel, ?_⟩
    exact not_carriesId (by decide +kernel)
  · refine ⟨discoItems (some "1".toList) "a\"b".toList, by decide +kernel, ?_⟩
    exact not_carriesId (by decide +kernel)

end Stabber.ReplyIds
