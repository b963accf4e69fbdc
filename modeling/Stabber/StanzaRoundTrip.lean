import Stabber.StanzaParse
import Stabber.XmlReading

/-!
# Serialising and parsing plain stanzas

A plain stanza is one whose text the serialiser may copy verbatim and whose
element is either text or children. On these stanzas `stanza_to_string` writes
a document of the stanza, so `stanza_parse` gives the stanza back.
-/

namespace Stabber.StanzaRoundTrip
open XmlDocument XmlReader XmlReading Stanza StanzaParse

/-- Names are XML names, no attribute is repeated, every value and every content
stands for itself, and no element has both content and children. -/
inductive Plain : XMPPStanza → Prop where
  | mk {name : Str} {attrs : List XMPPAttr} {children : List XMPPStanza} {content : Option Str}
      (named : isName name = true)
      (values : ∀ a ∈ attrs, isName a.name = true ∧ PlainValue a.value)
      (distinct : (attrs.map XMPPAttr.name).Nodup)
      (text : ∀ t, content = some t → t ≠ [] ∧ PlainText t ∧ children = [])
      (below : ∀ c ∈ children, Plain c) : Plain ⟨name, attrs, children, content⟩

/-- A stanza that carries the proof that it is plain. -/
abbrev PlainStanza := { s : XMPPStanza // Plain s }

def attrPair (a : XMPPAttr) : Str × Str := (a.name, a.value)

mutual
/-- The document that a stanza stands for, with its content before its children. -/
def nodeOf : XMPPStanza → Node
  | ⟨name, attrs, children, content⟩ =>
      .elem name (attrs.map attrPair) ((content.getD []).map .char ++ nodesOf children)

def nodesOf : List XMPPStanza → List Node
  | [] => []
  | c :: cs => nodeOf c :: nodesOf cs
end

theorem textOf_chars (t : Str) : textOf (t.map .char) = t := by
  induction t with
  | nil => rfl
  | cons c cs ih => exact congrArg (List.cons c) ih

theorem stanzasOf_chars (t : Str) : stanzasOf (t.map .char) = [] := by
  induction t with
  | nil => rfl
  | cons c cs ih => exact ih

theorem textOf_nodesOf (cs : List XMPPStanza) : textOf (nodesOf cs) = [] := by
  induction cs with
  | nil => rfl
  | cons c cs ih =>
      cases c
      exact ih

theorem forestTokens_chars (t : Str) : forestTokens (t.map .char) = t.map .char := by
  induction t with
  | nil => rfl
  | cons c cs ih => simp [forestTokens, Node.tokens, ih]

theorem mk_comp_attrPair : (fun a : Str × Str => (⟨a.1, a.2⟩ : XMPPAttr)) ∘ attrPair = id := rfl

/-- A plain stanza's document becomes the stanza again. -/
theorem stanzaOf_nodeOf {s : XMPPStanza} (hs : Plain s) : stanzaOf (nodeOf s) = some s := by
  induction s using XMPPStanza.induction with
  | mk name attrs children content ih =>
      cases hs with
      | mk _ _ _ text below =>
          have hkids : stanzasOf (nodesOf children) = children := by
            clear text
            induction children with
            | nil => rfl
            | cons c cs ihcs =>
                have hc := ih c List.mem_cons_self (below c List.mem_cons_self)
                have htail := ihcs (fun d hd => ih d (List.mem_cons_of_mem c hd))
                  fun d hd => below d (List.mem_cons_of_mem c hd)
                simp [nodesOf, stanzasOf, hc, htail]
          have htext : addContent none (content.getD []) = content := by
            cases content with
            | none => rfl
            | some t => simp [addContent, (text t rfl).1]
          have hsplit : textOf ((content.getD []).map .char ++ nodesOf children) =
              content.getD [] := by
            rw [textOf, List.filterMap_append]
            change textOf _ ++ textOf _ = _
            rw [textOf_chars, textOf_nodesOf, List.append_nil]
          simp [nodeOf, stanzaOf, contentOf, hsplit, htext, mk_comp_attrPair, stanzasOf_chars, hkids]

/-! ## Reading what the serialiser writes -/

variable {st : List Str} {seen : Bool}

theorem feed_attrs (n : Str) (before : List (Str × Str)) (attrs : List XMPPAttr) (rest : Str)
    (values : ∀ a ∈ attrs, isName a.name = true ∧ PlainValue a.value)
    (distinct : (before.map Prod.fst ++ attrs.map XMPPAttr.name).Nodup) :
    (⟨.afterValue ⟨n, before⟩, st, seen, false⟩ : Reader).feed
        (attrs.flatMap attrToString ++ rest) =
      (⟨.afterValue ⟨n, before ++ attrs.map attrPair⟩, st, seen, false⟩ : Reader).feed rest := by
  induction attrs generalizing before with
  | nil => simp
  | cons a as ih =>
      obtain ⟨hname, hvalue⟩ := values a List.mem_cons_self
      have hnew : a.name ∉ before.map Prod.fst := by
        intro hmem
        have := (List.nodup_append.mp distinct).2.2 _ hmem _ List.mem_cons_self
        exact this rfl
      have hshape : (a :: as).flatMap attrToString ++ rest =
          " ".toList ++ a.name ++ "=\"".toList ++ a.value ++ "\"".toList ++
            (as.flatMap attrToString ++ rest) := by
        simp [attrToString]
      rw [hshape, feed_attr _ hname hvalue hnew, ih]
      · simp [attrPair]
      · intro b hb
        exact values b (List.mem_cons_of_mem a hb)
      · simpa using distinct

/-- A start tag up to the character that ends it. -/
theorem feed_head {m : Mode} {first : Bool} {name : Str} {attrs : List XMPPAttr} {c : Char}
    (rest : Str) (hm : (⟨m, st, seen, false⟩ : Reader).lex '<' =
      (⟨m, st, seen, false⟩ : Reader).go (.opened first))
    (hroot : st = [] → seen = false) (named : isName name = true)
    (values : ∀ a ∈ attrs, isName a.name = true ∧ PlainValue a.value)
    (distinct : (attrs.map XMPPAttr.name).Nodup) (hc : isNameChar c = false) :
    (⟨m, st, seen, false⟩ : Reader).feed
        ("<".toList ++ name ++ attrs.flatMap attrToString ++ c :: rest) =
      (⟨.afterValue ⟨name, attrs.map attrPair⟩, st, seen, false⟩ : Reader).feed (c :: rest) := by
  have hshape : "<".toList ++ name ++ attrs.flatMap attrToString ++ c :: rest =
      '<' :: (name ++ (attrs.flatMap attrToString ++ c :: rest)) := by simp
  rw [hshape, feed_go (.opened first) _ (by decide) (by decide) hm, feed_open _ _ named hroot]
  have hafter : (⟨.startName name, st, seen, false⟩ : Reader).feed
      (attrs.flatMap attrToString ++ c :: rest) =
      (⟨.afterValue ⟨name, []⟩, st, seen, false⟩ : Reader).feed
        (attrs.flatMap attrToString ++ c :: rest) := by
    cases attrs with
    | nil => exact feed_afterName _ hc
    | cons a as => exact feed_afterName (c := ' ') _ (by decide)
  rw [hafter, feed_attrs name [] attrs _ values (by simpa using distinct), List.nil_append]

/-- Reading resumes where the element stood, with its tokens returned. -/
def ReadsAs (s : XMPPStanza) : Prop :=
  ∀ (m : Mode) (first : Bool) (st : List Str) (seen : Bool) (rest : Str),
    (⟨m, st, seen, false⟩ : Reader).lex '<' =
        (⟨m, st, seen, false⟩ : Reader).go (.opened first) →
      (st = [] → seen = false) →
      (⟨m, st, seen, false⟩ : Reader).feed (stanzaToString s ++ rest) =
        ((⟨home st, st, true, false⟩ : Reader).feed rest).map
          fun p => (p.1, (nodeOf s).tokens ++ p.2)

theorem feed_children (n : Str) (st : List Str) (children : List XMPPStanza) (rest : Str)
    (h : ∀ c ∈ children, ReadsAs c) :
    (⟨.content 0, n :: st, true, false⟩ : Reader).feed (childrenToString children ++ rest) =
      ((⟨.content 0, n :: st, true, false⟩ : Reader).feed rest).map
        fun p => (p.1, forestTokens (nodesOf children) ++ p.2) := by
  induction children generalizing rest with
  | nil => simp [childrenToString, nodesOf, forestTokens]
  | cons c cs ih =>
      rw [childrenToString, List.append_assoc,
        h c List.mem_cons_self (.content 0) false (n :: st) true _ rfl (by simp)]
      change Option.map _ ((⟨.content 0, n :: st, true, false⟩ : Reader).feed _) = _
      rw [ih _ fun d hd => h d (List.mem_cons_of_mem c hd), Option.map_map]
      simp [nodesOf, forestTokens, Function.comp_def]

/-- What is written after the attributes, and how it is read whatever they are. -/
theorem feed_body {name : Str} {children : List XMPPStanza} {content : Option Str}
    (named : isName name = true)
    (text : ∀ t, content = some t → t ≠ [] ∧ PlainText t ∧ children = [])
    (hkids : ∀ c ∈ children, ReadsAs c) : ∃ c body, isNameChar c = false ∧
      (∀ attrs, stanzaToString ⟨name, attrs, children, content⟩ =
        "<".toList ++ name ++ attrs.flatMap attrToString ++ c :: body) ∧
      ∀ (as : List (Str × Str)) (st : List Str) (seen : Bool) (rest : Str),
        (⟨.afterValue ⟨name, as⟩, st, seen, false⟩ : Reader).feed (c :: body ++ rest) =
          ((⟨home st, st, true, false⟩ : Reader).feed rest).map fun p =>
            (p.1, (Node.elem name as ((content.getD []).map .char ++ nodesOf children)).tokens ++
              p.2) := by
  -- the three branches of the serialiser: nothing, children, text
  rcases content with _ | t
  · rcases children with _ | ⟨c, cs⟩
    · refine ⟨'/', ['>'], by decide, fun attrs => by simp [stanzaToString], ?_⟩
      intro as st seen rest
      exact feed_emptyElement ⟨name, as⟩ rest
    · have hinner : stanzaToString c ++ childrenToString cs = childrenToString (c :: cs) := rfl
      refine ⟨'>', childrenToString (c :: cs) ++ ("</".toList ++ (name ++ ">".toList)),
        by decide, ?_, ?_⟩
      · intro attrs
        simp only [stanzaToString, hinner, closeWith, List.append_assoc]
        rfl
      · intro as st seen rest
        rw [List.cons_append, feed_startTag, List.append_assoc, feed_children name st _ _ hkids,
          ← List.append_assoc, feed_endTag rest named]
        simp [Node.tokens, Function.comp_def]
  · obtain ⟨hne, hplain, rfl⟩ := text t rfl
    refine ⟨'>', t ++ ("</".toList ++ (name ++ ">".toList)), by decide, ?_, ?_⟩
    · intro attrs
      simp only [stanzaToString, closeWith, List.append_assoc]
      rfl
    · intro as st seen rest
      obtain ⟨k, hk⟩ := feed_text (name :: st) true hplain
      rw [List.cons_append, feed_startTag, List.append_assoc, feed_append _ hk,
        ← List.append_assoc, feed_endTag rest named]
      simp [nodesOf, Node.tokens, forestTokens_chars, Function.comp_def]

theorem readsAs_of_plain {s : XMPPStanza} (hs : Plain s) : ReadsAs s := by
  induction s using XMPPStanza.induction with
  | mk name attrs children content ih =>
      intro m first st seen rest hm hroot
      cases hs with
      | mk named values distinct text below =>
          have hkids : ∀ c ∈ children, ReadsAs c := fun c hc => ih c hc (below c hc)
          obtain ⟨c, body, hc, hshape, hbody⟩ := feed_body named text hkids
          rw [hshape, List.append_assoc, List.cons_append,
            feed_head _ hm hroot named values distinct hc]
          exact hbody _ st seen rest

/-- The serialiser writes a document of the stanza. -/
theorem denotes_stanzaToString {s : XMPPStanza} (hs : Plain s) :
    Denotes (stanzaToString s) (nodeOf s) := by
  refine ⟨⟨.outside false, [], true, false⟩, ?_, rfl⟩
  have h := readsAs_of_plain hs (.outside true) true [] false [] rfl fun _ => rfl
  simpa [Reader.init, Reader.feed, home] using h

theorem stanzaParse_stanzaToString (E : Expat) {s : XMPPStanza} (hs : Plain s) :
    stanzaParse E (stanzaToString s) = .ok (some s) := by
  have hd := denotes_stanzaToString hs
  have hof := stanzaOf_nodeOf hs
  rcases s with ⟨name, attrs, children, content⟩
  rw [nodeOf] at hd hof
  rw [stanzaParse_document E hd, ← hof, fill_stanzaNew]

/-- On plain stanzas the parser inverts the serialiser, so the serialiser is
injective and serialising what was parsed from its output gives that output. -/
theorem plain_roundTrip (E : Expat) :
    (∀ s : PlainStanza, stanzaParse E (stanzaToString s) = .ok (some s.1)) ∧
    (∀ s t : PlainStanza, stanzaToString s = stanzaToString t → s = t) ∧
    (∀ (s : PlainStanza) (text : Str), stanzaToString s = text →
      ∃ t, stanzaParse E text = .ok (some t) ∧ stanzaToString t = text) := by
  refine ⟨fun s => stanzaParse_stanzaToString E s.2, ?_, ?_⟩
  · intro s t h
    have hs := stanzaParse_stanzaToString E s.2
    rw [h, stanzaParse_stanzaToString E t.2] at hs
    simpa [Subtype.ext_iff] using hs.symm
  · rintro s text rfl
    exact ⟨s, stanzaParse_stanzaToString E s.2, rfl⟩

/-- `<message id="m1"><body>hi</body></message>` -/
def helloMessage : XMPPStanza :=
  ⟨"message".toList, [⟨"id".toList, "m1".toList⟩],
    [⟨"body".toList, [], [], some "hi".toList⟩], none⟩

theorem plain_helloMessage : Plain helloMessage := by
  have hbody : Plain ⟨"body".toList, [], [], some "hi".toList⟩ := by
    refine .mk (by decide) (by simp) (by simp) ?_ (by simp)
    intro t ht
    obtain rfl := Option.some.inj ht
    exact ⟨by decide, by decide, rfl⟩
  refine .mk (by decide) ?_ (by decide) (by simp) (by simpa using hbody)
  intro a ha
  obtain rfl := List.mem_singleton.mp ha
  exact ⟨by decide, by decide⟩

theorem plain_roundTrip_helloMessage :
    stanzaParse Expat.reference (stanzaToString helloMessage) = .ok (some helloMessage) ∧
      ∃ t, stanzaParse Expat.reference "<message id=\"m1\"><body>hi</body></message>".toList =
        .ok (some t) ∧ stanzaToString t = "<message id=\"m1\"><body>hi</body></message>".toList :=
  ⟨(plain_roundTrip Expat.reference).1 ⟨helloMessage, plain_helloMessage⟩,
    (plain_roundTrip Expat.reference).2.2 ⟨helloMessage, plain_helloMessage⟩ _ (by decide)⟩

end Stabber.StanzaRoundTrip
