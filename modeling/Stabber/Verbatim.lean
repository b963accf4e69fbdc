import Stabber.StanzaRoundTrip
import Stabber.XmlCost
import Stabber.XmlSoundness

/-!
# When verbatim copies keep their meaning

The serialiser copies the characters of names, values and content as they are.
For the stanza of a document, what it writes is a text of that document exactly
when the document is safe. A safe document is written plainly; any other one
would need more text than the serialiser writes.
-/

namespace Stabber.Verbatim
open XmlDocument XmlReader XmlReading XmlCost XmlSoundness Stanza StanzaParse StanzaRoundTrip

mutual
/-- Every value and every text stands for itself, and no element has both text and
child elements. -/
def Safe : Node → Prop
  | .elem _ as ks => (∀ a ∈ as, PlainValue a.2) ∧
      ((textOf ks = [] ∨ stanzasOf ks = []) ∧ PlainText (textOf ks) ∧ SafeAll ks)
  | .char _ => True

def SafeAll : List Node → Prop
  | [] => True
  | k :: ks => Safe k ∧ SafeAll ks
end

/-- What is asked of the inside of an element. -/
def SafeContent (ks : List Node) : Prop :=
  (textOf ks = [] ∨ stanzasOf ks = []) ∧ PlainText (textOf ks) ∧ SafeAll ks

/-! ## The weight of what is written -/

mutual
def Unmixed : Node → Prop
  | .elem _ _ ks => (textOf ks = [] ∨ stanzasOf ks = []) ∧ UnmixedAll ks
  | .char _ => True

def UnmixedAll : List Node → Prop
  | [] => True
  | k :: ks => Unmixed k ∧ UnmixedAll ks
end

/-- The cost of the child elements. -/
def elemCost : List Node → ℕ
  | [] => 0
  | .elem n as ks :: ls => nodeCost (.elem n as ks) + elemCost ls
  | .char _ :: ls => elemCost ls

theorem forestCost_eq (ks : List Node) :
    forestCost ks = textWeight (textOf ks) + elemCost ks := by
  induction ks with
  | nil => rfl
  | cons k ks ih =>
      cases k with
      | elem n as ls =>
          change nodeCost _ + forestCost ks = textWeight (textOf ks) + (nodeCost _ + elemCost ks)
          omega
      | char c =>
          change weight c + forestCost ks = textWeight (c :: textOf ks) + elemCost ks
          rw [textWeight_cons]
          omega

theorem stanzasOf_of_elemCost {ks : List Node} (h : elemCost ks = 0) : stanzasOf ks = [] := by
  induction ks with
  | nil => rfl
  | cons k ks ih =>
      cases k with
      | elem n as ls =>
          have hpos := nodeCost_pos (.elem n as ls)
          change nodeCost _ + elemCost ks = 0 at h
          omega
      | char c => exact ih h

theorem attrs_weight (as : List (Str × Str)) :
    textWeight ((as.map fun a => (⟨a.1, a.2⟩ : XMPPAttr)).flatMap attrToString) = attrsCost as := by
  induction as with
  | nil => rfl
  | cons a as ih =>
      have hone : textWeight (attrToString ⟨a.1, a.2⟩) = textWeight a.1 + textWeight a.2 + 4 := by
        have h₁ : textWeight " ".toList = 1 := rfl
        have h₂ : textWeight "=\"".toList = 2 := rfl
        have h₃ : textWeight "\"".toList = 1 := rfl
        simp only [attrToString, textWeight_append, h₁, h₂, h₃]
        omega
      rw [List.map_cons, List.flatMap_cons, textWeight_append, hone, ih, attrsCost_cons]

theorem head_weight (n : Str) (as : List (Str × Str)) :
    textWeight ("<".toList ++ n ++
      (as.map fun a => (⟨a.1, a.2⟩ : XMPPAttr)).flatMap attrToString) =
        1 + textWeight n + attrsCost as := by
  have h : textWeight "<".toList = 1 := rfl
  rw [textWeight_append, textWeight_append, attrs_weight, h]

theorem closeWith_weight (n inner : Str) :
    textWeight (closeWith n inner) = 1 + textWeight inner + (3 + textWeight n) := by
  have h₁ : textWeight ">".toList = 1 := rfl
  have h₂ : textWeight "</".toList = 2 := rfl
  simp only [closeWith, textWeight_append, h₁, h₂]
  omega

theorem eq_nil_of_empty {ks : List Node} (ht : textOf ks = []) (hs : stanzasOf ks = []) :
    ks = [] := by
  cases ks with
  | nil => rfl
  | cons k ks =>
      cases k with
      | elem n as ls => cases hs
      | char c => cases ht

theorem nodeCost_of_ne_nil (n : Str) (as : List (Str × Str)) {ks : List Node} (h : ks ≠ []) :
    nodeCost (.elem n as ks) =
      2 + textWeight n + attrsCost as + forestCost ks + (3 + textWeight n) := by
  cases ks with
  | nil => exact (h rfl).elim
  | cons k ks => rfl

mutual
/-- The serialiser never writes more than the document needs, and writes less when
it leaves children out. -/
theorem written_le : ∀ (d : Node) (s : XMPPStanza), stanzaOf d = some s →
    textWeight (stanzaToString s) ≤ nodeCost d ∧
      (nodeCost d ≤ textWeight (stanzaToString s) → Unmixed d)
  | .char _, s, h => by cases h
  | .elem n as ks, s, h => by
      have hs : s = ⟨n, as.map fun a => ⟨a.1, a.2⟩, stanzasOf ks, contentOf ks⟩ :=
        (Option.some.inj h).symm
      have hkids := written_all_le ks
      have hsplit := forestCost_eq ks
      have hhead := head_weight n as
      subst hs
      by_cases htext : textOf ks = []
      · have hcontent : contentOf ks = none := by
          rw [contentOf, htext]
          rfl
        rw [htext, textWeight_nil, Nat.zero_add] at hsplit
        cases hc : stanzasOf ks with
        | nil =>
            have hnil := eq_nil_of_empty htext hc
            subst hnil
            have hw : textWeight "/>".toList = 2 := rfl
            rw [hcontent, stanzaToString, textWeight_append, hhead, hw, nodeCost]
            exact ⟨by omega, fun _ => ⟨Or.inl rfl, trivial⟩⟩
        | cons c cs =>
            have hne : ks ≠ [] := by
              rintro rfl
              cases hc
            rw [hc] at hkids
            rw [hcontent, stanzaToString, textWeight_append, hhead, closeWith_weight,
              nodeCost_of_ne_nil n as hne, hsplit]
            have hinner : stanzaToString c ++ childrenToString cs = childrenToString (c :: cs) := rfl
            rw [hinner]
            refine ⟨by omega, ?_⟩
            intro hle
            exact ⟨Or.inl htext, hkids.2 (by omega)⟩
      · have hcontent : contentOf ks = some (textOf ks) := if_neg htext
        have hne : ks ≠ [] := by
          rintro rfl
          exact htext rfl
        rw [hcontent, stanzaToString, textWeight_append, hhead, closeWith_weight,
          nodeCost_of_ne_nil n as hne, hsplit]
        refine ⟨by omega, ?_⟩
        intro hle
        have hzero : elemCost ks = 0 := by omega
        exact ⟨Or.inr (stanzasOf_of_elemCost hzero), hkids.2 (by omega)⟩

theorem written_all_le : ∀ ks : List Node,
    textWeight (childrenToString (stanzasOf ks)) ≤ elemCost ks ∧
      (elemCost ks ≤ textWeight (childrenToString (stanzasOf ks)) → UnmixedAll ks)
  | [] => ⟨Nat.le_refl 0, fun _ => trivial⟩
  | .char c :: ks => by
      have h := written_all_le ks
      exact ⟨h.1, fun hle => ⟨trivial, h.2 hle⟩⟩
  | .elem n as ls :: ks => by
      have hhead := written_le (.elem n as ls)
        ⟨n, as.map fun a => ⟨a.1, a.2⟩, stanzasOf ls, contentOf ls⟩ rfl
      have htail := written_all_le ks
      have hsum : textWeight (childrenToString (stanzasOf (.elem n as ls :: ks))) =
          textWeight (stanzaToString ⟨n, as.map fun a => ⟨a.1, a.2⟩, stanzasOf ls, contentOf ls⟩) +
            textWeight (childrenToString (stanzasOf ks)) := textWeight_append _ _
      have hcost : elemCost (.elem n as ls :: ks) = nodeCost (.elem n as ls) + elemCost ks := rfl
      refine ⟨by omega, ?_⟩
      intro hle
      exact ⟨hhead.2 (by omega), htail.2 (by omega)⟩
end

/-! ## Plain tokens of an unmixed document -/

theorem forestTokens_of_no_elements {ks : List Node} (h : stanzasOf ks = []) :
    forestTokens ks = (textOf ks).map .char := by
  induction ks with
  | nil => rfl
  | cons k ks ih =>
      cases k with
      | elem n as ls => cases h
      | char c =>
          rw [forestTokens, ih h]
          rfl

theorem safeAll_of_no_elements {ks : List Node} (h : stanzasOf ks = []) : SafeAll ks := by
  induction ks with
  | nil => trivial
  | cons k ks ih =>
      cases k with
      | elem n as ls => cases h
      | char c => exact ⟨trivial, ih h⟩

theorem plainText_nil : PlainText [] := ⟨by simp, by simp, by decide⟩

mutual
theorem safe_of_plainTokens : ∀ (n : Str) (as : List (Str × Str)) (ks : List Node) (k : ℕ)
    (us : List Token), Unmixed (.elem n as ks) →
      PlainTokens k ((Node.elem n as ks).tokens ++ us) →
        Safe (.elem n as ks) ∧ PlainTokens 0 us
  | n, as, ks, k, us, hu, h => by
      rw [Node.tokens, List.cons_append, List.append_assoc] at h
      obtain ⟨hvalues, hinner⟩ := h
      by_cases hs : stanzasOf ks = []
      · rw [forestTokens_of_no_elements hs] at hinner
        have htext := plainText_of_plainTokens hinner
        exact ⟨⟨hvalues, hu.1, htext, safeAll_of_no_elements hs⟩, plainTokens_after_text hinner⟩
      · have htext : textOf ks = [] := hu.1.resolve_right hs
        obtain ⟨hall, hrest⟩ := safeAll_of_plainTokens ks (.stop n :: us) hu.2 htext hinner
        refine ⟨⟨hvalues, hu.1, ?_, hall⟩, hrest⟩
        rw [htext]
        exact plainText_nil

theorem safeAll_of_plainTokens : ∀ (ks : List Node) (us : List Token), UnmixedAll ks →
    textOf ks = [] → PlainTokens 0 (forestTokens ks ++ us) → SafeAll ks ∧ PlainTokens 0 us
  | [], us, _, _, h => ⟨trivial, h⟩
  | .char c :: ks, us, _, ht, _ => by cases ht
  | .elem n as ls :: ks, us, hu, ht, h => by
      rw [forestTokens, List.append_assoc] at h
      obtain ⟨hhead, hrest⟩ := safe_of_plainTokens n as ls 0 (forestTokens ks ++ us) hu.1 h
      obtain ⟨htail, hlast⟩ := safeAll_of_plainTokens ks us hu.2 ht hrest
      exact ⟨⟨hhead, htail⟩, hlast⟩
end

/-- What the serialiser writes for a document is a text of it only if the document
is safe. -/
theorem safe_of_denotes {n : Str} {as : List (Str × Str)} {ks : List Node} {s : XMPPStanza}
    (hs : stanzaOf (.elem n as ks) = some s)
    (h : Denotes (stanzaToString s) (.elem n as ks)) : Safe (.elem n as ks) := by
  have hcost := cost_le_of_denotes h
  have hwritten := written_le (.elem n as ks) s hs
  rw [cost_tokens] at hcost
  have hplain := plain_of_denotes h (by rw [cost_tokens]; exact hwritten.1)
  rw [← List.append_nil (Node.elem n as ks).tokens] at hplain
  exact (safe_of_plainTokens n as ks 0 [] (hwritten.2 hcost) hplain).1

/-! ## Safe documents are written plainly -/

theorem chars_of_no_elements {ks : List Node} (h : stanzasOf ks = []) :
    (textOf ks).map .char = ks := by
  induction ks with
  | nil => rfl
  | cons k ks ih =>
      cases k with
      | elem n as ls => cases h
      | char c => exact congrArg (List.cons (Node.char c)) (ih h)

theorem attrPairs_mk (as : List (Str × Str)) :
    (as.map fun a => (⟨a.1, a.2⟩ : XMPPAttr)).map attrPair = as := by
  rw [List.map_map]
  exact List.map_id as

mutual
/-- The stanza of a safe document is plain and stands for that document. -/
theorem plain_of_safe : ∀ (n : Str) (as : List (Str × Str)) (ks : List Node),
    Safe (.elem n as ks) → (∀ t ∈ (Node.elem n as ks).tokens, SoundToken t) →
      Plain ⟨n, as.map fun a => ⟨a.1, a.2⟩, stanzasOf ks, contentOf ks⟩ ∧
        nodeOf ⟨n, as.map fun a => ⟨a.1, a.2⟩, stanzasOf ks, contentOf ks⟩ = .elem n as ks
  | n, as, ks, hsafe, hsound => by
      obtain ⟨hvalues, hmixed, htext, hall⟩ := hsafe
      have htag : SoundTag ⟨n, as⟩ := hsound (.start n as) List.mem_cons_self
      have hinner : ∀ t ∈ forestTokens ks, SoundToken t := by
        intro t ht
        exact hsound t (List.mem_cons_of_mem _ (List.mem_append_left _ ht))
      have hkids : (∀ c ∈ stanzasOf ks, Plain c) ∧
          (contentOf ks).getD [] = textOf ks ∧
          (textOf ks).map .char ++ nodesOf (stanzasOf ks) = ks := by
        have hcontent : (contentOf ks).getD [] = textOf ks := by
          unfold contentOf addContent
          split_ifs with ht
          · exact ht.symm
          · rfl
        by_cases hs : stanzasOf ks = []
        · rw [hs, chars_of_no_elements hs]
          exact ⟨by simp, hcontent, List.append_nil ks⟩
        · have hnone := hmixed.resolve_right hs
          obtain ⟨hplain, hnodes⟩ := plainAll_of_safe ks hall hnone hinner
          refine ⟨hplain, hcontent, ?_⟩
          rw [hnone, hnodes]
          rfl
      constructor
      · apply Plain.mk
        · exact htag.name
        · intro a ha
          obtain ⟨p, hp, rfl⟩ := List.mem_map.mp ha
          exact ⟨htag.attrs p hp, hvalues p hp⟩
        · rw [List.map_map]
          exact htag.distinct
        · intro t ht
          have hne : textOf ks ≠ [] := by
            intro hnil
            rw [contentOf, hnil] at ht
            cases ht
          have heq : textOf ks = t := by
            rw [contentOf, addContent, if_neg hne] at ht
            exact Option.some.inj ht
          subst heq
          exact ⟨hne, htext, hmixed.resolve_left hne⟩
        · exact hkids.1
      · rw [nodeOf, attrPairs_mk, hkids.2.1, hkids.2.2]

theorem plainAll_of_safe : ∀ ks : List Node, SafeAll ks → textOf ks = [] →
    (∀ t ∈ forestTokens ks, SoundToken t) →
      (∀ c ∈ stanzasOf ks, Plain c) ∧ nodesOf (stanzasOf ks) = ks
  | [], _, _, _ => ⟨by simp [stanzasOf], rfl⟩
  | .char c :: ks, _, ht, _ => by cases ht
  | .elem n as ls :: ks, hsafe, ht, hsound => by
      obtain ⟨hplain, hnode⟩ := plain_of_safe n as ls hsafe.1 fun t hm =>
        hsound t (List.mem_append_left _ hm)
      obtain ⟨hall, hnodes⟩ := plainAll_of_safe ks hsafe.2 ht fun t hm =>
        hsound t (List.mem_append_right _ hm)
      constructor
      · intro c hc
        rcases List.mem_cons.mp hc with rfl | hc
        · exact hplain
        · exact hall c hc
      · change nodeOf _ :: nodesOf (stanzasOf ks) = _
        rw [hnode, hnodes]
end

/-- For a document with sound names, the serialiser writes a text of the document
exactly when the document is safe. -/
theorem denotes_iff_safe {n : Str} {as : List (Str × Str)} {ks : List Node}
    (hsound : ∀ t ∈ (Node.elem n as ks).tokens, SoundToken t) :
    Denotes (stanzaToString ⟨n, as.map fun a => ⟨a.1, a.2⟩, stanzasOf ks, contentOf ks⟩)
      (.elem n as ks) ↔ Safe (.elem n as ks) := by
  constructor
  · exact safe_of_denotes rfl
  · intro hsafe
    obtain ⟨hplain, hnode⟩ := plain_of_safe n as ks hsafe hsound
    have h := denotes_stanzaToString hplain
    rw [hnode] at h
    exact h

end Stabber.Verbatim
