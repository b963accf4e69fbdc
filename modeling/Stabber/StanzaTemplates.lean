import Stabber.Stanzas
import Stabber.FnmatchComposition
import Mathlib.Data.List.Nodup
import Mathlib.Data.Set.Basic

/-!
# Stanzas as templates

Every attribute value of a template is a pattern, also where the template is the
text of a received stanza. Content and names have one wildcard, a lone star.
-/

namespace Stabber.StanzaTemplates
open XmlDocument Stanza Stanzas Fnmatch

mutual
/-- The attribute values of a stanza and of everything in it. -/
def attrValues : XMPPStanza → List Str
  | ⟨_, attrs, children, _⟩ => attrs.map XMPPAttr.value ++ childValues children

def childValues : List XMPPStanza → List Str
  | [] => []
  | c :: cs => attrValues c ++ childValues cs
end

theorem mem_childValues {v : Str} {children : List XMPPStanza} :
    v ∈ childValues children ↔ ∃ c ∈ children, v ∈ attrValues c := by
  induction children with
  | nil => simp [childValues]
  | cons c cs ih => simp [childValues, ih]

theorem mem_attrValues {v : Str} {s : XMPPStanza} :
    v ∈ attrValues s ↔
      (∃ a ∈ s.attrs, a.value = v) ∨ ∃ c ∈ s.children, v ∈ attrValues c := by
  rcases s with ⟨name, attrs, children, content⟩
  simp [attrValues, mem_childValues]

theorem attrValues_attr {s : XMPPStanza} {a : XMPPAttr} (h : a ∈ s.attrs) :
    a.value ∈ attrValues s := mem_attrValues.mpr (Or.inl ⟨a, h, rfl⟩)

theorem attrValues_child {s c : XMPPStanza} (h : c ∈ s.children) {v : Str}
    (hv : v ∈ attrValues c) : v ∈ attrValues s := mem_attrValues.mpr (Or.inr ⟨c, h, hv⟩)

/-! ## A stanza and its own text -/

/-- Taken as a template the stanza equals itself, is found in every store that has
it, and is the last stanza of every store where it is. -/
structure VerifiesItself (R : XMPPStanza) : Prop where
  equal : stanzasEqual R R = 0
  any : ∀ {α : Type} (view : α → XMPPStanza) (clear : Bool) (store : List α),
    (∃ s ∈ store, view s = R) → (stanzasVerifyAny view R clear store).1 = true
  last : ∀ {α : Type} (view : α → XMPPStanza) (store : List α),
    (store.getLast?.map view = some R) → stanzasVerifyLast view R store = true

theorem verifiesItself_of_equal {R : XMPPStanza} (h : stanzasEqual R R = 0) :
    VerifiesItself R where
  equal := h
  any := by
    intro α view clear store hmem
    obtain ⟨s, hs, hview⟩ := hmem
    exact (stanzasVerifyAny_fst view R clear store).mpr ⟨s, hs, by rw [hview, h]⟩
  last := by
    intro α view store hlast
    obtain ⟨s, hs, hview⟩ := Option.map_eq_some_iff.mp hlast
    simp only [stanzasVerifyLast, hs, hview, h, decide_true]

/-- No two attributes and no two children have one name, and no child is called
like the wildcard. -/
inductive Unambiguous : XMPPStanza → Prop
  | mk {name : Str} {attrs : List XMPPAttr} {children : List XMPPStanza} {content : Option Str} :
      (attrs.map XMPPAttr.name).Nodup → (children.map XMPPStanza.name).Nodup →
      (∀ c ∈ children, c.name ≠ "*".toList) → (∀ c ∈ children, Unambiguous c) →
      Unambiguous ⟨name, attrs, children, content⟩

theorem equal_self (R : XMPPStanza) (h : ∀ v ∈ attrValues R, fnmatch v v = true) :
    stanzasEqual R R = 0 := by
  induction R using XMPPStanza.induction with
  | mk name attrs children content ih =>
      rw [stanzasEqual_eq_zero]
      constructor
      · exact ⟨Or.inr rfl, Or.inr (Or.inr (Or.inr rfl)),
          fun a ha => ⟨a, ha, rfl, h _ (attrValues_attr ha)⟩⟩
      · intro c hc
        exact ⟨c, hc, ih c hc fun v hv => h v (attrValues_child hc hv)⟩

/-- Where nothing else has its name, an attribute or a child can only be matched by
itself. -/
theorem selfMatching_of_equal {R : XMPPStanza} (hR : Unambiguous R) (h : stanzasEqual R R = 0) :
    ∀ v ∈ attrValues R, fnmatch v v = true := by
  induction R using XMPPStanza.induction with
  | mk name attrs children content ih =>
      rcases hR with ⟨hattrs, hchildren, hstar, hsub⟩
      rw [stanzasEqual_eq_zero] at h
      intro v hv
      rcases mem_attrValues.mp hv with ⟨a, ha, rfl⟩ | ⟨c, hc, hv⟩
      · obtain ⟨b, hb, hname, hmatch⟩ := h.1.attrs a ha
        have hba : b = a := List.inj_on_of_nodup_map hattrs hb ha hname
        rw [hba] at hmatch
        exact hmatch
      · obtain ⟨r, hr, heq⟩ := h.2 c hc
        have hname := ((stanzasEqual_eq_zero r c).mp heq).1.name
        have hrc : r = c := by
          rcases hname with hname | hname
          · exact (hstar c hc hname).elim
          · exact List.inj_on_of_nodup_map hchildren hr hc hname.symm
        rw [hrc] at heq
        exact ih c hc (hsub c hc) heq v hv

/-- A stanza with one attribute. -/
def attrOnly (value : Str) : XMPPStanza :=
  ⟨"message".toList, [⟨"to".toList, value⟩], [], none⟩

theorem attrOnly_unambiguous (value : Str) : Unambiguous (attrOnly value) :=
  .mk (by simp) (by simp) (by simp) (by simp)

/-- All stanzas with attribute values of a kind verify against their own text just if
every value of the kind, read as a pattern, matches itself. For a single stanza this
is exact where no sibling can be taken for another. -/
theorem verifies_own_text_iff (R : XMPPStanza) (values : Set Str) :
    ((∀ s, (∀ v ∈ attrValues s, v ∈ values) → VerifiesItself s) ↔
      ∀ v ∈ values, fnmatch v v = true) ∧
    (Unambiguous R → (VerifiesItself R ↔ ∀ v ∈ attrValues R, fnmatch v v = true)) := by
  constructor
  · constructor
    · intro h v hv
      have hself := h (attrOnly v) (by simpa [attrOnly, attrValues, childValues] using hv)
      exact selfMatching_of_equal (attrOnly_unambiguous v) hself.equal v
        (attrValues_attr (s := attrOnly v) (a := ⟨"to".toList, v⟩) (by simp [attrOnly]))
    · intro h s hs
      exact verifiesItself_of_equal (equal_self s fun v hv => h v (hs v hv))
  · intro hR
    exact ⟨fun h => selfMatching_of_equal hR h.equal,
      fun h => verifiesItself_of_equal (equal_self R h)⟩

theorem plain_address_verified : VerifiesItself (attrOnly "buddy1@localhost/mobile".toList) :=
  ((verifies_own_text_iff _ ∅).2 (attrOnly_unambiguous _)).mpr (by
    simp only [attrOnly, attrValues, childValues, List.map_cons, List.map_nil, List.append_nil,
      List.mem_singleton]
    rintro v rfl
    decide +kernel)

/-- A nickname in brackets: as a pattern they stand for one character of the name. -/
theorem bracketed_nickname_not_verified :
    stanzasEqual (attrOnly "room@localhost/[away]".toList)
      (attrOnly "room@localhost/[away]".toList) ≠ 0 ∧
    (stanzasVerifyAny (fun s => s) (attrOnly "room@localhost/[away]".toList) true
      [attrOnly "room@localhost/[away]".toList]).1 = false ∧
    stanzasVerifyLast (fun s => s) (attrOnly "room@localhost/[away]".toList)
      [attrOnly "room@localhost/[away]".toList] = false := by
  decide +kernel

/-! ## More general templates -/

/-- All attribute values of the template have only the star as a wildcard. -/
def StarTemplate (t : XMPPStanza) : Prop := ∀ v ∈ attrValues t, StarOnly v

theorem StarTemplate.attr {t : XMPPStanza} (h : StarTemplate t) {a : XMPPAttr}
    (ha : a ∈ t.attrs) : StarOnly a.value := h _ (attrValues_attr ha)

theorem StarTemplate.child {t c : XMPPStanza} (h : StarTemplate t) (hc : c ∈ t.children) :
    StarTemplate c := fun _ hv => h _ (attrValues_child hc hv)

/-- At one node, what a first template accepts of a second it accepts of all that the
second accepts. -/
theorem NodeMatches.trans {t₁ t₂ r : XMPPStanza} (h₁ : StarTemplate t₁) (h₂ : StarTemplate t₂)
    (h : NodeMatches t₂ t₁) (h' : NodeMatches r t₂) : NodeMatches r t₁ where
  name := by
    rcases h.name with hstar | hname
    · exact Or.inl hstar
    · rw [hname]
      exact h'.name
  content := by
    rcases h.content with hnone | hempty | hstar | htext
    · exact Or.inl hnone
    · exact Or.inr (Or.inl hempty)
    · exact Or.inr (Or.inr (Or.inl hstar))
    · rw [htext]
      exact h'.content
  attrs := by
    intro a ha
    obtain ⟨b, hb, hba, hmatch⟩ := h.attrs a ha
    obtain ⟨c, hc, hcb, hmatch'⟩ := h'.attrs b hb
    exact ⟨c, hc, hcb.trans hba, fnmatch_trans (h₁.attr ha) (h₂.attr hb) hmatch hmatch'⟩

theorem stanzasEqual_trans {t₁ t₂ r : XMPPStanza} (h₁ : StarTemplate t₁) (h₂ : StarTemplate t₂)
    (h : stanzasEqual t₂ t₁ = 0) (h' : stanzasEqual r t₂ = 0) : stanzasEqual r t₁ = 0 := by
  induction t₁ using XMPPStanza.induction generalizing t₂ r with
  | mk name attrs children content ih =>
      rw [stanzasEqual_eq_zero] at h h' ⊢
      constructor
      · exact NodeMatches.trans h₁ h₂ h.1 h'.1
      · intro c₁ hc₁
        obtain ⟨c₂, hc₂, heq⟩ := h.2 c₁ hc₁
        obtain ⟨rc, hrc, heq'⟩ := h'.2 c₂ hc₂
        exact ⟨rc, hrc, ih c₁ hc₁ (h₁.child hc₁) (h₂.child hc₂) heq heq'⟩

/-- A template that matches another as a stanza succeeds wherever the other does. -/
theorem general_template_verifies {t₁ t₂ : XMPPStanza} (h₁ : StarTemplate t₁)
    (h₂ : StarTemplate t₂) (h : stanzasEqual t₂ t₁ = 0) :
    (∀ r, stanzasEqual r t₂ = 0 → stanzasEqual r t₁ = 0) ∧
    ∀ {α : Type} (view : α → XMPPStanza) (store : List α),
      (∀ clear clear', (stanzasVerifyAny view t₂ clear store).1 = true →
        (stanzasVerifyAny view t₁ clear' store).1 = true) ∧
      (stanzasVerifyLast view t₂ store = true → stanzasVerifyLast view t₁ store = true) := by
  have hequal : ∀ r, stanzasEqual r t₂ = 0 → stanzasEqual r t₁ = 0 :=
    fun r hr => stanzasEqual_trans h₁ h₂ h hr
  constructor
  · exact hequal
  · intro α view store
    constructor
    · intro clear clear' hany
      rw [stanzasVerifyAny_fst] at hany ⊢
      obtain ⟨r, hr, heq⟩ := hany
      exact ⟨r, hr, hequal _ heq⟩
    · intro hlast
      unfold stanzasVerifyLast at hlast ⊢
      rcases hl : store.getLast? with _ | r
      · rw [hl] at hlast
        exact hlast
      · rw [hl] at hlast
        simpa using hequal _ (by simpa using hlast)

/-- A template with `*` as its address against one with `*@localhost`. -/
theorem any_address_verifies_local_address :
    stanzasEqual (attrOnly "*@localhost".toList) (attrOnly "*".toList) = 0 ∧
    ∀ r, stanzasEqual r (attrOnly "*@localhost".toList) = 0 →
      stanzasEqual r (attrOnly "*".toList) = 0 :=
  have h : stanzasEqual (attrOnly "*@localhost".toList) (attrOnly "*".toList) = 0 := by
    decide +kernel
  ⟨h, (general_template_verifies
    (by simp [StarTemplate, attrOnly, attrValues, childValues, StarOnly, Unquoted])
    (by simp [StarTemplate, attrOnly, attrValues, childValues, StarOnly, Unquoted]) h).1⟩

end Stabber.StanzaTemplates
