import Stabber.Stanza
import Stabber.Fnmatch
import Mathlib.Data.Int.Notation

/-!
# The store of received stanzas

The matcher and the store operations of `stanzas.c`. The store is a list of
pointers; `view` is what a pointer shows, so that the operations apply to plain
stanzas and to stanzas that carry the place of their arrival. Every operation is
one section under `stanzas_lock`.
-/

namespace Stabber.Stanzas
open XmlDocument Stanza Fnmatch

/-- The first element that the comparison with `data` calls equal. -/
def gListFindCustom {α β : Type} (list : List α) (data : β) (func : α → β → ℤ) : Option α :=
  list.find? fun element => func element data = 0

def xmppAttrEqual (received_attr template_attr : XMPPAttr) : ℤ :=
  if template_attr.name ≠ received_attr.name then -1
  else if fnmatch template_attr.value received_attr.value then 0
  else -1

/-- The template gives content that is neither the wildcard nor that received. -/
def contentDiffers (received template : Option Str) : Bool :=
  match template with
  | some text => text ≠ [] && received ≠ some text && text ≠ "*".toList
  | none => false

mutual
def stanzasEqual (received : XMPPStanza) : XMPPStanza → ℤ
  | ⟨name, attrs, children, content⟩ =>
      if name ≠ "*".toList ∧ name ≠ received.name then -1
      else if contentDiffers received.content content then -1
      else if !attrs.all fun t => (gListFindCustom received.attrs t xmppAttrEqual).isSome then -1
      else if !childrenFound received.children children then -1
      else 0

/-- Every child of the template is looked for in all received children. -/
def childrenFound (received : List XMPPStanza) : List XMPPStanza → Bool
  | [] => true
  | t :: ts =>
      (received.find? fun r => stanzasEqual r t = 0).isSome && childrenFound received ts
end

section Store
variable {α : Type} (view : α → XMPPStanza)

def stanzasAdd (received_stanzas : List α) (stanza : α) : List α := received_stanzas ++ [stanza]

def stanzasContainsId (received_stanzas : List α) (id_filter : Str) : Bool :=
  received_stanzas.any fun s =>
    match stanzaGetId (some (view s)) with
    | some id => fnmatch id_filter ((view s).name ++ ":".toList ++ id)
    | none => false

/-- The result and the store afterwards. -/
def stanzasVerifyAny (template : XMPPStanza) (clear : Bool) : List α → Bool × List α
  | [] => (false, [])
  | received :: rest =>
      if stanzasEqual (view received) template = 0 then
        (true, if clear then rest else received :: rest)
      else
        let (result, rest) := stanzasVerifyAny template clear rest
        (result, received :: rest)

def stanzasVerifyLast (template : XMPPStanza) (received_stanzas : List α) : Bool :=
  match received_stanzas.getLast? with
  | some received => stanzasEqual (view received) template = 0
  | none => false

/-- The search stops at the first stanza with the id, whether or not it has a
`to` attribute. -/
def stanzasGetToById (id : Option Str) (received_stanzas : List α) : Option Str :=
  (received_stanzas.find? fun s =>
    (stanzaGetId (some (view s))).isSome && stanzaGetId (some (view s)) = id).bind fun s =>
      stanzaGetAttr (view s) "to".toList

end Store

/-! ## The matcher -/

theorem childrenFound_iff (received template : List XMPPStanza) :
    childrenFound received template = true ↔
      ∀ t ∈ template, ∃ r ∈ received, stanzasEqual r t = 0 := by
  induction template with
  | nil => simp [childrenFound]
  | cons t ts ih => simp [childrenFound, ih]

theorem xmppAttrEqual_eq_zero (r t : XMPPAttr) :
    xmppAttrEqual r t = 0 ↔ r.name = t.name ∧ fnmatch t.value r.value = true := by
  unfold xmppAttrEqual
  split_ifs with h₁ h₂
  · simp only [false_iff, not_and]
    intro h
    exact (h₁ h.symm).elim
  · have hname : t.name = r.name := by simpa using h₁
    simp [hname, h₂]
  · simp [h₂]

theorem contentDiffers_eq_false (received template : Option Str) :
    contentDiffers received template = false ↔
      template = none ∨ template = some [] ∨ template = some "*".toList ∨ template = received := by
  cases template with
  | none => simp [contentDiffers]
  | some text =>
      simp only [contentDiffers, Bool.and_eq_false_iff, decide_eq_false_iff_not, not_not,
        Option.some.injEq, reduceCtorEq, false_or]
      constructor
      · rintro ((h | h) | h)
        · exact Or.inl h
        · exact Or.inr (Or.inr h.symm)
        · exact Or.inr (Or.inl h)
      · rintro (h | h | h)
        · exact Or.inl (Or.inl h)
        · exact Or.inr h
        · exact Or.inl (Or.inr h.symm)

/-- What the matcher asks of two stanzas, their children left aside. -/
structure NodeMatches (r t : XMPPStanza) : Prop where
  name : t.name = "*".toList ∨ t.name = r.name
  content : t.content = none ∨ t.content = some [] ∨ t.content = some "*".toList ∨
    t.content = r.content
  attrs : ∀ a ∈ t.attrs, ∃ b ∈ r.attrs, b.name = a.name ∧ fnmatch a.value b.value = true

/-- One level of the matcher. -/
theorem stanzasEqual_eq_zero (r t : XMPPStanza) :
    stanzasEqual r t = 0 ↔
      NodeMatches r t ∧ ∀ tc ∈ t.children, ∃ rc ∈ r.children, stanzasEqual rc tc = 0 := by
  rcases t with ⟨name, attrs, children, content⟩
  have hattrs : (attrs.all fun a => (gListFindCustom r.attrs a xmppAttrEqual).isSome) = true ↔
      ∀ a ∈ attrs, ∃ b ∈ r.attrs, b.name = a.name ∧ fnmatch a.value b.value = true := by
    simp [gListFindCustom, xmppAttrEqual_eq_zero]
  rw [stanzasEqual, ← childrenFound_iff]
  split_ifs with h₁ h₂ h₃ h₄
  · simp only [false_iff, not_and]
    rintro ⟨h, -, -⟩
    exact (h.elim h₁.1 h₁.2).elim
  · simp only [false_iff, not_and]
    rintro ⟨-, h, -⟩
    rw [(contentDiffers_eq_false _ _).mpr h] at h₂
    simp at h₂
  · simp only [false_iff, not_and]
    rintro ⟨-, -, h⟩
    rw [hattrs.mpr h] at h₃
    simp at h₃
  · simp only [false_iff, not_and]
    intro _ h
    simp [h] at h₄
  · simp only [true_iff]
    refine ⟨⟨?_, ?_, ?_⟩, by simpa using h₄⟩
    · by_cases hn : name = "*".toList
      · exact Or.inl hn
      · exact Or.inr (not_not.mp fun h => h₁ ⟨hn, h⟩)
    · exact (contentDiffers_eq_false _ _).mp (by simpa using h₂)
    · rw [Bool.not_eq_true', Bool.not_eq_false] at h₃
      exact hattrs.mp h₃

/-! ## The store operations -/

section Store
variable {α β : Type} (view : α → XMPPStanza) (template : XMPPStanza) (clear : Bool)

/-- Either no stanza matches and nothing happens, or the first that matches is
found, and removed with `clear`. -/
theorem stanzasVerifyAny_cases (store : List α) :
    ((∀ r ∈ store, stanzasEqual (view r) template ≠ 0) ∧
      stanzasVerifyAny view template clear store = (false, store)) ∨
    ∃ before r after, store = before ++ r :: after ∧
      (∀ x ∈ before, stanzasEqual (view x) template ≠ 0) ∧
      stanzasEqual (view r) template = 0 ∧
      stanzasVerifyAny view template clear store =
        (true, if clear then before ++ after else store) := by
  induction store with
  | nil => exact Or.inl ⟨by simp, rfl⟩
  | cons r rest ih =>
      by_cases h : stanzasEqual (view r) template = 0
      · refine Or.inr ⟨[], r, rest, rfl, by simp, h, ?_⟩
        simp [stanzasVerifyAny, h]
      · rcases ih with ⟨hnone, hres⟩ | ⟨before, s, after, rfl, hbefore, hs, hres⟩
        · refine Or.inl ⟨?_, by simp [stanzasVerifyAny, h, hres]⟩
          intro x hx
          rcases List.mem_cons.mp hx with rfl | hx
          · exact h
          · exact hnone x hx
        · refine Or.inr ⟨r :: before, s, after, rfl, ?_, hs, ?_⟩
          · intro x hx
            rcases List.mem_cons.mp hx with rfl | hx
            · exact h
            · exact hbefore x hx
          · cases clear <;> simp [stanzasVerifyAny, h, hres]

/-- The verdict does not depend on `clear`: it says whether some stanza matches. -/
theorem stanzasVerifyAny_fst (store : List α) :
    (stanzasVerifyAny view template clear store).1 = true ↔
      ∃ r ∈ store, stanzasEqual (view r) template = 0 := by
  rcases stanzasVerifyAny_cases view template clear store with
    ⟨hnone, h⟩ | ⟨before, r, after, rfl, _, hr, h⟩
  · rw [h]
    constructor
    · intro hf
      cases hf
    · intro hex
      obtain ⟨r, hr, heq⟩ := hex
      exact (hnone r hr heq).elim
  · rw [h]
    exact ⟨fun _ => ⟨r, by simp, hr⟩, fun _ => rfl⟩

theorem stanzasVerifyAny_keep (store : List α) :
    (stanzasVerifyAny view template false store).2 = store := by
  rcases stanzasVerifyAny_cases view template false store with
    ⟨_, h⟩ | ⟨before, r, after, _, _, _, h⟩
  · rw [h]
  · rw [h]
    rfl

/-- What a pointer carries besides its stanza plays no part. -/
theorem stanzasVerifyAny_map (f : β → α) (store : List β) :
    stanzasVerifyAny view template clear (store.map f) =
      ((stanzasVerifyAny (view ∘ f) template clear store).1,
        (stanzasVerifyAny (view ∘ f) template clear store).2.map f) := by
  induction store with
  | nil => rfl
  | cons r rest ih =>
      by_cases h : stanzasEqual (view (f r)) template = 0
      · cases clear <;> simp [stanzasVerifyAny, h]
      · simp [stanzasVerifyAny, h, ih]

end Store

end Stabber.Stanzas
