import Mathlib.Data.List.Forall2
import Mathlib.Data.List.Perm.Basic

/-!
# Demands served one after the other

Each demand takes one item that meets it out of a list, and whichever of them it takes may
be the one that a later demand needs. Where every demand is contained in each later one or
disjoint from it, that does no harm: an item can be exchanged for another one.
-/

namespace Stabber.FirstFit
variable {α : Type*}

/-- The second demand is more general than the first, or has nothing to do with it. -/
def Nested (p q : α → Prop) : Prop := (∀ x, p x → q x) ∨ ∀ x, p x → ¬ q x

/-- There are different items of the list for all demands. -/
def Servable (demands : List (α → Prop)) (items : List α) : Prop :=
  ∃ picks rest, List.Forall₂ (fun p x => p x) demands picks ∧ items.Perm (picks ++ rest)

variable {p : α → Prop} {demands : List (α → Prop)} {items before after : List α} {x y : α}

theorem servable_nil (items : List α) : Servable [] items := ⟨[], items, .nil, .refl _⟩

/-- More items do no harm. -/
theorem Servable.grow (h : Servable demands items) (new : List α) :
    Servable demands (items ++ new) := by
  obtain ⟨picks, rest, hpicks, hperm⟩ := h
  refine ⟨picks, rest ++ new, hpicks, ?_⟩
  rw [← List.append_assoc]
  exact hperm.append_right new

/-- The next demand finds an item. -/
theorem Servable.found (h : Servable (p :: demands) items) : ∃ x ∈ items, p x := by
  obtain ⟨picks, rest, hpicks, hperm⟩ := h
  cases hpicks with
  | @cons _ x _ xs hx hxs =>
      refine ⟨x, ?_, hx⟩
      rw [hperm.mem_iff]
      exact List.mem_cons_self

/-- One demand is served by any item that meets it, if the others are by what is left. -/
theorem Servable.cons (h : Servable demands (before ++ after)) (hy : p y) :
    Servable (p :: demands) (before ++ y :: after) := by
  obtain ⟨picks, rest, hpicks, hperm⟩ := h
  exact ⟨y :: picks, rest, .cons hy hpicks, List.perm_middle.trans (hperm.cons y)⟩

/-- The items picked for two lists of demands. -/
theorem forall₂_split {picks₁ picks₂ : List α}
    (h : List.Forall₂ (fun p x => p x) demands (picks₁ ++ y :: picks₂)) :
    ∃ demands₁ q demands₂, demands = demands₁ ++ q :: demands₂ ∧
      List.Forall₂ (fun p x => p x) demands₁ picks₁ ∧ q y ∧
      List.Forall₂ (fun p x => p x) demands₂ picks₂ := by
  induction picks₁ generalizing demands with
  | nil =>
      cases h with
      | cons hy hrest => exact ⟨[], _, _, rfl, .nil, hy, hrest⟩
  | cons z picks₁ ih =>
      cases h with
      | @cons r _ _ _ hz hrest =>
          obtain ⟨demands₁, q, demands₂, rfl, h₁, hq, h₂⟩ := ih hrest
          exact ⟨r :: demands₁, q, demands₂, rfl, .cons hz h₁, hq, h₂⟩

/-- Whichever item the most special demand takes, the others can still be served: if it was
picked for one of them, that one is more general and gets the other item instead. -/
theorem Servable.take (h : Servable (p :: demands) (before ++ y :: after))
    (hnested : ∀ q ∈ demands, Nested p q) (hy : p y) : Servable demands (before ++ after) := by
  obtain ⟨picks, rest, hpicks, hperm⟩ := h
  cases hpicks with
  | @cons _ x _ xs hx hxs =>
      have hfront : (y :: (before ++ after)).Perm (x :: (xs ++ rest)) :=
        List.perm_middle.symm.trans hperm
      have hmem : y ∈ x :: (xs ++ rest) := hfront.subset List.mem_cons_self
      rcases List.mem_cons.mp hmem with rfl | hmem
      · exact ⟨xs, rest, hxs, hfront.cons_inv⟩
      · rcases List.mem_append.mp hmem with hpicked | hrest
        · obtain ⟨xs₁, xs₂, rfl⟩ := List.append_of_mem hpicked
          obtain ⟨demands₁, q, demands₂, rfl, h₁, hq, h₂⟩ := forall₂_split hxs
          have hgeneral : ∀ z, p z → q z := by
            refine (hnested q ?_).resolve_right fun hdisjoint => hdisjoint y hy hq
            exact List.mem_append_right _ List.mem_cons_self
          refine ⟨xs₁ ++ x :: xs₂, rest, List.rel_append h₁ (.cons (hgeneral x hx) h₂), ?_⟩
          have hswap : (x :: (xs₁ ++ y :: xs₂ ++ rest)).Perm
              (y :: (xs₁ ++ x :: xs₂ ++ rest)) := by
            rw [List.append_assoc, List.append_assoc, List.cons_append, List.cons_append]
            calc
              (x :: (xs₁ ++ y :: (xs₂ ++ rest))).Perm (x :: y :: (xs₁ ++ (xs₂ ++ rest))) :=
                List.perm_middle.cons x
              List.Perm _ (y :: x :: (xs₁ ++ (xs₂ ++ rest))) := .swap _ _ _
              List.Perm _ (y :: (xs₁ ++ x :: (xs₂ ++ rest))) := List.perm_middle.symm.cons y
          exact (hfront.trans hswap).cons_inv
        · obtain ⟨rest₁, rest₂, rfl⟩ := List.append_of_mem hrest
          refine ⟨xs, x :: (rest₁ ++ rest₂), hxs, ?_⟩
          have hswap : (x :: (xs ++ (rest₁ ++ y :: rest₂))).Perm
              (y :: (xs ++ x :: (rest₁ ++ rest₂))) := by
            calc
              (x :: (xs ++ (rest₁ ++ y :: rest₂))).Perm (x :: (xs ++ y :: (rest₁ ++ rest₂))) :=
                (List.perm_middle.append_left xs).cons x
              List.Perm _ (x :: y :: (xs ++ (rest₁ ++ rest₂))) := List.perm_middle.cons x
              List.Perm _ (y :: x :: (xs ++ (rest₁ ++ rest₂))) := .swap _ _ _
              List.Perm _ (y :: (xs ++ x :: (rest₁ ++ rest₂))) := List.perm_middle.symm.cons y
          exact (hfront.trans hswap).cons_inv

end Stabber.FirstFit
