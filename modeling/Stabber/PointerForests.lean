import Mathlib.Data.List.Nodup
import Mathlib.Data.List.Perm.Subperm
import Mathlib.Data.List.Range

/-!
# Forests of cells in a heap

Cells with lists of pointers to their children. A forest is given by its roots and by its
cells in the order in which a recursive function leaves them, and such a function, whose
recursion is bounded by fuel here, visits just these cells.
-/

namespace Stabber.PointerForests
variable {α : Type*}

/-- The cells below an address and the one there, children first. -/
def walk (look : α → Option (List α)) : ℕ → α → List α
  | 0, _ => []
  | n + 1, a =>
      match look a with
      | none => []
      | some children => children.flatMap (walk look n) ++ [a]

/-- These are the cells of the trees with these roots. -/
inductive Forest (look : α → Option (List α)) : List α → List α → Prop where
  | nil : Forest look [] []
  | cons {a : α} {children roots below rest : List α} (hlook : look a = some children)
      (hchildren : Forest look children below) (hroots : Forest look roots rest) :
      Forest look (a :: roots) (below ++ a :: rest)

namespace Forest
variable {look look' : α → Option (List α)} {a : α} {children roots roots' cells cells' : List α}

theorem tree (hlook : look a = some children) (h : Forest look children cells) :
    Forest look [a] (cells ++ [a]) := .cons hlook h .nil

theorem append (h : Forest look roots cells) (h' : Forest look roots' cells') :
    Forest look (roots ++ roots') (cells ++ cells') := by
  induction h with
  | nil => exact h'
  | @cons a children roots below rest hlook hchildren hroots _ ih =>
      rw [List.append_assoc]
      exact .cons hlook hchildren ih

theorem split (h : Forest look (roots ++ roots') cells) : ∃ before after,
    cells = before ++ after ∧ Forest look roots before ∧ Forest look roots' after := by
  induction roots generalizing cells with
  | nil => exact ⟨[], cells, rfl, .nil, h⟩
  | cons a roots ih =>
      rw [List.cons_append] at h
      cases h with
      | @cons _ children _ below rest hlook hchildren hrest =>
          obtain ⟨before, after, rfl, hbefore, hafter⟩ := ih hrest
          refine ⟨below ++ a :: before, after, ?_, .cons hlook hchildren hbefore, hafter⟩
          rw [List.append_assoc, List.cons_append]

/-- What is written elsewhere does not matter. -/
theorem congr (h : Forest look roots cells) (hsame : ∀ a ∈ cells, look' a = look a) :
    Forest look' roots cells := by
  induction h with
  | nil => exact .nil
  | @cons a children roots below rest hlook _ _ ih ih' =>
      have hself : look' a = some children := by
        rw [hsame a (List.mem_append_right _ List.mem_cons_self)]
        exact hlook
      refine .cons hself (ih fun b hb => hsame b (List.mem_append_left _ hb)) (ih' fun b hb => ?_)
      exact hsame b (List.mem_append_right _ (List.mem_cons_of_mem a hb))

theorem root_mem (h : Forest look roots cells) (ha : a ∈ roots) : a ∈ cells := by
  induction h with
  | nil => cases ha
  | cons _ _ _ _ ih =>
      rcases List.mem_cons.mp ha with rfl | ha
      · exact List.mem_append_right _ List.mem_cons_self
      · exact List.mem_append_right _ (List.mem_cons_of_mem _ (ih ha))

/-- Nothing below the cells is missing. -/
theorem closed (h : Forest look roots cells) (ha : a ∈ cells) :
    ∃ children, look a = some children ∧ children ⊆ cells := by
  induction h with
  | nil => cases ha
  | @cons b children roots below rest hlook hchildren _ ih ih' =>
      rcases List.mem_append.mp ha with ha | ha
      · obtain ⟨children', hlook', hsub⟩ := ih ha
        exact ⟨children', hlook', fun c hc => List.mem_append_left _ (hsub hc)⟩
      rcases List.mem_cons.mp ha with rfl | ha
      · exact ⟨children, hlook, fun c hc => List.mem_append_left _ (hchildren.root_mem hc)⟩
      · obtain ⟨children', hlook', hsub⟩ := ih' ha
        refine ⟨children', hlook', fun c hc => List.mem_append_right _ ?_⟩
        exact List.mem_cons_of_mem b (hsub hc)

/-- One of the trees is taken out. -/
theorem take (h : Forest look (roots ++ a :: roots') cells) : ∃ before taken after,
    cells = before ++ (taken ++ after) ∧ Forest look roots before ∧ Forest look [a] taken ∧
      Forest look roots' after := by
  obtain ⟨before, rest, rfl, hbefore, hrest⟩ := h.split
  have hfirst : Forest look ([a] ++ roots') rest := hrest
  obtain ⟨taken, after, rfl, htaken, hafter⟩ := hfirst.split
  exact ⟨before, taken, after, rfl, hbefore, htaken, hafter⟩

/-- A walk with enough fuel visits the cells. -/
theorem walk_eq (h : Forest look roots cells) {n : ℕ} (hn : cells.length ≤ n) :
    roots.flatMap (walk look n) = cells := by
  induction h generalizing n with
  | nil => rfl
  | @cons a children roots below rest hlook _ _ ih ih' =>
      rw [List.length_append, List.length_cons] at hn
      obtain ⟨m, rfl⟩ : ∃ m, n = m + 1 := ⟨n - 1, by omega⟩
      have hbelow := ih (n := m) (by omega)
      have hrest := ih' (n := m + 1) (by omega)
      rw [List.flatMap_cons, hrest, walk, hlook]
      dsimp only
      rw [hbelow, List.append_assoc, List.singleton_append]

end Forest

/-- Different addresses in a heap of this size. -/
theorem length_le_of_nodup {cells : List ℕ} {n : ℕ} (hdistinct : cells.Nodup)
    (hlt : ∀ a ∈ cells, a < n) : cells.length ≤ n := by
  have hsub : cells ⊆ List.range n := fun a ha => List.mem_range.mpr (hlt a ha)
  have hlength := (hdistinct.subperm hsub).length_le
  rw [List.length_range] at hlength
  exact hlength

end Stabber.PointerForests
