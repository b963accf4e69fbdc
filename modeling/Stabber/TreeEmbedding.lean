import Mathlib.Tactic.Common
import Mathlib.Data.Nat.Notation
import Mathlib.Tactic.Choose
import Mathlib.Data.List.Induction

/-!
# Local search and global embeddings of trees

Two kinds of finite trees are given by their lists of children. A relation that
looks for a partner of each child on its own, level by level, holds exactly when
one map of all positions respects the root, the edges and the nodes.
-/

namespace Stabber.TreeEmbedding

section Positions
variable {A : Type*} (kids : A → List A)

/-- The node at a position, a position being the list of child indices from the
root. -/
def at? : A → List ℕ → Option A
  | t, [] => some t
  | t, i :: p => (kids t)[i]?.bind fun c => at? c p

@[simp] theorem at?_nil (t : A) : at? kids t [] = some t := rfl

@[simp] theorem at?_cons (t : A) (i : ℕ) (p : List ℕ) :
    at? kids t (i :: p) = (kids t)[i]?.bind fun c => at? kids c p := rfl

theorem at?_append (t : A) (p q : List ℕ) :
    at? kids t (p ++ q) = (at? kids t p).bind fun u => at? kids u q := by
  induction p generalizing t with
  | nil => rfl
  | cons i p ih =>
      simp only [List.cons_append, at?_cons]
      cases (kids t)[i]? with
      | none => rfl
      | some c => exact ih c

/-- Every position on the way to a node is one. -/
theorem at?_isSome_of_append {t : A} {p q : List ℕ} (h : (at? kids t (p ++ q)).isSome) :
    (at? kids t p).isSome := by
  rw [at?_append] at h
  cases hp : at? kids t p with
  | none => simp [hp] at h
  | some u => rfl

end Positions

variable {R T : Type*} (kidsR : R → List R) (kidsT : T → List T) (ok : R → T → Prop)

/-- A map of positions that sends the root to the root, children of a node to
children of its image, and every node to one that it accepts. -/
structure Embedding (r : R) (t : T) (f : List ℕ → List ℕ) : Prop where
  root : f [] = []
  child : ∀ p i, (at? kidsT t (p ++ [i])).isSome → ∃ j, f (p ++ [i]) = f p ++ [j]
  node : ∀ p u, at? kidsT t p = some u → ∃ v, at? kidsR r (f p) = some v ∧ ok v u

variable {kidsR kidsT ok}

theorem Embedding.accepts {r : R} {t : T} {f : List ℕ → List ℕ}
    (h : Embedding kidsR kidsT ok r t f) : ok r t := by
  obtain ⟨v, hv, hok⟩ := h.node [] t rfl
  rw [h.root, at?_nil, Option.some.injEq] at hv
  exact hv ▸ hok

/-- Below the first child taken, the whole map stays below one child. -/
theorem Embedding.below {r : R} {t : T} {f : List ℕ → List ℕ}
    (h : Embedding kidsR kidsT ok r t f) {i j : ℕ} (hi : f [i] = [j]) (p : List ℕ)
    (hp : (at? kidsT t (i :: p)).isSome) : ∃ q, f (i :: p) = j :: q := by
  induction p using List.reverseRecOn with
  | nil => exact ⟨[], hi⟩
  | append_singleton p k ih =>
      have hshort : (at? kidsT t (i :: p)).isSome :=
        at?_isSome_of_append kidsT (p := i :: p) (q := [k]) hp
      obtain ⟨q, hq⟩ := ih hshort
      obtain ⟨l, hl⟩ := h.child (i :: p) k hp
      exact ⟨q ++ [l], by rw [← List.cons_append, hl, hq, List.cons_append]⟩

/-- An embedding restricts to the subtree at a child. -/
theorem Embedding.restrict {r : R} {t : T} {f : List ℕ → List ℕ}
    (h : Embedding kidsR kidsT ok r t f) {i : ℕ} {tc : T} (hi : (kidsT t)[i]? = some tc) :
    ∃ rc ∈ kidsR r, ∃ g, Embedding kidsR kidsT ok rc tc g := by
  have hat : ∀ p, at? kidsT t (i :: p) = at? kidsT tc p := fun p => by simp [hi]
  obtain ⟨j, hj⟩ := h.child [] i (by simp [hi])
  rw [h.root, List.nil_append, List.nil_append] at hj
  have hsome : (kidsR r)[j]?.isSome := by
    obtain ⟨v, hv, _⟩ := h.node [i] tc (by simp [hi])
    rw [hj, at?_cons] at hv
    cases hr : (kidsR r)[j]? with
    | none => simp [hr] at hv
    | some rc => rfl
  obtain ⟨rc, hrc⟩ := Option.isSome_iff_exists.mp hsome
  refine ⟨rc, List.mem_of_getElem? hrc, fun p => (f (i :: p)).tail, ?_, ?_, ?_⟩
  · simp [hj]
  · intro p k hp
    rw [← hat] at hp
    obtain ⟨l, hl⟩ := h.child (i :: p) k hp
    obtain ⟨q, hq⟩ := h.below hj p (at?_isSome_of_append kidsT (p := i :: p) (q := [k]) hp)
    refine ⟨l, ?_⟩
    change (f (i :: p ++ [k])).tail = (f (i :: p)).tail ++ [l]
    rw [hl, hq, List.cons_append, List.tail_cons, List.tail_cons]
  · intro p u hu
    rw [← hat] at hu
    obtain ⟨v, hv, hok⟩ := h.node (i :: p) u hu
    obtain ⟨q, hq⟩ := h.below hj p (by simp [hu])
    refine ⟨v, ?_, hok⟩
    simpa [hq, hrc] using hv

/-- Embeddings of all child subtrees glue to one of the tree. -/
theorem Embedding.glue {r : R} {t : T} (hok : ok r t)
    (h : ∀ tc ∈ kidsT t, ∃ rc ∈ kidsR r, ∃ g, Embedding kidsR kidsT ok rc tc g) :
    ∃ f, Embedding kidsR kidsT ok r t f := by
  have hex : ∀ i : Fin (kidsT t).length, ∃ (j : ℕ) (rc : R) (g : List ℕ → List ℕ),
      (kidsR r)[j]? = some rc ∧ Embedding kidsR kidsT ok rc (kidsT t)[i] g := by
    intro i
    obtain ⟨rc, hrc, g, hg⟩ := h (kidsT t)[i] (List.getElem_mem i.2)
    obtain ⟨j, hj⟩ := List.getElem?_of_mem hrc
    exact ⟨j, rc, g, hj, hg⟩
  choose j rc g hrc hg using hex
  let f : List ℕ → List ℕ
    | [] => []
    | i :: p => if hi : i < (kidsT t).length then j ⟨i, hi⟩ :: g ⟨i, hi⟩ p else []
  have hf : ∀ {i : ℕ} (hi : i < (kidsT t).length) (p : List ℕ),
      f (i :: p) = j ⟨i, hi⟩ :: g ⟨i, hi⟩ p := fun hi p => by simp only [f, hi, dif_pos]
  refine ⟨f, rfl, ?_, ?_⟩
  · rintro (_ | ⟨i, p⟩) k hp
    · have hk : k < (kidsT t).length := by
        by_contra hk
        simp [List.getElem?_eq_none (Nat.le_of_not_lt hk)] at hp
      exact ⟨j ⟨k, hk⟩, by simp [hf hk, (hg ⟨k, hk⟩).root, f]⟩
    · have hi : i < (kidsT t).length := by
        by_contra hi
        simp [List.getElem?_eq_none (Nat.le_of_not_lt hi)] at hp
      rw [List.cons_append, at?_cons, List.getElem?_eq_getElem hi, Option.bind_some] at hp
      obtain ⟨l, hl⟩ := (hg ⟨i, hi⟩).child p k hp
      exact ⟨l, by rw [List.cons_append, hf hi, hf hi, hl, List.cons_append]⟩
  · rintro (_ | ⟨i, p⟩) u hu
    · rw [at?_nil, Option.some.injEq] at hu
      exact ⟨r, rfl, hu ▸ hok⟩
    · have hi : i < (kidsT t).length := by
        by_contra hi
        simp [List.getElem?_eq_none (Nat.le_of_not_lt hi)] at hu
      rw [at?_cons, List.getElem?_eq_getElem hi, Option.bind_some] at hu
      obtain ⟨v, hv, hvu⟩ := (hg ⟨i, hi⟩).node p u hu
      exact ⟨v, by simpa [hf hi, hrc] using hv, hvu⟩

/-- A relation that searches level by level decides whether an embedding exists.
The trees are finite in the sense that `induct` holds. -/
theorem local_iff_embedding (rel : R → T → Prop)
    (induct : ∀ P : T → Prop, (∀ t, (∀ c ∈ kidsT t, P c) → P t) → ∀ t, P t)
    (step : ∀ r t, rel r t ↔ ok r t ∧ ∀ tc ∈ kidsT t, ∃ rc ∈ kidsR r, rel rc tc) (r : R) (t : T) :
    rel r t ↔ ∃ f, Embedding kidsR kidsT ok r t f := by
  refine induct (fun t => ∀ r, rel r t ↔ ∃ f, Embedding kidsR kidsT ok r t f) ?_ t r
  intro t ih r
  rw [step]
  constructor
  · rintro ⟨hok, hkids⟩
    apply Embedding.glue hok
    intro tc htc
    obtain ⟨rc, hrc, hrel⟩ := hkids tc htc
    exact ⟨rc, hrc, (ih tc htc rc).mp hrel⟩
  · rintro ⟨f, hf⟩
    refine ⟨hf.accepts, ?_⟩
    intro tc htc
    obtain ⟨i, hi⟩ := List.getElem?_of_mem htc
    obtain ⟨rc, hrc, hg⟩ := hf.restrict hi
    exact ⟨rc, hrc, (ih tc htc rc).mpr hg⟩

end Stabber.TreeEmbedding
