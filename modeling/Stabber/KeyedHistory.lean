import Mathlib.Data.List.Induction

/-!
# Entries given under keys

A table in which an entry given under a key puts what it makes there, beside the list of
all entries given. Some entries are good. Entries that are not good replace nothing when
they are only given where nothing is yet, or where they change nothing.
-/

namespace Stabber.KeyedHistory

variable {κ τ β : Type} (good : τ → Prop) (made : κ → τ → Option β)

/-- What an entry has made stays, as long as no good entry is given under its key. -/
def Kept (entries : List (κ × τ)) (table : κ → Option β) : Prop :=
  ∀ before k t after b, entries = before ++ (k, t) :: after → made k t = some b →
    (∀ e ∈ after, e.1 = k → ¬ good e.2) → table k = some b

/-- What is in the table has been made by an entry after which no good one was given. -/
def Known (entries : List (κ × τ)) (table : κ → Option β) : Prop :=
  ∀ k b, table k = some b → ∃ before t after, entries = before ++ (k, t) :: after ∧
    made k t = some b ∧ ∀ e ∈ after, e.1 = k → ¬ good e.2

theorem kept_nil (table : κ → Option β) : Kept good made [] table := by
  intro before k t after b h
  cases before <;> cases h

theorem known_empty {entries : List (κ × τ)} {table : κ → Option β}
    (h : ∀ k, table k = none) : Known good made entries table := by
  intro k b hb
  rw [h k] at hb
  cases hb

variable {good made} [DecidableEq κ] {entries : List (κ × τ)} {table : κ → Option β} {k : κ} {t : τ}

/-- The table after one more entry. -/
def put (made : κ → τ → Option β) (table : κ → Option β) (k : κ) (t : τ) : κ → Option β :=
  fun j => if j = k then made k t else table j

theorem Known.put (h : Known good made entries table) :
    Known good made (entries ++ [(k, t)]) (put made table k t) := by
  intro j b hb
  unfold KeyedHistory.put at hb
  split_ifs at hb with hj
  · rw [hj]
    exact ⟨entries, t, [], rfl, hb, by simp⟩
  · obtain ⟨before, u, after, hentries, hmade, hbad⟩ := h j b hb
    refine ⟨before, u, after ++ [(k, t)], by rw [hentries]; simp, hmade, ?_⟩
    intro e he hej
    rcases List.mem_append.mp he with he | he
    · exact hbad e he hej
    · rw [List.mem_singleton.mp he] at hej
      exact (hj hej.symm).elim

/-- A good entry may be given anywhere, another one only where it replaces nothing. -/
theorem Kept.put (h : Kept good made entries table)
    (hok : good t ∨ table k = none ∨ table k = made k t) :
    Kept good made (entries ++ [(k, t)]) (put made table k t) := by
  intro before j u after b hentries hmade hbad
  unfold KeyedHistory.put
  rcases List.eq_nil_or_concat after with hnil | ⟨after', e, hafter⟩
  · -- the new entry itself
    rw [hnil] at hentries
    have hlast := (List.append_inj' hentries rfl).2
    injection hlast with hpair
    injection hpair with hk ht
    rw [← hk, ← ht] at hmade
    rw [← hk, if_pos rfl, hmade]
  · rw [hafter, List.concat_eq_append] at hentries hbad
    have hsplit : entries ++ [(k, t)] = (before ++ (j, u) :: after') ++ [e] := by
      rw [hentries, List.append_assoc, List.cons_append]
    obtain ⟨hfront, hlast⟩ := List.append_inj' hsplit rfl
    have hold := h before j u after' b hfront hmade fun x hx =>
      hbad x (List.mem_append_left _ hx)
    split_ifs with hj
    · -- under the same key it is not good
      have hnot : ¬ good t := by
        have hbad' := hbad e (by simp)
        injection hlast with hpair
        rw [← hpair] at hbad'
        exact hbad' hj.symm
      rw [hj] at hold
      have hsame : table k = made k t := by
        rcases hok with hgood | hnone | hsame
        · exact (hnot hgood).elim
        · rw [hnone] at hold
          cases hold
        · exact hsame
      rw [← hsame, hold]
    · exact hold

/-- Where it does replace something, what was there is not kept. -/
theorem not_kept_put (h : Known good made entries table) (hbad : ¬ good t)
    (hsome : table k ≠ none) (hdiff : table k ≠ made k t) :
    ¬ Kept good made (entries ++ [(k, t)]) (put made table k t) := by
  intro hkept
  obtain ⟨b, hb⟩ := Option.ne_none_iff_exists'.mp hsome
  obtain ⟨before, u, after, hentries, hmade, hafter⟩ := h k b hb
  have hold := hkept before k u (after ++ [(k, t)]) b (by rw [hentries]; simp) hmade (by
    intro e he hek
    rcases List.mem_append.mp he with he | he
    · exact hafter e he hek
    · rw [List.mem_singleton.mp he]
      exact hbad)
  rw [KeyedHistory.put, if_pos rfl, ← hb] at hold
  exact hdiff hold.symm

end Stabber.KeyedHistory
