import Mathlib.Tactic.Common
import Mathlib.Algebra.Ring.Int.Defs
import Mathlib.Algebra.Ring.Nat

/-!
# Documents as trees and as event sequences

A document is a tree of elements and single characters. Character data is kept
one character at a time, so a document has one tree and one token sequence no
matter how a parser cuts its character data. An event sequence is what a push
parser reports: its `data` events carry any non-empty run of characters.
-/

namespace Stabber.XmlDocument

abbrev Str := List Char

inductive Token where
  | start (name : Str) (attrs : List (Str × Str))
  | stop (name : Str)
  | char (c : Char)
deriving Repr, DecidableEq

inductive Event where
  | start (name : Str) (attrs : List (Str × Str))
  | stop (name : Str)
  | data (text : Str)
deriving Repr, DecidableEq

def Event.tokens : Event → List Token
  | .start n as => [.start n as]
  | .stop n => [.stop n]
  | .data s => s.map .char

def Token.event : Token → Event
  | .start n as => .start n as
  | .stop n => .stop n
  | .char c => .data [c]

/-- The events report exactly these tokens. Character data may be cut anywhere,
but no piece is empty. -/
structure Reports (es : List Event) (ts : List Token) : Prop where
  pieces : ∀ e ∈ es, e ≠ .data []
  tokens : es.flatMap Event.tokens = ts

@[simp] theorem Token.event_tokens (t : Token) : t.event.tokens = [t] := by
  cases t <;> rfl

@[simp] theorem flatMap_map_event (ts : List Token) :
    (ts.map Token.event).flatMap Event.tokens = ts := by
  induction ts with
  | nil => rfl
  | cons t ts ih => simp only [List.map_cons, List.flatMap_cons, Token.event_tokens, ih,
      List.singleton_append]

/-- Reporting every character on its own is one of the possible reports. -/
theorem reports_map_event (ts : List Token) : Reports (ts.map Token.event) ts := by
  refine ⟨?_, flatMap_map_event ts⟩
  intro e he
  obtain ⟨t, _, rfl⟩ := List.mem_map.mp he
  cases t <;> simp [Token.event]

theorem Reports.prefix {es fs : List Event} {ts : List Token} (h : Reports es ts)
    (hf : fs <+: es) : ∃ us, us <+: ts ∧ Reports fs us := by
  obtain ⟨gs, rfl⟩ := hf
  refine ⟨fs.flatMap Event.tokens, ⟨gs.flatMap Event.tokens, ?_⟩, ?_, rfl⟩
  · rw [← h.tokens, List.flatMap_append]
  · intro e he
    exact h.pieces e (List.mem_append_left gs he)

inductive Node where
  | elem (name : Str) (attrs : List (Str × Str)) (kids : List Node)
  | char (c : Char)

mutual
def Node.tokens : Node → List Token
  | .elem n as ks => .start n as :: (forestTokens ks ++ [.stop n])
  | .char c => [.char c]

def forestTokens : List Node → List Token
  | [] => []
  | k :: ks => k.tokens ++ forestTokens ks
end

@[simp] theorem forestTokens_append (ks ls : List Node) :
    forestTokens (ks ++ ls) = forestTokens ks ++ forestTokens ls := by
  induction ks with
  | nil => rfl
  | cons k ks ih => simp only [List.cons_append, forestTokens, ih, List.append_assoc]

theorem Node.tokens_ne_nil (k : Node) : k.tokens ≠ [] := by
  cases k <;> simp [Node.tokens]

theorem Node.events_elem (n : Str) (as : List (Str × Str)) (ks : List Node) :
    (Node.elem n as ks).tokens.map Token.event =
      .start n as :: ((forestTokens ks).map Token.event ++ [.stop n]) := by
  rw [Node.tokens, List.map_cons, List.map_append]
  rfl

mutual
/-- All element names in a node satisfy `p`. -/
def Node.Named (p : Str → Prop) : Node → Prop
  | .elem n _ ks => p n ∧ ForestNamed p ks
  | .char _ => True

def ForestNamed (p : Str → Prop) : List Node → Prop
  | [] => True
  | k :: ks => k.Named p ∧ ForestNamed p ks
end

mutual
theorem Node.named_true : ∀ k : Node, k.Named fun _ => True
  | .elem _ _ ks => ⟨trivial, forestNamed_true ks⟩
  | .char _ => trivial

theorem forestNamed_true : ∀ ks : List Node, ForestNamed (fun _ => True) ks
  | [] => trivial
  | k :: ks => ⟨k.named_true, forestNamed_true ks⟩
end

/-! ## Nesting -/

def Token.level : Token → ℤ
  | .start _ _ => 1
  | .stop _ => -1
  | .char _ => 0

/-- How many more elements the tokens open than they close. -/
def level (ts : List Token) : ℤ := (ts.map Token.level).sum

@[simp] theorem level_nil : level [] = 0 := rfl

@[simp] theorem level_cons (t : Token) (ts : List Token) : level (t :: ts) = t.level + level ts := rfl

@[simp] theorem level_append (ts us : List Token) : level (ts ++ us) = level ts + level us := by
  induction ts with
  | nil => simp
  | cons t ts ih =>
      rw [List.cons_append, level_cons, level_cons, ih]
      omega

mutual
theorem Node.level_tokens : ∀ k : Node, level k.tokens = 0
  | .elem n as ks => by
      rw [Node.tokens, level_cons, level_append, level_forestTokens ks]
      rfl
  | .char _ => rfl

theorem level_forestTokens : ∀ ks : List Node, level (forestTokens ks) = 0
  | [] => rfl
  | k :: ks => by
      rw [forestTokens, level_append, k.level_tokens, level_forestTokens ks]
      rfl
end

/-- A prefix of two pieces ends in the first piece or somewhere in the second. -/
theorem prefix_append_cases {α : Type} {us xs ys : List α} (h : us <+: xs ++ ys) :
    (us <+: xs ∧ us.length < xs.length) ∨ ∃ vs, us = xs ++ vs ∧ vs <+: ys := by
  by_cases hlen : us.length < xs.length
  · have hpre := List.prefix_of_prefix_length_le h (List.prefix_append xs ys) (by omega)
    exact Or.inl ⟨hpre, hlen⟩
  · have hpre := List.prefix_of_prefix_length_le (List.prefix_append xs ys) h (by omega)
    obtain ⟨vs, rfl⟩ := hpre
    exact Or.inr ⟨vs, rfl, (List.prefix_append_right_inj xs).mp h⟩

mutual
theorem Node.level_prefix : ∀ (k : Node) {us : List Token}, us <+: k.tokens → 0 ≤ level us
  | .elem n as ks, us, h => by
      cases us with
      | nil => exact Int.le_refl 0
      | cons u us =>
          rw [Node.tokens, List.cons_prefix_cons] at h
          obtain ⟨rfl, h⟩ := h
          rw [level_cons, Token.level]
          rcases prefix_append_cases h with ⟨hu, _⟩ | ⟨vs, rfl, hv⟩
          · have := level_prefix_forest ks hu
            omega
          · rw [level_append, level_forestTokens]
            rcases List.prefix_cons_iff.mp hv with rfl | ⟨ws, rfl, hw⟩
            · simp
            · rw [List.prefix_nil.mp hw, level_cons, Token.level, level_nil]
              omega
  | .char c, us, h => by
      rcases List.prefix_cons_iff.mp h with rfl | ⟨ws, rfl, hw⟩
      · exact Int.le_refl 0
      · rw [List.prefix_nil.mp hw]
        exact Int.le_refl 0

theorem level_prefix_forest : ∀ (ks : List Node) {us : List Token},
    us <+: forestTokens ks → 0 ≤ level us
  | [], us, h => by
      rw [List.prefix_nil.mp h]
      exact Int.le_refl 0
  | k :: ks, us, h => by
      rcases prefix_append_cases h with ⟨hu, _⟩ | ⟨vs, rfl, hv⟩
      · exact k.level_prefix hu
      · have := level_prefix_forest ks hv
        rw [level_append, k.level_tokens]
        omega
end

/-! ## Handlers -/

section Handlers
variable {σ ε : Type} (handle : σ → Event → Except ε σ)

/-- The events are handed over one by one. -/
def deliver (s : σ) : List Event → Except ε σ
  | [] => .ok s
  | e :: es => do
      let s ← handle s e
      deliver s es

variable {handle}

theorem deliver_cons {s : σ} {e : Event} (s' : σ) (es : List Event) (h : handle s e = .ok s') :
    deliver handle s (e :: es) = deliver handle s' es := by
  rw [deliver, h]
  rfl

theorem deliver_append (s : σ) (es fs : List Event) :
    deliver handle s (es ++ fs) = (deliver handle s es).bind fun s => deliver handle s fs := by
  induction es generalizing s with
  | nil => rfl
  | cons e es ih =>
      simp only [List.cons_append, deliver]
      cases handle s e with
      | error f => rfl
      | ok s => exact ih s

theorem deliver_trans {s s' s'' : σ} {es fs : List Event} (h : deliver handle s es = .ok s')
    (k : deliver handle s' fs = .ok s'') : deliver handle s (es ++ fs) = .ok s'' := by
  rw [deliver_append, h]
  exact k

theorem deliver_of_append {s s'' : σ} {es fs : List Event}
    (h : deliver handle s (es ++ fs) = .ok s'') :
    ∃ s', deliver handle s es = .ok s' ∧ deliver handle s' fs = .ok s'' := by
  rw [deliver_append] at h
  cases hs : deliver handle s es with
  | error f =>
      rw [hs] at h
      cases h
  | ok s' =>
      rw [hs] at h
      exact ⟨s', rfl, h⟩

variable (cut : ∀ s t u, handle s (.data (t ++ u)) =
  (handle s (.data t)).bind fun s => handle s (.data u))
include cut

theorem deliver_data (s : σ) {t : Str} (ht : t ≠ []) :
    deliver handle s (t.map fun c => .data [c]) = handle s (.data t) := by
  induction t generalizing s with
  | nil => exact (ht rfl).elim
  | cons c cs ih =>
      have hone : handle s (.data (c :: cs)) =
          (handle s (.data [c])).bind fun s => handle s (.data cs) := cut s [c] cs
      simp only [List.map_cons, deliver]
      by_cases hcs : cs = []
      · subst hcs
        cases handle s (.data [c]) <;> rfl
      · rw [hone]
        cases handle s (.data [c]) with
        | error f => rfl
        | ok s => exact ih s hcs

/-- For a handler that does not see where character data is cut, only the tokens
matter. -/
theorem deliver_reports {es : List Event} {ts : List Token} (s : σ) (h : Reports es ts) :
    deliver handle s es = deliver handle s (ts.map Token.event) := by
  obtain ⟨hp, rfl⟩ := h
  induction es generalizing s with
  | nil => rfl
  | cons e es ih =>
      have htail := fun s => ih s fun f hf => hp f (List.mem_cons_of_mem e hf)
      have hhead : deliver handle s (e.tokens.map Token.event) = handle s e := by
        cases e with
        | start n as => exact bind_pure _
        | stop n => exact bind_pure _
        | data t =>
            have ht : t ≠ [] := fun h => hp (.data t) List.mem_cons_self (by rw [h])
            rw [Event.tokens, List.map_map]
            exact deliver_data cut s ht
      rw [List.flatMap_cons, List.map_append, deliver_append, hhead, deliver]
      cases handle s e with
      | error f => rfl
      | ok s => exact htail s

end Handlers

end Stabber.XmlDocument
