import Stabber.Stanzas
import Mathlib.Data.List.Flatten
import Mathlib.Data.List.Induction
import Mathlib.Data.List.Nodup
import Mathlib.Data.List.Perm.Subperm
import Mathlib.Data.Prod.Basic
import Mathlib.Data.Set.Defs

/-!
# Arrivals and consumption in the store of received stanzas

The operations of the store in any order, one lock section each. The history
numbers the stanzas as they arrive and notes which numbers left the store in
each successful verification with `clear`.
-/

namespace Stabber.StanzaHistory
open XmlDocument Stanza Stanzas

inductive StoreOp where
  | add (stanza : XMPPStanza)
  | verifyAny (template : XMPPStanza) (clear : Bool)
  | verifyLast (template : XMPPStanza)
  | containsId (id_filter : Str)
  | getToById (id : Option Str)

/-- The store after an operation, as the code has it. -/
def storeAfter (store : List XMPPStanza) : StoreOp → List XMPPStanza
  | .add s => stanzasAdd store s
  | .verifyAny t clear => (stanzasVerifyAny id t clear store).2
  | .verifyLast _ => store
  | .containsId _ => store
  | .getToById _ => store

structure History where
  arrivals : List XMPPStanza
  store : List (ℕ × XMPPStanza)
  /-- The template of each success with `clear`, and the arrivals it removed. -/
  clears : List (XMPPStanza × List ℕ)

def History.empty : History := ⟨[], [], []⟩

def History.consumed (h : History) : List ℕ := h.clears.flatMap Prod.snd

def History.verifyAny (h : History) (t : XMPPStanza) (clear : Bool) : History :=
  let r := stanzasVerifyAny Prod.snd t clear h.store
  let gone := (h.store.map Prod.fst).filter fun n => n ∉ r.2.map Prod.fst
  { h with store := r.2, clears := if r.1 ∧ clear then h.clears ++ [(t, gone)] else h.clears }

def History.apply (h : History) : StoreOp → History
  | .add s =>
      { h with arrivals := h.arrivals ++ [s], store := stanzasAdd h.store (h.arrivals.length, s) }
  | .verifyAny t clear => h.verifyAny t clear
  | .verifyLast _ => h
  | .containsId _ => h
  | .getToById _ => h

def replay (ops : List StoreOp) : History := ops.foldl History.apply .empty

/-- The arrivals with their numbers, without those consumed. -/
def History.remaining (h : History) : List (ℕ × XMPPStanza) :=
  (h.arrivals.zipIdx.map Prod.swap).filter fun e => e.1 ∉ h.consumed

/-- The store is what arrived and was not consumed, in arrival order; every
success consumed one arrival that matches its template, and none twice. -/
structure Conserved (h : History) : Prop where
  store : h.store = h.remaining
  once : h.consumed.Nodup
  one : ∀ c ∈ h.clears, ∃ n s, c.2 = [n] ∧ h.arrivals[n]? = some s ∧ stanzasEqual s c.1 = 0

theorem mem_numbered {l : List XMPPStanza} {n : ℕ} {s : XMPPStanza} :
    (n, s) ∈ l.zipIdx.map Prod.swap ↔ l[n]? = some s := by
  simp only [List.mem_map, Prod.swap_eq_iff_eq_swap, exists_eq_right]
  exact List.mk_mem_zipIdx_iff_getElem?

theorem nodup_numbered (l : List XMPPStanza) : ((l.zipIdx.map Prod.swap).map Prod.fst).Nodup := by
  have h : (l.zipIdx.map Prod.swap).map Prod.fst = List.range l.length := by
    rw [List.map_map, show Prod.fst ∘ Prod.swap = (Prod.snd : XMPPStanza × ℕ → ℕ) from rfl,
      List.zipIdx_map_snd, List.range_eq_range']
  rw [h]
  exact List.nodup_range

theorem Conserved.arrived {h : History} (hc : Conserved h) {n : ℕ} (hn : n ∈ h.consumed) :
    n < h.arrivals.length := by
  obtain ⟨c, hcl, hmem⟩ := List.mem_flatMap.mp hn
  obtain ⟨m, s, hone, hget, _⟩ := hc.one c hcl
  rw [hone, List.mem_singleton] at hmem
  subst hmem
  exact (List.getElem?_eq_some_iff.mp hget).1

theorem Conserved.numbers_nodup {h : History} (hc : Conserved h) :
    (h.store.map Prod.fst).Nodup := by
  rw [hc.store]
  exact ((List.filter_sublist).map Prod.fst).nodup (nodup_numbered h.arrivals)

theorem conserved_empty : Conserved .empty := ⟨rfl, List.nodup_nil, by simp [History.empty]⟩

theorem conserved_add {h : History} (hc : Conserved h) (s : XMPPStanza) :
    Conserved (h.apply (.add s)) := by
  have hnew : h.arrivals.length ∉ h.consumed := fun hn => Nat.lt_irrefl _ (hc.arrived hn)
  have hremain : (h.apply (.add s)).remaining = h.remaining ++ [(h.arrivals.length, s)] := by
    change ((h.arrivals ++ [s]).zipIdx.map Prod.swap).filter (fun e => e.1 ∉ h.consumed) = _
    rw [List.zipIdx_append, List.map_append, List.filter_append, Nat.zero_add]
    have hlast : ([s].zipIdx h.arrivals.length).map Prod.swap = [(h.arrivals.length, s)] := rfl
    rw [hlast, List.filter_cons_of_pos (by simpa using hnew), List.filter_nil]
    rfl
  constructor
  · rw [hremain, ← hc.store]
    rfl
  · exact hc.once
  · intro c hcl
    obtain ⟨n, t, hone, hget, hmatch⟩ := hc.one c hcl
    refine ⟨n, t, hone, ?_, hmatch⟩
    change (h.arrivals ++ [s])[n]? = some t
    rw [List.getElem?_append_left (List.getElem?_eq_some_iff.mp hget).1, hget]

/-- Taking the element `r` out of a list with distinct numbers. -/
theorem filter_gone {before after : List (ℕ × XMPPStanza)} {r : ℕ × XMPPStanza}
    (hd : ((before ++ r :: after).map Prod.fst).Nodup) :
    (((before ++ r :: after).map Prod.fst).filter
      fun n => n ∉ (before ++ after).map Prod.fst) = [r.1] := by
  have hmap : (before ++ r :: after).map Prod.fst =
      before.map Prod.fst ++ r.1 :: after.map Prod.fst := by
    rw [List.map_append, List.map_cons]
  rw [hmap] at hd ⊢
  have hr : r.1 ∉ (before ++ after).map Prod.fst := by
    rw [List.map_append]
    exact (List.nodup_middle.mp hd).notMem
  rw [List.filter_append, List.filter_cons_of_pos (by simpa using hr),
    List.filter_eq_nil_iff.mpr, List.filter_eq_nil_iff.mpr, List.nil_append]
  · intro n hn
    simp only [List.map_append, List.mem_append, hn, or_true, not_true_eq_false, decide_false,
      Bool.false_eq_true, not_false_eq_true]
  · intro n hn
    simp only [List.map_append, List.mem_append, hn, true_or, not_true_eq_false, decide_false,
      Bool.false_eq_true, not_false_eq_true]

theorem conserved_clear {h : History} (hc : Conserved h) {t : XMPPStanza}
    {before after : List (ℕ × XMPPStanza)} {r : ℕ × XMPPStanza}
    (hstore : h.store = before ++ r :: after) (hr : stanzasEqual r.2 t = 0) :
    Conserved ⟨h.arrivals, before ++ after, h.clears ++ [(t, [r.1])]⟩ := by
  have hmem : r ∈ h.store := by simp [hstore]
  have hmem' := hmem
  rw [hc.store] at hmem'
  have harr : r ∈ h.arrivals.zipIdx.map Prod.swap := List.mem_of_mem_filter hmem'
  have hfresh : r.1 ∉ h.consumed := by
    have := (List.mem_filter.mp hmem').2
    simpa using this
  have hnum := hc.numbers_nodup
  rw [hstore] at hnum
  have hcons : History.consumed ⟨h.arrivals, before ++ after, h.clears ++ [(t, [r.1])]⟩ =
      h.consumed ++ [r.1] := by
    simp [History.consumed]
  refine ⟨?_, ?_, ?_⟩
  · have hremain : h.remaining = before ++ r :: after := hc.store ▸ hstore
    have hsplit : History.remaining ⟨h.arrivals, before ++ after, h.clears ++ [(t, [r.1])]⟩ =
        h.remaining.filter fun e => e.1 ≠ r.1 := by
      unfold History.remaining
      rw [hcons, List.filter_filter]
      congr 1
      funext e
      simp [and_comm, not_or]
    rw [hsplit, hremain, List.filter_append, List.filter_cons_of_neg (by simp)]
    rw [List.map_append, List.map_cons] at hnum
    have hne := (List.nodup_middle.mp hnum).notMem
    rw [← List.map_append] at hne
    have hkeep : ∀ e ∈ before ++ after, (decide (e.1 ≠ r.1)) = true := by
      intro e he
      simp only [ne_eq, decide_not, Bool.not_eq_true', decide_eq_false_iff_not]
      intro heq
      exact hne (heq ▸ List.mem_map_of_mem he)
    rw [← List.filter_append, List.filter_eq_self.mpr hkeep]
  · rw [hcons, List.nodup_append]
    refine ⟨hc.once, List.nodup_singleton _, ?_⟩
    intro n hn m hm heq
    rw [List.mem_singleton] at hm
    exact hfresh (hm ▸ heq ▸ hn)
  · intro c hcl
    rcases List.mem_append.mp hcl with hcl | hcl
    · exact hc.one c hcl
    · rw [List.mem_singleton] at hcl
      subst hcl
      exact ⟨r.1, r.2, rfl, mem_numbered.mp harr, hr⟩

/-- A success with `clear` notes exactly the stanza it found. -/
theorem History.verifyAny_cases {h : History} (hc : Conserved h) (t : XMPPStanza) (clear : Bool) :
    h.verifyAny t clear = h ∨
    ∃ before r after, h.store = before ++ r :: after ∧ stanzasEqual r.2 t = 0 ∧ clear = true ∧
      h.verifyAny t clear = ⟨h.arrivals, before ++ after, h.clears ++ [(t, [r.1])]⟩ := by
  unfold History.verifyAny
  rcases stanzasVerifyAny_cases Prod.snd t clear h.store with
    ⟨_, hres⟩ | ⟨before, r, after, hstore, _, hr, hres⟩
  · apply Or.inl
    simp [hres]
  · cases clear with
    | false =>
        apply Or.inl
        simp [hres]
    | true =>
        refine Or.inr ⟨before, r, after, hstore, hr, rfl, ?_⟩
        have hd := hc.numbers_nodup
        rw [hstore] at hd
        simp only [hres, if_true, and_self]
        rw [hstore, filter_gone hd]

theorem conserved_step {h : History} (hc : Conserved h) (op : StoreOp) :
    Conserved (h.apply op) := by
  cases op with
  | add s => exact conserved_add hc s
  | verifyAny t clear =>
      change Conserved (h.verifyAny t clear)
      rcases h.verifyAny_cases hc t clear with heq | ⟨before, r, after, hstore, hr, _, heq⟩
      · rw [heq]
        exact hc
      · rw [heq]
        exact conserved_clear hc hstore hr
  | verifyLast t => exact hc
  | containsId f => exact hc
  | getToById id => exact hc

theorem replay_append_singleton (ops : List StoreOp) (op : StoreOp) :
    replay (ops ++ [op]) = (replay ops).apply op := by
  unfold replay
  rw [List.foldl_append]
  rfl

theorem conserved_replay (ops : List StoreOp) : Conserved (replay ops) := by
  induction ops using List.reverseRecOn with
  | nil => exact conserved_empty
  | append_singleton ops op ih =>
      rw [replay_append_singleton]
      exact conserved_step ih op

/-! ## The history and the code's own store -/

theorem apply_store (h : History) (op : StoreOp) :
    (h.apply op).store.map Prod.snd = storeAfter (h.store.map Prod.snd) op := by
  cases op with
  | add s =>
      change (stanzasAdd h.store (h.arrivals.length, s)).map Prod.snd = _
      unfold stanzasAdd
      rw [List.map_append]
      rfl
  | verifyAny t clear =>
      simp only [storeAfter]
      rw [stanzasVerifyAny_map]
      rfl
  | verifyLast t => rfl
  | containsId f => rfl
  | getToById id => rfl

theorem replay_store (ops : List StoreOp) :
    (replay ops).store.map Prod.snd = ops.foldl storeAfter [] := by
  induction ops using List.reverseRecOn with
  | nil => rfl
  | append_singleton ops op ih =>
      rw [replay_append_singleton, apply_store, ih, List.foldl_append]
      rfl

/-- The stanzas added, in order. -/
def added : List StoreOp → List XMPPStanza
  | [] => []
  | .add s :: ops => s :: added ops
  | _ :: ops => added ops

/-- The templates of the successes with `clear`, from the code's own verdicts. -/
def successes (store : List XMPPStanza) : List StoreOp → List XMPPStanza
  | [] => []
  | .verifyAny t true :: ops =>
      let rest := successes (storeAfter store (.verifyAny t true)) ops
      if (stanzasVerifyAny id t true store).1 then t :: rest else rest
  | op :: ops => successes (storeAfter store op) ops

theorem fold_arrivals (ops : List StoreOp) (h : History) :
    (ops.foldl History.apply h).arrivals = h.arrivals ++ added ops := by
  induction ops generalizing h with
  | nil => exact (List.append_nil _).symm
  | cons op ops ih =>
      rw [List.foldl_cons, ih]
      cases op with
      | add s => exact List.append_assoc _ _ _
      | verifyAny t clear => rfl
      | verifyLast t => rfl
      | containsId f => rfl
      | getToById id => rfl

theorem fold_clears (ops : List StoreOp) (h : History) :
    (ops.foldl History.apply h).clears.map Prod.fst =
      h.clears.map Prod.fst ++ successes (h.store.map Prod.snd) ops := by
  induction ops generalizing h with
  | nil => exact (List.append_nil _).symm
  | cons op ops ih =>
      rw [List.foldl_cons, ih, apply_store]
      cases op with
      | add s => rfl
      | verifyAny t clear =>
          cases clear with
          | false =>
              have hclears : (h.apply (.verifyAny t false)).clears = h.clears := by
                simp [History.apply, History.verifyAny]
              rw [hclears]
              rfl
          | true =>
              rw [successes, stanzasVerifyAny_map]
              change List.map Prod.fst (h.verifyAny t true).clears ++ _ = _
              unfold History.verifyAny
              change _ = _ ++ if (stanzasVerifyAny Prod.snd t true h.store).1 = true then _ else _
              split_ifs with hr
              · simp [hr]
              · simp [hr]
      | verifyLast t => rfl
      | containsId f => rfl
      | getToById id => rfl

/-- What one operation does to the store. -/
inductive Effect (store : List XMPPStanza) : StoreOp → List XMPPStanza → Prop
  | add (s : XMPPStanza) : Effect store (.add s) (store ++ [s])
  | consume (t : XMPPStanza) (before : List XMPPStanza) (r : XMPPStanza)
      (after : List XMPPStanza) : store = before ++ r :: after →
      (∀ x ∈ before, stanzasEqual x t ≠ 0) → stanzasEqual r t = 0 →
      Effect store (.verifyAny t true) (before ++ after)
  | fail (t : XMPPStanza) (clear : Bool) : (∀ r ∈ store, stanzasEqual r t ≠ 0) →
      Effect store (.verifyAny t clear) store
  | keep (t : XMPPStanza) : Effect store (.verifyAny t false) store
  | verifyLast (t : XMPPStanza) : Effect store (.verifyLast t) store
  | containsId (f : Str) : Effect store (.containsId f) store
  | getToById (id : Option Str) : Effect store (.getToById id) store

theorem effect_storeAfter (store : List XMPPStanza) (op : StoreOp) :
    Effect store op (storeAfter store op) := by
  cases op with
  | add s => exact Effect.add s
  | verifyAny t clear =>
      simp only [storeAfter]
      rcases stanzasVerifyAny_cases id t clear store with
        ⟨hnone, hres⟩ | ⟨before, r, after, hstore, hbefore, hr, hres⟩
      · rw [hres]
        exact Effect.fail t clear hnone
      · rw [hres]
        cases clear with
        | false => exact Effect.keep t
        | true => exact Effect.consume t before r after hstore hbefore hr
  | verifyLast t => exact Effect.verifyLast t
  | containsId f => exact Effect.containsId f
  | getToById id => exact Effect.getToById id

/-! ## Counting -/

/-- Distinct arrivals, one for each success, all matching some template of the set. -/
theorem Conserved.clears_le {h : History} (hc : Conserved h) (templates : XMPPStanza → Bool)
    (matching : XMPPStanza → Bool)
    (hm : ∀ s t, templates t → stanzasEqual s t = 0 → matching s) :
    (h.clears.map Prod.fst).countP templates ≤ h.arrivals.countP matching := by
  let taken := (h.clears.filter fun c => templates c.1).flatMap Prod.snd
  let fitting := ((h.arrivals.zipIdx.map Prod.swap).filter fun e => matching e.2).map Prod.fst
  have hlen : taken.length = (h.clears.map Prod.fst).countP templates := by
    have hone : ∀ c ∈ h.clears.filter (fun c => templates c.1), c.2.length = 1 := by
      intro c hcl
      obtain ⟨n, s, hn, _⟩ := hc.one c (List.mem_of_mem_filter hcl)
      rw [hn]
      rfl
    rw [List.countP_map, List.countP_eq_length_filter, List.length_flatMap,
      List.map_congr_left hone, List.map_const', List.sum_replicate_nat, Nat.mul_one]
    rfl
  have hnodup : taken.Nodup := by
    have hsub : taken.Sublist h.consumed := List.filter_sublist.flatMap Prod.snd
    exact hsub.nodup hc.once
  have hsubset : taken ⊆ fitting := by
    intro n hn
    obtain ⟨c, hcl, hmem⟩ := List.mem_flatMap.mp hn
    obtain ⟨hin, hQ⟩ := List.mem_filter.mp hcl
    obtain ⟨m, s, hone, hget, hmatch⟩ := hc.one c hin
    rw [hone, List.mem_singleton] at hmem
    subst hmem
    have hfit := hm s c.1 hQ hmatch
    exact List.mem_map.mpr ⟨(n, s), List.mem_filter.mpr ⟨mem_numbered.mpr hget, hfit⟩, rfl⟩
  calc (h.clears.map Prod.fst).countP templates = taken.length := hlen.symm
    _ ≤ fitting.length := (hnodup.subperm hsubset).length_le
    _ = h.arrivals.countP matching := by
      simp only [fitting, List.length_map, ← List.countP_eq_length_filter]
      rw [List.countP_map]
      change h.arrivals.zipIdx.countP (matching ∘ Prod.fst) = _
      rw [← List.countP_map, List.zipIdx_map_fst]

open Classical in
/-- Verification with `clear` consumes: the store is what was added less what
was consumed, nothing is consumed twice, every operation has only its own
effect, and a set of templates succeeds at most as often as stanzas that match
one of them were added. -/
theorem clear_consumes (ops : List StoreOp) :
    let store := ops.foldl storeAfter []
    (replay ops).arrivals = added ops ∧ (replay ops).store.map Prod.snd = store ∧
      (replay ops).clears.map Prod.fst = successes [] ops ∧ Conserved (replay ops) ∧
      (∀ op, Effect store op (storeAfter store op)) ∧
      (∀ t, (stanzasVerifyAny id t true store).1 = (stanzasVerifyAny id t false store).1) ∧
      ∀ templates : Set XMPPStanza, (successes [] ops).countP (· ∈ templates) ≤
        (added ops).countP fun s => ∃ t ∈ templates, stanzasEqual s t = 0 := by
  have hconserved := conserved_replay ops
  have harrivals : (replay ops).arrivals = added ops := fold_arrivals ops .empty
  have hclears : (replay ops).clears.map Prod.fst = successes [] ops := fold_clears ops .empty
  refine ⟨harrivals, replay_store ops, hclears, hconserved, effect_storeAfter _, ?_, ?_⟩
  · intro t
    rw [Bool.eq_iff_iff, stanzasVerifyAny_fst, stanzasVerifyAny_fst]
  · intro templates
    rw [← harrivals, ← hclears]
    apply hconserved.clears_le
    intro s t ht hmatch
    rw [decide_eq_true_eq] at ht ⊢
    exact ⟨t, ht, hmatch⟩

end Stabber.StanzaHistory
