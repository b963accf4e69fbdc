import Stabber.StreamTree
import Mathlib.Data.List.Forall2
import Mathlib.Data.List.Nodup

/-!
# The stream parser's heap holds the document's stanzas

The heap parser simulates the tree parser. While elements are open, their cells
form a chain of parent pointers from the current stanza to the root; everything
that is closed lies outside the chain, where the handlers no longer write.
-/

namespace Stabber.StreamParsing
open XmlDocument Stanza StanzaParse StreamParser StreamTree

/-! ## Trees in the heap -/

abbrev Lookup := Addr → Option Cell

mutual
/-- The stanza lies at the address, under this parent. -/
def Represents (look : Lookup) (a : Addr) (parent : Option Addr) : XMPPStanza → Prop
  | ⟨name, attrs, children, content⟩ => ∃ kids,
      look a = some ⟨name, attrs, kids, content, parent⟩ ∧ RepresentsAll look a kids children

def RepresentsAll (look : Lookup) (parent : Addr) (kids : List Addr) : List XMPPStanza → Prop
  | [] => kids = []
  | t :: ts => ∃ k ks, kids = k :: ks ∧ Represents look k (some parent) t ∧
      RepresentsAll look parent ks ts
end

def Extends (look look' : Lookup) : Prop := ∀ a cell, look a = some cell → look' a = some cell

mutual
theorem Represents.mono {look look' : Lookup} (hl : Extends look look') {a : Addr}
    {parent : Option Addr} : ∀ {t : XMPPStanza}, Represents look a parent t →
      Represents look' a parent t
  | ⟨name, attrs, children, content⟩, h => by
      rw [Represents] at h ⊢
      obtain ⟨kids, hcell, hkids⟩ := h
      exact ⟨kids, hl _ _ hcell, RepresentsAll.mono hl hkids⟩

theorem RepresentsAll.mono {look look' : Lookup} (hl : Extends look look') {parent : Addr}
    {kids : List Addr} : ∀ {ts : List XMPPStanza}, RepresentsAll look parent kids ts →
      RepresentsAll look' parent kids ts
  | [], h => by
      rw [RepresentsAll] at h ⊢
      exact h
  | t :: ts, h => by
      rw [RepresentsAll] at h ⊢
      obtain ⟨k, ks, hkids, ht, hts⟩ := h
      exact ⟨k, ks, hkids, Represents.mono hl ht, RepresentsAll.mono hl hts⟩
end

theorem RepresentsAll.snoc {look : Lookup} {parent k : Addr} {t : XMPPStanza}
    (hk : Represents look k (some parent) t) {kids : List Addr} {ts : List XMPPStanza}
    (h : RepresentsAll look parent kids ts) :
    RepresentsAll look parent (kids ++ [k]) (ts ++ [t]) := by
  induction ts generalizing kids with
  | nil =>
      rw [RepresentsAll] at h
      subst h
      rw [List.nil_append, List.nil_append, RepresentsAll]
      exact ⟨k, [], rfl, hk, by rw [RepresentsAll]⟩
  | cons u us ih =>
      rw [RepresentsAll] at h
      obtain ⟨l, ls, rfl, hu, hus⟩ := h
      rw [List.cons_append, List.cons_append, RepresentsAll]
      exact ⟨l, ls ++ [k], rfl, hu, ih hus⟩

/-- The heap without the cells of the open stanzas. -/
def away (heap : Heap) (busy : List Addr) : Lookup :=
  fun a => if a ∈ busy then none else heap[a]?

theorem away_eq_some {heap : Heap} {busy : List Addr} {a : Addr} {cell : Cell} :
    away heap busy a = some cell ↔ a ∉ busy ∧ heap[a]? = some cell := by
  unfold away
  split_ifs with h <;> simp [h]

theorem away_extends_heap (heap : Heap) (busy : List Addr) :
    Extends (away heap busy) fun a => heap[a]? :=
  fun _ _ h => (away_eq_some.mp h).2

/-- A new cell hides nothing. -/
theorem away_alloc (heap : Heap) (busy : List Addr) (cell : Cell) :
    Extends (away heap busy) (away (heap ++ [cell]) (heap.length :: busy)) := by
  intro a c h
  rw [away_eq_some] at h ⊢
  have hlt : a < heap.length := (List.getElem?_eq_some_iff.mp h.2).1
  rw [List.getElem?_append_left hlt]
  refine ⟨?_, h.2⟩
  rw [List.mem_cons]
  rintro (rfl | ha)
  · exact Nat.lt_irrefl _ hlt
  · exact h.1 ha

/-- Writing to an open stanza changes no closed one. -/
theorem away_set {heap : Heap} {busy : List Addr} {a : Addr} (ha : a ∈ busy) (cell : Cell) :
    Extends (away heap busy) (away (heap.set a cell) busy) := by
  intro b c h
  rw [away_eq_some] at h ⊢
  have hne : a ≠ b := fun heq => h.1 (heq ▸ ha)
  rw [List.getElem?_set_ne hne]
  exact h

theorem away_close (heap : Heap) (a : Addr) (busy : List Addr) :
    Extends (away heap (a :: busy)) (away heap busy) := by
  intro b c h
  rw [away_eq_some] at h ⊢
  exact ⟨fun hb => h.1 (List.mem_cons_of_mem a hb), h.2⟩

/-- The cells of the open stanzas, innermost first, with the children closed so far. -/
def Chain (look : Lookup) (heap : Heap) : List Addr → List XMPPStanza → Prop
  | a :: as, t :: ts => (∃ kids,
      heap[a]? = some ⟨t.name, t.attrs, kids, t.content, as.head?⟩ ∧
        RepresentsAll look a kids t.children) ∧ Chain look heap as ts
  | [], [] => True
  | _, _ => False

theorem Chain.mono {look look' : Lookup} (hl : Extends look look') {heap heap' : Heap}
    {as : List Addr} (hh : ∀ a ∈ as, heap'[a]? = heap[a]?) {ts : List XMPPStanza}
    (h : Chain look heap as ts) : Chain look' heap' as ts := by
  induction as generalizing ts with
  | nil =>
      cases ts with
      | nil => trivial
      | cons t ts => exact h.elim
  | cons a as ih =>
      cases ts with
      | nil => exact h.elim
      | cons t ts =>
          obtain ⟨⟨kids, hcell, hkids⟩, htail⟩ := h
          have hsame : heap'[a]? = heap[a]? := hh a List.mem_cons_self
          exact ⟨⟨kids, hsame.trans hcell, hkids.mono hl⟩,
            ih (fun b hb => hh b (List.mem_cons_of_mem a hb)) htail⟩

theorem Chain.allocated {look : Lookup} {heap : Heap} {as : List Addr} {ts : List XMPPStanza}
    (h : Chain look heap as ts) : ∀ a ∈ as, a < heap.length := by
  induction as generalizing ts with
  | nil =>
      intro a ha
      cases ha
  | cons b bs ih =>
      cases ts with
      | nil => exact h.elim
      | cons t ts =>
          obtain ⟨⟨kids, hcell, _⟩, htail⟩ := h
          intro a ha
          rcases List.mem_cons.mp ha with rfl | ha
          · exact (List.getElem?_eq_some_iff.mp hcell).1
          · exact ih htail a ha

theorem load_of_lookup {heap : Heap} {a : Addr} {cell : Cell} (h : heap[a]? = some cell) :
    load heap (some a) = .ok (a, cell) := by
  simp only [load, h]

theorem loadAll {look : Lookup} {heap : Heap} (hl : Extends look fun a => heap[a]?)
    {parent : Addr} {kids : List Addr} {ts : List XMPPStanza}
    (h : RepresentsAll look parent kids ts) :
    ∃ cells : List (Addr × Cell), (kids.mapM fun a => load heap (some a)) = .ok cells ∧
      cells.map (fun c => (⟨c.2.name, c.2.attrs, [], none⟩ : XMPPStanza)) =
        ts.map fun t => ⟨t.name, t.attrs, [], none⟩ := by
  induction ts generalizing kids with
  | nil =>
      rw [RepresentsAll] at h
      subst h
      exact ⟨[], rfl, rfl⟩
  | cons t ts ih =>
      rw [RepresentsAll] at h
      obtain ⟨k, ks, rfl, ht, hts⟩ := h
      rcases t with ⟨name, attrs, children, content⟩
      rw [Represents] at ht
      obtain ⟨grandkids, hcell, _⟩ := ht
      obtain ⟨cells, hcells, hmap⟩ := ih hts
      refine ⟨(k, ⟨name, attrs, grandkids, content, some parent⟩) :: cells, ?_, ?_⟩
      · rw [List.mapM_cons, load_of_lookup (hl _ _ hcell), hcells]
        rfl
      · rw [List.map_cons, List.map_cons, hmap]

theorem shallow_eq_outline {look : Lookup} {heap : Heap} (hl : Extends look fun a => heap[a]?)
    {a : Addr} {kids : List Addr} {parent : Option Addr} {t : XMPPStanza}
    (h : RepresentsAll look a kids t.children) :
    shallow heap ⟨t.name, t.attrs, kids, t.content, parent⟩ = .ok (outline t) := by
  obtain ⟨cells, hcells, hmap⟩ := loadAll hl h
  rw [shallow, hcells]
  change Except.ok (⟨t.name, t.attrs, cells.map _, t.content⟩ : XMPPStanza) = _
  rw [hmap]
  rfl

/-! ## The simulation -/

/-- The stanzas among the arrivals. -/
def taken {α : Type} (new : List (Arrival α)) : List α := new.filterMap Arrival.received

theorem taken_append {α : Type} (xs ys : List (Arrival α)) :
    taken (xs ++ ys) = taken xs ++ taken ys := List.filterMap_append

theorem taken_header {α : Type} (n : Str) :
    taken (TreeParser.header n : List (Arrival α)) = [] := by
  unfold TreeParser.header
  split_ifs <;> rfl

theorem header_calls (n : Str) :
    (TreeParser.header n).flatMap (Arrival.calls Prod.fst Prod.snd) =
      (streamStart n : List (Call Addr)) := by
  by_cases h : TreeParser.isStreamName n
  · rw [TreeParser.header, if_pos h, streamStart]
    exact (if_pos h).symm
  · rw [TreeParser.header, if_neg h, streamStart]
    exact (if_neg h).symm

theorem header_map {α β : Type} (f : α → β) (n : Str) :
    (TreeParser.header n).map (Arrival.map f) = TreeParser.header n := by
  unfold TreeParser.header
  split_ifs <;> rfl

/-- The two parsers since the root started at the first address after the heap of
`before`, with `busy` the addresses of the open stanzas. -/
structure Simulates (before s : Parser) (z : TreeParser)
    (new : List (Arrival (Addr × XMPPStanza))) (busy : List Addr) (c : Cursor) : Prop where
  depth : s.depth = z.depth
  nested : z.depth = busy.length
  pointer : s.curr_stanza = busy.head?
  cursor : z.curr_stanza = some c
  chain : Chain (away s.heap busy) s.heap busy (c.node :: c.above)
  root : busy.getLast? = some before.heap.length
  fresh : ∀ a ∈ busy, before.heap.length ≤ a
  old : ∀ a < before.heap.length, s.heap[a]? = before.heap[a]?
  stored : ∀ e ∈ taken new, Represents (away s.heap busy) e.1 (some before.heap.length) e.2
  distinct : (busy ++ (taken new).map Prod.fst).Nodup
  received : s.received_stanzas = before.received_stanzas ++ (taken new).map Prod.fst
  calls : s.calls = before.calls ++ new.flatMap (Arrival.calls Prod.fst Prod.snd)
  arrivals : z.arrivals = new.map (Arrival.map Prod.snd)

namespace Simulates
variable {before s : Parser} {z : TreeParser} {new : List (Arrival (Addr × XMPPStanza))}
  {busy : List Addr} {c : Cursor}

theorem allocated (h : Simulates before s z new busy c) :
    ∀ a ∈ busy ++ (taken new).map Prod.fst, a < s.heap.length := by
  intro a ha
  rcases List.mem_append.mp ha with hb | ht
  · exact h.chain.allocated a hb
  · obtain ⟨⟨a, t⟩, he, rfl⟩ := List.mem_map.mp ht
    have hrep := h.stored _ he
    rcases t with ⟨name, attrs, children, content⟩
    rw [Represents] at hrep
    obtain ⟨kids, hcell, _⟩ := hrep
    exact (List.getElem?_eq_some_iff.mp (away_eq_some.mp hcell).2).1

theorem base_le (h : Simulates before s z new busy c) : before.heap.length ≤ s.heap.length := by
  have hmem : before.heap.length ∈ busy := List.mem_of_getLast? h.root
  exact Nat.le_of_lt (h.chain.allocated _ hmem)

theorem busy_ne_nil (h : Simulates before s z new busy c) : busy ≠ [] := by
  intro hnil
  have hroot := h.root
  rw [hnil] at hroot
  cases hroot

theorem start (h : Simulates before s z new busy c) (n : Str) (as : List (Str × Str)) :
    Simulates before (StreamParser.startElement s n as) (z.startElement n as)
      (new ++ TreeParser.header n) (s.heap.length :: busy)
      ⟨stanzaNew n as, c.node :: c.above⟩ := by
  have hpos : 0 < busy.length := List.length_pos_iff.mpr h.busy_ne_nil
  have hdepth : z.depth ≠ 0 := by
    have := h.nested
    omega
  have hparents : z.parents = c.node :: c.above := by
    unfold TreeParser.parents
    rw [if_neg hdepth, h.cursor]
  have hparent : (if s.depth = 0 then none else s.curr_stanza) = busy.head? := by
    rw [h.depth, if_neg hdepth, h.pointer]
  have htaken : taken (new ++ TreeParser.header n) = taken new := by
    rw [taken_append, taken_header, List.append_nil]
  have halloc := h.chain.allocated
  constructor
  · exact congrArg (· + 1) h.depth
  · have := h.nested
    simp only [TreeParser.startElement, List.length_cons]
    omega
  · rfl
  · rw [TreeParser.startElement, hparents]
  · refine ⟨⟨[], ?_, rfl⟩, ?_⟩
    · change (s.heap ++ [_])[s.heap.length]? = _
      rw [List.getElem?_concat_length, hparent]
    · apply h.chain.mono (away_alloc s.heap busy _)
      intro a ha
      exact List.getElem?_append_left (halloc a ha)
  · rw [List.getLast?_cons_of_ne_nil h.busy_ne_nil]
    exact h.root
  · intro a ha
    rcases List.mem_cons.mp ha with rfl | ha
    · exact h.base_le
    · exact h.fresh a ha
  · intro a ha
    have hlt : a < s.heap.length := Nat.lt_of_lt_of_le ha h.base_le
    exact (List.getElem?_append_left hlt).trans (h.old a ha)
  · intro e he
    rw [htaken] at he
    exact (h.stored e he).mono (away_alloc s.heap busy _)
  · rw [htaken, List.cons_append, List.nodup_cons]
    exact ⟨fun ha => Nat.lt_irrefl _ (h.allocated _ ha), h.distinct⟩
  · rw [htaken]
    exact h.received
  · change s.calls ++ streamStart n = _
    rw [h.calls, List.flatMap_append, header_calls, List.append_assoc]
  · change z.arrivals ++ TreeParser.header n = _
    rw [h.arrivals, List.map_append, header_map]

/-- Writing to the cell of an open stanza. -/
theorem write (h : Simulates before s z new busy c) {b : Addr} (hb : b ∈ busy) (cell : Cell)
    (c' : Cursor) (hchain : Chain (away (s.heap.set b cell) busy) (s.heap.set b cell) busy
      (c'.node :: c'.above)) :
    Simulates before { s with heap := s.heap.set b cell } { z with curr_stanza := some c' }
      new busy c' := by
  constructor
  · exact h.depth
  · exact h.nested
  · exact h.pointer
  · rfl
  · exact hchain
  · exact h.root
  · exact h.fresh
  · intro a ha
    have hne : b ≠ a := Nat.ne_of_gt (Nat.lt_of_lt_of_le ha (h.fresh b hb))
    exact (List.getElem?_set_ne hne).trans (h.old a ha)
  · intro e he
    exact (h.stored e he).mono (away_set hb cell)
  · exact h.distinct
  · exact h.received
  · exact h.calls
  · exact h.arrivals

/-- The current stanza is closed, and its parent becomes the current one. -/
theorem pop {a p : Addr} {rest : List Addr} {node parent : XMPPStanza} {above : List XMPPStanza}
    (h : Simulates before s z new (a :: p :: rest) ⟨node, parent :: above⟩) :
    Simulates before { s with depth := s.depth - 1, curr_stanza := some p }
      { z with depth := z.depth - 1, curr_stanza := some ⟨parent, above⟩ } new (p :: rest)
      ⟨parent, above⟩ ∧ Represents (away s.heap (p :: rest)) a (some p) node := by
  obtain ⟨⟨kids, hcell, hkids⟩, htail⟩ := h.chain
  have hclose := away_close s.heap a (p :: rest)
  have hnew : a ∉ p :: rest ∧ ((p :: rest) ++ (taken new).map Prod.fst).Nodup := by
    have hd := h.distinct
    rw [List.cons_append, List.nodup_cons] at hd
    exact ⟨fun ha => hd.1 (List.mem_append_left _ ha), hd.2⟩
  constructor
  · constructor
    · exact congrArg (· - 1) h.depth
    · have := h.nested
      simp only [List.length_cons] at this ⊢
      omega
    · rfl
    · rfl
    · exact htail.mono hclose fun _ _ => rfl
    · have hroot := h.root
      rw [List.getLast?_cons_cons] at hroot
      exact hroot
    · intro b hb
      exact h.fresh b (List.mem_cons_of_mem a hb)
    · exact h.old
    · intro e he
      exact (h.stored e he).mono hclose
    · exact hnew.2
    · exact h.received
    · exact h.calls
    · exact h.arrivals
  · rcases node with ⟨name, attrs, children, content⟩
    rw [Represents]
    exact ⟨kids, away_eq_some.mpr ⟨hnew.1, hcell⟩, hkids.mono hclose⟩

/-- A closed stanza under the root goes to the store. -/
theorem add (h : Simulates before s z new busy c) {a : Addr} {t : XMPPStanza}
    (hrep : Represents (away s.heap busy) a (some before.heap.length) t)
    (ha : a ∉ busy ++ (taken new).map Prod.fst) :
    Simulates before
      { s with
        received_stanzas := s.received_stanzas ++ [a]
        calls := s.calls ++ .add a :: dispatch a t }
      { z with arrivals := z.arrivals ++ [.stanza t] } (new ++ [.stanza (a, t)]) busy c := by
  have htaken : taken (new ++ [.stanza (a, t)]) = taken new ++ [(a, t)] := taken_append new _
  constructor
  · exact h.depth
  · exact h.nested
  · exact h.pointer
  · exact h.cursor
  · exact h.chain
  · exact h.root
  · exact h.fresh
  · exact h.old
  · intro e he
    rw [htaken, List.mem_append, List.mem_singleton] at he
    rcases he with he | rfl
    · exact h.stored e he
    · exact hrep
  · rw [htaken, List.map_append, ← List.append_assoc, List.nodup_append_comm]
    exact List.nodup_cons.mpr ⟨ha, h.distinct⟩
  · rw [htaken, List.map_append, ← List.append_assoc, ← h.received]
    rfl
  · rw [List.flatMap_append, ← List.append_assoc, ← h.calls, List.flatMap_singleton]
    rfl
  · rw [List.map_append, ← h.arrivals]
    rfl

/-- With two open elements at least, the current stanza has a parent. -/
theorem inner (h : Simulates before s z new busy c) (hd : 2 ≤ z.depth) :
    ∃ a p rest node parent above, busy = a :: p :: rest ∧ c = ⟨node, parent :: above⟩ := by
  have hnested := h.nested
  have hchain := h.chain
  rcases c with ⟨node, above⟩
  cases busy with
  | nil => exact (h.busy_ne_nil rfl).elim
  | cons a as =>
      cases as with
      | nil =>
          simp only [List.length_cons, List.length_nil] at hnested
          omega
      | cons p rest =>
          cases above with
          | nil => exact hchain.2.elim
          | cons parent above => exact ⟨a, p, rest, node, parent, above, rfl, rfl⟩

theorem data (h : Simulates before s z new busy c) (hd : 2 ≤ z.depth) (text : Str) :
    ∃ s' z' c', StreamParser.handleData s text = .ok s' ∧ z.handleData text = .ok z' ∧
      Simulates before s' z' new busy c' := by
  obtain ⟨a, p, rest, node, parent, above, rfl, rfl⟩ := h.inner hd
  obtain ⟨⟨kids, hcell, hkids⟩, htail⟩ := h.chain
  have hload := load_of_lookup hcell
  have hdepth : s.depth > 1 := by
    rw [h.depth]
    omega
  have hz : z.depth > 1 := by omega
  have hmem : a ∈ a :: p :: rest := List.mem_cons_self
  have hset := h.write hmem ⟨node.name, node.attrs, kids, (appendContent node text).content, some p⟩
    ⟨appendContent node text, parent :: above⟩ (by
      refine ⟨⟨kids, ?_, hkids.mono (away_set hmem _)⟩, htail.mono (away_set hmem _) ?_⟩
      · exact List.getElem?_set_self (h.chain.allocated a hmem)
      · intro b hb
        have hd := h.distinct
        rw [List.cons_append, List.nodup_cons] at hd
        have hne : a ≠ b := fun heq => hd.1 (heq ▸ List.mem_append_left _ hb)
        exact List.getElem?_set_ne hne)
  refine ⟨_, _, _, ?_, ?_, hset⟩
  · rw [StreamParser.handleData, if_pos hdepth, h.pointer, List.head?_cons, hload]
    rfl
  · rw [TreeParser.handleData, if_pos hz, h.cursor]

theorem stop (h : Simulates before s z new busy c) (hd : 2 ≤ z.depth) :
    ∃ s' z' new' busy' c', StreamParser.endElement s = .ok s' ∧ z.endElement = .ok z' ∧
      Simulates before s' z' new' busy' c' := by
  obtain ⟨a, p, rest, node, parent, above, rfl, rfl⟩ := h.inner hd
  obtain ⟨⟨kids, hcell, hkids⟩, ⟨siblings, hparent, hsiblings⟩, htail⟩ := h.chain
  have hload := load_of_lookup hcell
  have hloadParent := load_of_lookup hparent
  obtain ⟨hpop, hrep⟩ := h.pop
  have hd := h.distinct
  rw [List.cons_append, List.nodup_cons] at hd
  by_cases hdeep : z.depth - 1 > 1
  · have hmem : p ∈ p :: rest := List.mem_cons_self
    have hset := hpop.write hmem
      ⟨parent.name, parent.attrs, siblings ++ [a], parent.content, rest.head?⟩
      ⟨stanzaAddChild parent node, above⟩ (by
        refine ⟨⟨siblings ++ [a], ?_, ?_⟩, hpop.chain.2.mono (away_set hmem _) ?_⟩
        · exact List.getElem?_set_self (hpop.chain.allocated p hmem)
        · apply RepresentsAll.mono (away_set hmem _)
          exact RepresentsAll.snoc hrep (hsiblings.mono (away_close s.heap a (p :: rest)))
        · intro b hb
          have hd' := hd.2
          rw [List.cons_append, List.nodup_cons] at hd'
          have hne : p ≠ b := fun heq => hd'.1 (heq ▸ List.mem_append_left _ hb)
          exact List.getElem?_set_ne hne)
    refine ⟨_, _, _, _, _, ?_, ?_, hset⟩
    · rw [StreamParser.endElement, if_pos (by rw [h.depth]; exact hdeep), h.pointer,
        List.head?_cons, hload]
      change (load s.heap (some p)).bind _ = _
      rw [hloadParent]
      rfl
    · rw [TreeParser.endElement, if_pos hdeep, h.cursor]
  · have hone : z.depth - 1 = 1 := by omega
    have hrest : rest = [] := by
      have := h.nested
      simp only [List.length_cons] at this
      exact List.length_eq_zero_iff.mp (by omega)
    subst hrest
    have hbase : p = before.heap.length := Option.some.inj hpop.root
    subst hbase
    have habove : above = [] := by
      cases above with
      | nil => rfl
      | cons t ts => exact hpop.chain.2.elim
    subst habove
    have hadd := hpop.add hrep hd.1
    refine ⟨_, _, _, _, _, ?_, ?_, hadd⟩
    · rw [StreamParser.endElement, if_neg (by rw [h.depth]; exact hdeep),
        if_pos (by rw [h.depth]; exact hone), h.pointer, List.head?_cons, hload]
      change (shallow s.heap _).bind _ = _
      rw [shallow_eq_outline (away_extends_heap _ _) hkids]
      change Except.ok _ = _
      rw [dispatch_outline]
      rfl
    · rw [TreeParser.endElement, if_neg hdeep, if_pos hone, h.cursor]
      rfl

theorem step (h : Simulates before s z new busy c) (t : Token) (hd : 1 ≤ z.depth + t.level) :
    ∃ s' z' new' busy' c', StreamParser.handle s t.event = .ok s' ∧ z.handle t.event = .ok z' ∧
      Simulates before s' z' new' busy' c' := by
  cases t with
  | start n as => exact ⟨_, _, _, _, _, rfl, rfl, h.start n as⟩
  | stop n =>
      rw [Token.level] at hd
      exact h.stop (by omega)
  | char ch =>
      by_cases hdeep : 2 ≤ z.depth
      · obtain ⟨s', z', c', hs, hz, hsim⟩ := h.data hdeep [ch]
        exact ⟨s', z', new, busy, c', hs, hz, hsim⟩
      · have hs : StreamParser.handleData s [ch] = .ok s := if_neg (by rw [h.depth]; omega)
        have hz : z.handleData [ch] = .ok z := if_neg (by omega)
        exact ⟨s, z, new, busy, c, hs, hz, h⟩

/-- As long as the root stays open, the heap parser follows the tree parser. -/
theorem run (h : Simulates before s z new busy c) (ts : List Token)
    (hopen : ∀ us, us <+: ts → 1 ≤ z.depth + level us) :
    ∃ s' z' new' busy' c', deliver StreamParser.handle s (ts.map Token.event) = .ok s' ∧
      deliver TreeParser.handle z (ts.map Token.event) = .ok z' ∧
      Simulates before s' z' new' busy' c' := by
  induction ts generalizing s z new busy c with
  | nil => exact ⟨s, z, new, busy, c, rfl, rfl, h⟩
  | cons t ts ih =>
      have hfirst := hopen [t] (by simp)
      rw [level_cons, level_nil, Int.add_zero] at hfirst
      obtain ⟨s₁, z₁, new₁, busy₁, c₁, hs₁, hz₁, h₁⟩ := h.step t hfirst
      have hdepth := TreeParser.handle_depth t hz₁
      obtain ⟨s', z', new', busy', c', hs', hz', h'⟩ := ih h₁ (by
        intro us hu
        have := hopen (t :: us) (List.cons_prefix_cons.mpr ⟨rfl, hu⟩)
        rw [level_cons] at this
        omega)
      refine ⟨s', z', new', busy', c', ?_, ?_, h'⟩
      · rw [List.map_cons, deliver_cons s₁ _ hs₁]
        exact hs'
      · rw [List.map_cons, deliver_cons z₁ _ hz₁]
        exact hz'

/-- The root has just started, on whatever an earlier connection left. -/
theorem root_started (before : Parser) (n : Str) (as : List (Str × Str)) :
    Simulates before (StreamParser.startElement (parserInit before) n as)
      ((⟨0, none, []⟩ : TreeParser).startElement n as) (TreeParser.header n)
      [before.heap.length] ⟨stanzaNew n as, []⟩ := by
  constructor
  · rfl
  · rfl
  · rfl
  · rfl
  · refine ⟨⟨[], ?_, rfl⟩, trivial⟩
    change (before.heap ++ [_])[before.heap.length]? = _
    rw [List.getElem?_concat_length]
    rfl
  · rfl
  · intro a ha
    rw [List.mem_singleton] at ha
    exact Nat.le_of_eq ha.symm
  · intro a ha
    exact List.getElem?_append_left ha
  · intro e he
    rw [taken_header] at he
    cases he
  · rw [taken_header]
    exact List.nodup_singleton _
  · rw [taken_header]
    exact (List.append_nil _).symm
  · change before.calls ++ streamStart n = _
    rw [header_calls]
  · change [] ++ TreeParser.header n = _
    rw [header_map, List.nil_append]

end Simulates

theorem handleData_of_lookup {s : Parser} {a : Addr} {cell : Cell} (hd : s.depth > 1)
    (hp : s.curr_stanza = some a) (hcell : s.heap[a]? = some cell) (text : Str) :
    StreamParser.handleData s text = .ok { s with
      heap := s.heap.set a { cell with content := some (cell.content.getD [] ++ text) } } := by
  rw [StreamParser.handleData, if_pos hd, hp, load_of_lookup hcell]
  rfl

theorem handle_cut (s : Parser) (t u : Str) :
    StreamParser.handle s (.data (t ++ u)) =
      (StreamParser.handle s (.data t)).bind fun s => StreamParser.handle s (.data u) := by
  change StreamParser.handleData s (t ++ u) =
    (StreamParser.handleData s t).bind fun s => StreamParser.handleData s u
  by_cases hd : s.depth > 1
  · by_cases hcell : ∃ a cell, s.curr_stanza = some a ∧ s.heap[a]? = some cell
    · obtain ⟨a, cell, hp, hcell⟩ := hcell
      have hlt : a < s.heap.length := (List.getElem?_eq_some_iff.mp hcell).1
      rw [handleData_of_lookup hd hp hcell, handleData_of_lookup hd hp hcell]
      have hwritten := handleData_of_lookup (s := { s with heap := s.heap.set a { cell with
        content := some (cell.content.getD [] ++ t) } }) hd hp (List.getElem?_set_self hlt) u
      change _ = StreamParser.handleData _ u
      rw [hwritten]
      simp
    · have hfault : ∃ f, load s.heap s.curr_stanza = .error f := by
        unfold load
        cases hp : s.curr_stanza with
        | none => exact ⟨_, rfl⟩
        | some a =>
            cases hc : s.heap[a]? with
            | none => exact ⟨.danglingPointer, by simp [hc]⟩
            | some cell => exact (hcell ⟨a, cell, hp, hc⟩).elim
      obtain ⟨f, hf⟩ := hfault
      simp only [StreamParser.handleData, if_pos hd, hf]
      rfl
  · simp only [StreamParser.handleData, if_neg hd]
    exact (if_neg hd).symm

/-- The callbacks for a received stanza, by what the stanza contains. -/
def expectedCalls (a : Addr) (t : XMPPStanza) : List (Call Addr) :=
  if ∃ child ∈ t.children, ⟨"xmlns".toList, "jabber:iq:auth".toList⟩ ∈ child.attrs then [.auth a]
  else
    ((stanzaGetId (some t)).map (Call.id t.name)).toList ++
    ((stanzaGetQueryRequest t).map fun q => .query q (stanzaGetId (some t))).toList ++
    ((stanzaGetXmlns t).map fun x => .xmlns x (stanzaGetId (some t))).toList

theorem dispatch_eq_expectedCalls (a : Addr) (t : XMPPStanza) :
    dispatch a t = expectedCalls a t := by
  unfold expectedCalls
  split_ifs with h
  · rw [← stanzaGetChildByNs_isSome, Option.isSome_iff_exists] at h
    obtain ⟨child, hchild⟩ := h
    exact dispatch_of_auth a hchild
  · rw [← stanzaGetChildByNs_isSome, Option.not_isSome_iff_eq_none] at h
    exact dispatch_of_not_auth a h

theorem Chain.bottom {look : Lookup} {heap : Heap} {as : List Addr} {ts : List XMPPStanza}
    (h : Chain look heap as ts) {root : Addr} (hroot : as.getLast? = some root) :
    ∃ cell, heap[root]? = some cell ∧ cell.parent = none := by
  induction as generalizing ts with
  | nil => cases hroot
  | cons a as ih =>
      cases ts with
      | nil => exact h.elim
      | cons t ts =>
          obtain ⟨⟨kids, hcell, _⟩, htail⟩ := h
          cases as with
          | nil =>
              cases hroot
              exact ⟨_, hcell, rfl⟩
          | cons b bs => exact ih htail (List.getLast?_cons_cons.symm.trans hroot)

/-- What has come out of the parser since `before`: the addresses `new` in the
store show these stanzas. -/
structure Received (before after : Parser) (start : List (Call Addr)) (new : List Addr)
    (stanzas : List XMPPStanza) : Prop where
  store : after.received_stanzas = before.received_stanzas ++ new
  once : new.Nodup
  trees : List.Forall₂ (Represents (fun a => after.heap[a]?) · (some before.heap.length))
    new stanzas
  root : start ≠ [] → ∃ cell, after.heap[before.heap.length]? = some cell ∧ cell.parent = none
  calls : after.calls = before.calls ++ start ++
    (new.zip stanzas).flatMap fun e => .add e.1 :: expectedCalls e.1 e.2
  old : ∀ a < before.heap.length, after.heap[a]? = before.heap[a]?

theorem stanza_arrivals {new : List (Arrival (Addr × XMPPStanza))} {stanzas : List XMPPStanza}
    (h : new.map (Arrival.map Prod.snd) = stanzas.map .stanza) :
    ∃ es : List (Addr × XMPPStanza), new = es.map .stanza ∧ es.map Prod.snd = stanzas := by
  induction new generalizing stanzas with
  | nil =>
      rw [List.map_nil, eq_comm, List.map_eq_nil_iff] at h
      subst h
      exact ⟨[], rfl, rfl⟩
  | cons x xs ih =>
      cases stanzas with
      | nil => cases h
      | cons t ts =>
          rw [List.map_cons, List.map_cons, List.cons.injEq] at h
          obtain ⟨es, rfl, hes⟩ := ih h.2
          cases x with
          | header => cases h.1
          | stanza e =>
              have ht : e.2 = t := Arrival.stanza.inj h.1
              exact ⟨e :: es, rfl, by rw [List.map_cons, ht, hes]⟩

theorem Simulates.received_stream {before s : Parser} {z : TreeParser}
    {new : List (Arrival (Addr × XMPPStanza))} {busy : List Addr} {c : Cursor}
    (h : Simulates before s z new busy c) {stanzas : List XMPPStanza}
    (hz : z.arrivals = .header :: stanzas.map .stanza) :
    ∃ addresses, Received before s [.streamStart] addresses stanzas := by
  rw [h.arrivals] at hz
  cases new with
  | nil => cases hz
  | cons x xs =>
      rw [List.map_cons, List.cons.injEq] at hz
      obtain ⟨es, rfl, rfl⟩ := stanza_arrivals hz.2
      cases x with
      | stanza e => cases hz.1
      | header =>
          have htaken : taken (.header :: es.map .stanza) = es := by
            rw [taken, List.filterMap_cons_none rfl, List.filterMap_map]
            exact List.filterMap_some
          have hstored := h.stored
          have hdistinct := h.distinct
          have hreceived := h.received
          rw [htaken] at hstored hdistinct hreceived
          refine ⟨es.map Prod.fst, ?_⟩
          constructor
          · exact hreceived
          · exact (List.nodup_append.mp hdistinct).2.1
          · rw [List.forall₂_map_left_iff, List.forall₂_map_right_iff, List.forall₂_same]
            intro e he
            exact (hstored e he).mono (away_extends_heap _ _)
          · intro _
            exact h.chain.bottom h.root
          · rw [h.calls, ← List.zip_of_prod rfl rfl, List.flatMap_cons, List.flatMap_map,
              List.append_assoc]
            simp only [Arrival.calls, dispatch_eq_expectedCalls]
          · exact h.old

/-- From the start tag on, up to any point of the root's content. -/
theorem content_received (before : Parser) (as : List (Str × Str)) (kids : List Node)
    (hkids : ForestNamed (fun n => ¬ TreeParser.isStreamName n) kids) {us : List Token}
    (hus : us <+: forestTokens kids) :
    ∃ after new, deliver StreamParser.handle (parserInit before)
        (.start "stream:stream".toList as :: us.map Token.event) = .ok after ∧
      Received before after [.streamStart] new (stanzasOf (closedWithin kids us.length)) ∧
      (us = forestTokens kids → after.depth = 1) := by
  let z₀ : TreeParser := ⟨0, none, []⟩
  have hstart := Simulates.root_started before "stream:stream".toList as
  obtain ⟨after, z, new, busy, c, hafter, hz, hsim⟩ := hstart.run us (by
    intro ws hws
    have := level_prefix_forest kids (hws.trans hus)
    change 1 ≤ 1 + level ws
    omega)
  obtain ⟨z', hz', harrivals⟩ := TreeParser.deliver_stream z₀ rfl as kids hkids
    (hus.trans (List.prefix_append _ _))
  have hsame : z' = z := by
    have hroot : deliver TreeParser.handle z₀
        (.start "stream:stream".toList as :: us.map Token.event) = .ok z := hz
    exact Except.ok.inj (hz'.symm.trans hroot)
  subst hsame
  obtain ⟨addresses, hreceived⟩ := hsim.received_stream harrivals
  refine ⟨after, addresses, hafter, hreceived, ?_⟩
  intro hall
  have hdepth := TreeParser.deliver_depth hz
  rw [hall, level_forestTokens] at hdepth
  exact hsim.depth.trans hdepth

/-- After every prefix of a stream's events, however the character data is cut and
whatever an earlier connection left behind, the stanzas closed so far are in the
store and their callbacks have been made. -/
theorem stream_received (before : Parser) (as : List (Str × Str)) (kids : List Node)
    (hkids : ForestNamed (fun n => n ≠ "stream:stream".toList) kids) (es : List Event)
    (hes : Reports es (Node.elem "stream:stream".toList as kids).tokens) (seen : List Event)
    (hseen : seen <+: es) :
    let n := (seen.flatMap Event.tokens).length
    ∃ after new, parserFeed (parserInit before) seen = .ok after ∧
      Received before after (if n = 0 then [] else [.streamStart]) new
        (stanzasOf (closedWithin kids (n - 1))) := by
  obtain ⟨us, hus, hreports⟩ := hes.prefix hseen
  rw [hreports.tokens, parserFeed, deliver_reports handle_cut _ hreports]
  rcases List.prefix_cons_iff.mp hus with rfl | ⟨vs, rfl, hvs⟩
  · have hnone : closedWithin kids 0 = [] := by
      cases kids with
      | nil => rfl
      | cons k ks =>
          have := List.length_pos_iff.mpr k.tokens_ne_nil
          rw [closedWithin, if_neg (by omega)]
    refine ⟨parserInit before, [], rfl, ?_⟩
    change Received before (parserInit before) [] [] (stanzasOf (closedWithin kids 0))
    rw [hnone]
    constructor
    · exact (List.append_nil _).symm
    · exact List.nodup_nil
    · exact List.Forall₂.nil
    · intro h
      exact (h rfl).elim
    · exact (List.append_nil _).symm.trans (List.append_nil _).symm
    · intro a _
      rfl
  · rw [List.map_cons, List.length_cons]
    dsimp only
    rw [if_neg (Nat.succ_ne_zero _), Nat.add_sub_cancel]
    rcases prefix_append_cases hvs with ⟨hpart, _⟩ | ⟨ws, rfl, hws⟩
    · obtain ⟨after, new, hafter, hreceived, _⟩ := content_received before as kids hkids hpart
      exact ⟨after, new, hafter, hreceived⟩
    · obtain ⟨after, new, hafter, hreceived, hdepth⟩ :=
        content_received before as kids hkids List.prefix_rfl
      rw [closedWithin_all kids (Nat.le_refl _)] at hreceived
      rw [closedWithin_all kids (by simp)]
      rcases List.prefix_cons_iff.mp hws with rfl | ⟨xs, rfl, hxs⟩
      · rw [List.append_nil]
        exact ⟨after, new, hafter, hreceived⟩
      · rw [List.prefix_nil.mp hxs, List.map_append, ← List.cons_append]
        have hstop : StreamParser.handle after (.stop "stream:stream".toList) =
            .ok { after with depth := after.depth - 1 } := by
          have hone := hdepth rfl
          rw [StreamParser.handle, StreamParser.endElement, if_neg (by omega), if_neg (by omega)]
          rfl
        refine ⟨_, new, deliver_trans hafter (deliver_cons _ [] hstop), ?_⟩
        exact ⟨hreceived.store, hreceived.once, hreceived.trees, hreceived.root,
          hreceived.calls, hreceived.old⟩

/-- A message is in the store as soon as its end tag has been reported. -/
theorem stream_received_message :
    ∃ after new, parserFeed (parserInit ⟨[], 7, some 3, [], []⟩)
        [.start "stream:stream".toList [], .start "message".toList [], .data "hi".toList,
          .stop "message".toList] = .ok after ∧
      Received ⟨[], 7, some 3, [], []⟩ after [.streamStart] new
        [⟨"message".toList, [], [], some "hi".toList⟩] :=
  stream_received ⟨[], 7, some 3, [], []⟩ [] [.elem "message".toList [] [.char 'h', .char 'i']]
    ⟨⟨by decide, trivial, trivial, trivial⟩, trivial⟩
    [.start "stream:stream".toList [], .start "message".toList [], .data "hi".toList,
      .stop "message".toList, .stop "stream:stream".toList]
    ⟨by simp, rfl⟩ _ ⟨[.stop "stream:stream".toList], rfl⟩

end Stabber.StreamParsing
