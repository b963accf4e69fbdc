import Stabber.PointerForests
import Stabber.StanzaLifetime

/-!
# The memory of received stanzas

The handlers of the stream parser, the polls that clear and `stanzas_free_all`, with every
cell that `stanza_free` frees. Whatever events come, no handler meets a null or dangling
pointer, and each cell of each received stanza is freed once, when the stanza leaves the
store.
-/

namespace Stabber.StanzaMemory
open XmlDocument Stanza Stanzas StreamParser StanzaLifetime PointerForests

/-- The children of the stanza at an address. -/
def childrenAt (heap : Heap) (a : Addr) : Option (List Addr) := heap[a]?.map Cell.children

/-- The cells that the call frees. -/
def stanzaFree (heap : Heap) (a : Addr) : List Addr := walk (childrenAt heap) heap.length a

structure Memory where
  parser : Parser
  /-- History: the cells freed so far, in order. -/
  freed : List Addr
deriving Repr

inductive Action where
  /-- `parser_init`, for a new connection. -/
  | init
  /-- The XML parser reports an event to the handlers. -/
  | event (e : Event)
  /-- One poll of `verify_any`. -/
  | verifyAny (template : XMPPStanza) (clear : Bool)
  | freeAll

/-- The calls of `stanzas_add`. -/
def addedIn (calls : List (Call Addr)) : List Addr :=
  calls.filterMap fun
    | .add a => some a
    | _ => none

namespace Memory
variable (m : Memory)

def view : Addr → XMPPStanza := stanzaAt m.parser.heap m.parser.heap.length

/-- `stanzas_verify_any`, and the free of the stanza that it removes. -/
def verifyAny (template : XMPPStanza) (clear : Bool) : Memory where
  parser := { m.parser with
    received_stanzas := (stanzasVerifyAny m.view template clear m.parser.received_stanzas).2 }
  freed := m.freed ++
    if clear then
      ((m.parser.received_stanzas.find? fun a =>
        stanzasEqual (m.view a) template = 0).toList).flatMap (stanzaFree m.parser.heap)
    else []

def freeAll : Memory where
  parser := { m.parser with received_stanzas := [] }
  freed := m.freed ++ m.parser.received_stanzas.flatMap (stanzaFree m.parser.heap)

def step : Action → Except Fault Memory
  | .init => .ok { m with parser := parserInit m.parser }
  | .event e => (handle m.parser e).map fun parser => { m with parser := parser }
  | .verifyAny template clear => .ok (m.verifyAny template clear)
  | .freeAll => .ok m.freeAll

/-- The stanzas that the parser has added to the store. -/
def added : List Addr := addedIn m.parser.calls

/-- The cells that the handler of an event looks at or writes to. -/
def reads : Event → List Addr
  | .start _ _ => []
  | .stop _ =>
      if m.parser.depth - 1 > 1 then
        m.parser.curr_stanza.toList ++
          (m.parser.curr_stanza.bind fun a => m.parser.heap[a]?.bind Cell.parent).toList
      else if m.parser.depth - 1 = 1 then
        m.parser.curr_stanza.toList ++
          ((m.parser.curr_stanza.bind (childrenAt m.parser.heap)).getD [])
      else []
  | .data _ => if m.parser.depth > 1 then m.parser.curr_stanza.toList else []

def start : Memory := ⟨⟨[], 0, none, [], []⟩, []⟩

end Memory

/-! ## The open stanzas -/

/-- The open stanzas, the innermost first, and all cells that belong to them. -/
inductive Path (heap : Heap) : List Addr → List Addr → Prop where
  | nil : Path heap [] []
  | cons {a : Addr} {as below rest : List Addr} {cell : Cell} (hcell : heap[a]? = some cell)
      (hparent : cell.parent = as.head?) (hchildren : Forest (childrenAt heap) cell.children below)
      (hpath : Path heap as rest) : Path heap (a :: as) (below ++ a :: rest)

theorem Path.congr {heap heap' : Heap} {as cells : List Addr} (h : Path heap as cells)
    (hsame : ∀ a ∈ cells, heap'[a]? = heap[a]?) : Path heap' as cells := by
  induction h with
  | nil => exact .nil
  | @cons a as below rest cell hcell hparent hchildren _ ih =>
      refine .cons ?_ hparent (hchildren.congr fun b hb => ?_) (ih fun b hb => ?_)
      · rw [hsame a (List.mem_append_right _ List.mem_cons_self)]
        exact hcell
      · rw [childrenAt, hsame b (List.mem_append_left _ hb)]
        rfl
      · exact hsame b (List.mem_append_right _ (List.mem_cons_of_mem a hb))

theorem Path.mem {heap : Heap} {as cells : List Addr} (h : Path heap as cells) {a : Addr}
    (ha : a ∈ as) : a ∈ cells := by
  induction h with
  | nil => cases ha
  | cons _ _ _ _ ih =>
      rcases List.mem_cons.mp ha with rfl | ha
      · exact List.mem_append_right _ List.mem_cons_self
      · exact List.mem_append_right _ (List.mem_cons_of_mem _ (ih ha))

/-- Every cell has one owner: it has been freed, it belongs to a stanza in the store or to
an open one, or it is never looked at again. -/
structure Owned (m : Memory) (path opened stored total : List Addr) : Prop where
  depth : path.length = m.parser.depth.toNat
  curr_stanza : 0 < m.parser.depth → m.parser.curr_stanza = path.head?
  open_stanzas : Path m.parser.heap path opened
  received_stanzas : Forest (childrenAt m.parser.heap) m.parser.received_stanzas stored
  added : Forest (childrenAt m.parser.heap) m.added total
  balance : total.Perm (m.freed ++ stored)
  distinct : (m.freed ++ stored ++ opened).Nodup
  allocated : ∀ a ∈ m.freed ++ stored ++ opened, a < m.parser.heap.length

def Sound (m : Memory) : Prop := ∃ path opened stored total, Owned m path opened stored total

/-- A poll takes one stanza and frees it, or it does nothing. -/
theorem verifyAny_cases (m : Memory) (template : XMPPStanza) (clear : Bool) :
    ((m.verifyAny template clear).parser.received_stanzas = m.parser.received_stanzas ∧
      (m.verifyAny template clear).freed = m.freed) ∨
    ∃ before r after, m.parser.received_stanzas = before ++ r :: after ∧
      (m.verifyAny template clear).parser.received_stanzas = before ++ after ∧
      (m.verifyAny template clear).freed = m.freed ++ stanzaFree m.parser.heap r := by
  cases clear with
  | false => exact Or.inl ⟨stanzasVerifyAny_keep m.view template _, List.append_nil _⟩
  | true =>
      rcases stanzasVerifyAny_cases m.view template true m.parser.received_stanzas with
        ⟨hnone, hsame⟩ | ⟨before, r, after, hsplit, hbefore, hmatch, hfound⟩
      · have hfind : m.parser.received_stanzas.find?
            (fun a => stanzasEqual (m.view a) template = 0) = none := by
          rw [List.find?_eq_none]
          intro a ha
          simpa using hnone a ha
        refine Or.inl ⟨congrArg Prod.snd hsame, ?_⟩
        change m.freed ++ (List.find? _ _).toList.flatMap _ = _
        rw [hfind]
        exact List.append_nil _
      · have hfind : m.parser.received_stanzas.find?
            (fun a => stanzasEqual (m.view a) template = 0) = some r := by
          rw [List.find?_eq_some_iff_append]
          refine ⟨decide_eq_true hmatch, before, after, hsplit, ?_⟩
          intro a ha
          simpa using hbefore a ha
        refine Or.inr ⟨before, r, after, hsplit, congrArg Prod.snd hfound, ?_⟩
        change m.freed ++ (List.find? _ _).toList.flatMap _ = _
        rw [hfind]
        exact congrArg _ (List.flatMap_singleton _ r)

namespace Owned
variable {m : Memory} {path opened stored total : List Addr}

/-- A walk over received stanzas visits each of their cells once. -/
theorem walk_cells (h : Owned m path opened stored total) {roots cells : List Addr}
    (hroots : Forest (childrenAt m.parser.heap) roots cells)
    (hsub : cells.Subperm (m.freed ++ stored)) :
    roots.flatMap (stanzaFree m.parser.heap) = cells := by
  obtain ⟨cells', hperm, hsublist⟩ := hsub
  have hdistinct := hperm.nodup_iff.mp (h.distinct.of_append_left.sublist hsublist)
  refine hroots.walk_eq (length_le_of_nodup hdistinct fun a ha => ?_)
  exact h.allocated a (List.mem_append_left _ (hsublist.subset (hperm.mem_iff.mpr ha)))

theorem walk_stored (h : Owned m path opened stored total) :
    m.parser.received_stanzas.flatMap (stanzaFree m.parser.heap) = stored :=
  h.walk_cells h.received_stanzas (List.sublist_append_right _ _).subperm

theorem init (h : Owned m path opened stored total) :
    Owned { m with parser := parserInit m.parser } [] [] stored total where
  depth := rfl
  curr_stanza := fun hpos => (Int.lt_irrefl 0 hpos).elim
  open_stanzas := .nil
  received_stanzas := h.received_stanzas
  added := h.added
  balance := h.balance
  distinct := by
    rw [List.append_nil]
    exact h.distinct.of_append_left
  allocated := by
    rw [List.append_nil]
    exact fun a ha => h.allocated a (List.mem_append_left _ ha)

theorem freeAll (h : Owned m path opened stored total) : Owned m.freeAll path opened [] total := by
  have hcells : m.freeAll.freed = m.freed ++ stored := by
    rw [← h.walk_stored]
    rfl
  refine ⟨h.depth, h.curr_stanza, h.open_stanzas, .nil, h.added, ?_, ?_, ?_⟩
  · rw [hcells, List.append_nil]
    exact h.balance
  · rw [hcells, List.append_nil]
    exact h.distinct
  · rw [hcells, List.append_nil]
    exact h.allocated

/-- The poll frees the stanza that it takes, with everything below it. -/
theorem verifyAny (h : Owned m path opened stored total) (template : XMPPStanza) (clear : Bool) :
    ∃ stored', Owned (m.verifyAny template clear) path opened stored' total := by
  rcases verifyAny_cases m template clear with
    ⟨hstore, hfreed⟩ | ⟨before, r, after, hsplit, hstore, hfreed⟩
  · refine ⟨stored, h.depth, h.curr_stanza, h.open_stanzas, ?_, h.added, ?_, ?_, ?_⟩
    · rw [hstore]
      exact h.received_stanzas
    · rw [hfreed]
      exact h.balance
    · rw [hfreed]
      exact h.distinct
    · rw [hfreed]
      exact h.allocated
  · have hforest := h.received_stanzas
    rw [hsplit] at hforest
    obtain ⟨below, taken, rest, rfl, hbelow, htaken, hrest⟩ := hforest.take
    have hsub : taken.Sublist (m.freed ++ (below ++ (taken ++ rest))) :=
      ((List.sublist_append_left _ _).trans (List.sublist_append_right _ _)).trans
        (List.sublist_append_right _ _)
    have hcells : stanzaFree m.parser.heap r = taken := by
      rw [← h.walk_cells htaken hsub.subperm]
      exact (List.flatMap_singleton _ r).symm
    rw [hcells] at hfreed
    have hperm : (m.freed ++ (below ++ (taken ++ rest))).Perm
        (m.freed ++ taken ++ (below ++ rest)) := by
      rw [List.append_assoc m.freed taken]
      exact (List.perm_append_comm_assoc below taken rest).append_left m.freed
    refine ⟨below ++ rest, h.depth, h.curr_stanza, h.open_stanzas, ?_, h.added, ?_, ?_, ?_⟩
    · rw [hstore]
      exact hbelow.append hrest
    · rw [hfreed]
      exact h.balance.trans hperm
    · rw [hfreed]
      exact (hperm.append_right opened).nodup_iff.mp h.distinct
    · rw [hfreed]
      exact fun a ha => h.allocated a ((hperm.append_right opened).mem_iff.mpr ha)

/-- The stanzas that have been received are not written to. -/
theorem closed (h : Owned m path opened stored total) {heap' : Heap}
    (hsame : ∀ a ∈ m.freed ++ stored, heap'[a]? = m.parser.heap[a]?) :
    Forest (childrenAt heap') m.parser.received_stanzas stored ∧
      Forest (childrenAt heap') m.added total := by
  have hchildren : ∀ a ∈ m.freed ++ stored,
      childrenAt heap' a = childrenAt m.parser.heap a := by
    intro a ha
    rw [childrenAt, hsame a ha]
    rfl
  exact ⟨h.received_stanzas.congr fun a ha => hchildren a (List.mem_append_right _ ha),
    h.added.congr fun a ha => hchildren a (h.balance.mem_iff.mp ha)⟩

/-- A new cell belongs to nobody yet. -/
theorem fresh (h : Owned m path opened stored total) :
    m.parser.heap.length ∉ m.freed ++ stored ++ opened :=
  fun hmem => Nat.lt_irrefl _ (h.allocated _ hmem)

/-- A start tag adds no stanza. -/
theorem added_startElement (m : Memory) (element : Str) (attributes : List (Str × Str)) :
    Memory.added { m with parser := StreamParser.startElement m.parser element attributes } =
      m.added := by
  change addedIn (m.parser.calls ++ streamStart element) = _
  unfold addedIn streamStart
  rw [List.filterMap_append]
  split_ifs
  · exact List.append_nil _
  · exact List.append_nil _

theorem startElement (h : Owned m path opened stored total) (element : Str)
    (attributes : List (Str × Str)) : Sound { m with
      parser := startElement m.parser element attributes } := by
  obtain ⟨new, hchildren, hparent, hheap⟩ : ∃ new : Cell, new.children = [] ∧
      new.parent = (if m.parser.depth = 0 then none else m.parser.curr_stanza) ∧
      (StreamParser.startElement m.parser element attributes).heap = m.parser.heap ++ [new] :=
    ⟨_, rfl, rfl, rfl⟩
  have hsame : ∀ a ∈ m.freed ++ stored ++ opened,
      (m.parser.heap ++ [new])[a]? = m.parser.heap[a]? :=
    fun a ha => List.getElem?_append_left (h.allocated a ha)
  have hforests := h.closed fun a ha => hsame a (List.mem_append_left _ ha)
  rw [← hheap] at hsame hforests
  have hcalls := added_startElement m element attributes
  have hlength : (StreamParser.startElement m.parser element attributes).heap.length =
      m.parser.heap.length + 1 := by
    rw [hheap, List.length_append, List.length_singleton]
  by_cases hpos : 0 ≤ m.parser.depth
  · refine ⟨m.parser.heap.length :: path, m.parser.heap.length :: opened, stored, total, ?_,
      fun _ => rfl, ?_, hforests.1, ?_, h.balance, ?_, ?_⟩
    · have hdepth := h.depth
      change path.length + 1 = (m.parser.depth + 1).toNat
      omega
    · have hcell : (StreamParser.startElement m.parser element attributes).heap[
          m.parser.heap.length]? = some new := by
        rw [hheap]
        exact List.getElem?_concat_length
      have hup : new.parent = path.head? := by
        rw [hparent]
        split_ifs with hzero
        · have hdepth := h.depth
          rw [hzero] at hdepth
          rw [List.length_eq_zero_iff.mp hdepth]
          rfl
        · exact h.curr_stanza (by omega)
      have hleaf : Forest (childrenAt (StreamParser.startElement m.parser element attributes).heap)
          new.children [] := by
        rw [hchildren]
        exact .nil
      have hpath := h.open_stanzas.congr fun a ha => hsame a (List.mem_append_right _ ha)
      have hopen := Path.cons hcell hup hleaf hpath
      exact hopen
    · rw [hcalls]
      exact hforests.2
    · exact List.nodup_middle.mpr (List.nodup_cons.mpr ⟨h.fresh, h.distinct⟩)
    · intro a ha
      change a < (StreamParser.startElement m.parser element attributes).heap.length
      rw [hlength]
      rcases List.mem_cons.mp (List.perm_middle.mem_iff.mp ha) with rfl | ha
      · exact Nat.lt_succ_self _
      · exact Nat.lt_succ_of_lt (h.allocated a ha)
  · refine ⟨[], [], stored, total, ?_, ?_, .nil, hforests.1, ?_, h.balance, ?_, ?_⟩
    · change 0 = (m.parser.depth + 1).toNat
      omega
    · intro hafter
      change 0 < m.parser.depth + 1 at hafter
      omega
    · rw [hcalls]
      exact hforests.2
    · rw [List.append_nil]
      exact h.distinct.of_append_left
    · rw [List.append_nil]
      intro a ha
      change a < (StreamParser.startElement m.parser element attributes).heap.length
      rw [hlength]
      exact Nat.lt_succ_of_lt (h.allocated a (List.mem_append_left _ ha))

/-- Inside of the root there is a current stanza. -/
theorem current (h : Owned m path opened stored total) (hpos : 0 < m.parser.depth) :
    ∃ a as below rest cell, path = a :: as ∧ opened = below ++ a :: rest ∧
      m.parser.curr_stanza = some a ∧ m.parser.heap[a]? = some cell ∧ cell.parent = as.head? ∧
      Forest (childrenAt m.parser.heap) cell.children below ∧ Path m.parser.heap as rest := by
  have hlength := h.depth
  have hcurr := h.curr_stanza hpos
  have hpath := h.open_stanzas
  cases hpath with
  | nil =>
      change 0 = m.parser.depth.toNat at hlength
      omega
  | @cons a as below rest cell hcell hparent hchildren hrest =>
      exact ⟨a, as, below, rest, cell, rfl, rfl, hcurr, hcell, hparent, hchildren, hrest⟩

/-- A write to an open cell changes no other one. -/
theorem written {xs below rest : List Addr} {a : Addr} (h : (xs ++ (below ++ a :: rest)).Nodup)
    (heap : Heap) (cell : Cell) :
    ∀ b ∈ xs ++ (below ++ rest), (heap.set a cell)[b]? = heap[b]? := by
  intro b hb
  refine List.getElem?_set_ne ?_
  rintro rfl
  rw [← List.append_assoc] at h hb
  exact (List.nodup_cons.mp (List.nodup_middle.mp h)).1 hb

theorem handleData (h : Owned m path opened stored total) (text : Str) :
    ∃ parser, handleData m.parser text = .ok parser ∧ Sound { m with parser := parser } := by
  unfold StreamParser.handleData
  by_cases hdeep : m.parser.depth > 1
  · obtain ⟨a, as, below, rest, cell, rfl, rfl, hcurr, hcell, hparent, hchildren, hrest⟩ :=
      h.current (by omega)
    obtain ⟨new, hnew, hnewparent, hnewchildren⟩ : ∃ new : Cell,
        new = { cell with content := some (cell.content.getD [] ++ text) } ∧
        new.parent = cell.parent ∧ new.children = cell.children := ⟨_, rfl, rfl, rfl⟩
    have hsame := written h.distinct m.parser.heap new
    have hforests := h.closed fun b hb => hsame b (List.mem_append_left _ hb)
    rw [if_pos hdeep, hcurr, StreamParsing.load_of_lookup hcell]
    refine ⟨{ m.parser with heap := m.parser.heap.set a new }, ?_, a :: as, below ++ a :: rest,
      stored, total, h.depth, fun _ => hcurr, ?_, hforests.1, hforests.2, h.balance, h.distinct, ?_⟩
    · rw [hnew, ← hcurr]
      rfl
    · refine .cons (List.getElem?_set_self (List.getElem?_eq_some_iff.mp hcell).1) ?_ ?_ ?_
      · rw [hnewparent]
        exact hparent
      · rw [hnewchildren]
        refine hchildren.congr fun b hb => ?_
        rw [childrenAt, hsame b (List.mem_append_right _ (List.mem_append_left _ hb))]
        rfl
      · exact hrest.congr fun b hb => hsame b (List.mem_append_right _ (List.mem_append_right _ hb))
    · intro b hb
      rw [List.length_set]
      exact h.allocated b hb
  · rw [if_neg hdeep]
    exact ⟨m.parser, rfl, path, opened, stored, total, h⟩

/-- The current stanza joins its parent. -/
theorem endChild (h : Owned m path opened stored total) (hdeep : m.parser.depth - 1 > 1) :
    ∃ parser, endElement m.parser = .ok parser ∧ Sound { m with parser := parser } := by
  obtain ⟨a, as, below, rest, cell, rfl, rfl, hcurr, hcell, hparent, hchildren, hrest⟩ :=
    h.current (by omega)
  have hlength := h.depth
  cases hrest with
  | nil =>
      change 1 = m.parser.depth.toNat at hlength
      omega
  | @cons p as below' rest parent hcellp hparentp hchildrenp hrest =>
      have hp : cell.parent = some p := hparent
      obtain ⟨new, hnew, hnewparent, hnewchildren⟩ : ∃ new : Cell,
          new = { parent with children := parent.children ++ [a] } ∧
          new.parent = parent.parent ∧ new.children = parent.children ++ [a] := ⟨_, rfl, rfl, rfl⟩
      have hperm : (m.freed ++ stored ++ (below ++ a :: (below' ++ p :: rest))).Perm
          (m.freed ++ stored ++ (below' ++ (below ++ [a]) ++ p :: rest)) := by
        rw [List.append_cons below a, List.append_assoc below']
        exact (List.perm_append_comm_assoc _ _ _).append_left _
      have hdistinct := hperm.nodup_iff.mp h.distinct
      have hsame := written hdistinct m.parser.heap new
      have hforests := h.closed fun b hb => hsame b (List.mem_append_left _ hb)
      have hbelow : ∀ b ∈ below' ++ (below ++ [a]),
          childrenAt (m.parser.heap.set p new) b = childrenAt m.parser.heap b := by
        intro b hb
        rw [childrenAt, hsame b (List.mem_append_right _ (List.mem_append_left _ hb))]
        rfl
      have htree : Forest (childrenAt m.parser.heap) (parent.children ++ [a])
          (below' ++ (below ++ [a])) := by
        refine hchildrenp.append (.tree ?_ hchildren)
        rw [childrenAt, hcell]
        rfl
      refine ⟨{ m.parser with
        heap := m.parser.heap.set p new
        depth := m.parser.depth - 1
        curr_stanza := some p }, ?_, p :: as, below' ++ (below ++ [a]) ++ p :: rest, stored, total,
        ?_, fun _ => rfl, ?_, hforests.1, hforests.2, h.balance, hdistinct, ?_⟩
      · unfold endElement
        rw [if_pos hdeep, hcurr, StreamParsing.load_of_lookup hcell]
        change (load m.parser.heap cell.parent >>= _) = _
        rw [hp, StreamParsing.load_of_lookup hcellp, hnew]
        rfl
      · change as.length + 1 + 1 = m.parser.depth.toNat at hlength
        change as.length + 1 = (m.parser.depth - 1).toNat
        omega
      · refine .cons (List.getElem?_set_self (List.getElem?_eq_some_iff.mp hcellp).1) ?_ ?_ ?_
        · rw [hnewparent]
          exact hparentp
        · rw [hnewchildren]
          exact htree.congr hbelow
        · exact hrest.congr fun b hb =>
            hsame b (List.mem_append_right _ (List.mem_append_right _ hb))
      · intro b hb
        rw [List.length_set]
        exact h.allocated b (hperm.mem_iff.mpr hb)

/-- The children of a stanza can be read. -/
theorem load_roots {heap : Heap} {roots cells : List Addr}
    (h : Forest (childrenAt heap) roots cells) :
    ∃ loaded, (roots.mapM fun a => load heap (some a)) = .ok loaded := by
  induction h with
  | nil => exact ⟨[], rfl⟩
  | @cons a children roots below rest hlook _ _ _ ih =>
      obtain ⟨loaded, hloaded⟩ := ih
      obtain ⟨child, hchild, -⟩ := Option.map_eq_some_iff.mp hlook
      refine ⟨(a, child) :: loaded, ?_⟩
      rw [List.mapM_cons, StreamParsing.load_of_lookup hchild, hloaded]
      rfl

theorem addedIn_dispatch (calls : List (Call Addr)) (a : Addr) (s : XMPPStanza) :
    addedIn (calls ++ .add a :: dispatch a s) = addedIn calls ++ [a] := by
  have hnone : addedIn (dispatch a s) = [] := by
    refine List.filterMap_eq_nil_iff.mpr fun c hc => ?_
    cases c with
    | add b => exact (add_notMem_dispatch a b s hc).elim
    | _ => rfl
  unfold addedIn at hnone ⊢
  rw [List.filterMap_append, List.filterMap_cons]
  dsimp only
  rw [hnone]

/-- The current stanza goes to the store. -/
theorem endStanza (h : Owned m path opened stored total) (hends : m.parser.depth - 1 = 1) :
    ∃ parser, endElement m.parser = .ok parser ∧ Sound { m with parser := parser } := by
  obtain ⟨a, as, below, rest, cell, rfl, rfl, hcurr, hcell, hparent, hchildren, hrest⟩ :=
    h.current (by omega)
  obtain ⟨loaded, hloaded⟩ := load_roots hchildren
  have htree : Forest (childrenAt m.parser.heap) [a] (below ++ [a]) := by
    refine .tree ?_ hchildren
    rw [childrenAt, hcell]
    rfl
  obtain ⟨stanza, hstanza⟩ : ∃ stanza, shallow m.parser.heap cell = .ok stanza := by
    unfold shallow
    rw [hloaded]
    exact ⟨_, rfl⟩
  have hsplit : m.freed ++ (stored ++ (below ++ [a])) ++ rest =
      m.freed ++ stored ++ (below ++ a :: rest) := by
    simp only [List.append_assoc, List.singleton_append]
  refine ⟨{ m.parser with
    depth := m.parser.depth - 1
    curr_stanza := cell.parent
    received_stanzas := m.parser.received_stanzas ++ [a]
    calls := m.parser.calls ++ .add a :: dispatch a stanza }, ?_, as, rest,
    stored ++ (below ++ [a]), total ++ (below ++ [a]), ?_, fun _ => hparent, hrest,
    h.received_stanzas.append htree, ?_, ?_, ?_, ?_⟩
  · unfold StreamParser.endElement
    rw [hends]
    rw [if_neg (by omega), if_pos rfl, hcurr, StreamParsing.load_of_lookup hcell]
    change (shallow m.parser.heap cell >>= _) = _
    rw [hstanza]
    rfl
  · have hlength := h.depth
    change as.length + 1 = m.parser.depth.toNat at hlength
    change as.length = (m.parser.depth - 1).toNat
    omega
  · have hcalls : Memory.added { m with parser := { m.parser with
        depth := m.parser.depth - 1
        curr_stanza := cell.parent
        received_stanzas := m.parser.received_stanzas ++ [a]
        calls := m.parser.calls ++ .add a :: dispatch a stanza } } = m.added ++ [a] :=
      addedIn_dispatch m.parser.calls a stanza
    rw [hcalls]
    exact h.added.append htree
  · have hbalance := h.balance.append_right (below ++ [a])
    rw [List.append_assoc m.freed] at hbalance
    exact hbalance
  · rw [hsplit]
    exact h.distinct
  · rw [hsplit]
    exact h.allocated

theorem endElement (h : Owned m path opened stored total) :
    ∃ parser, endElement m.parser = .ok parser ∧ Sound { m with parser := parser } := by
  by_cases hdeep : m.parser.depth - 1 > 1
  · exact h.endChild hdeep
  by_cases hends : m.parser.depth - 1 = 1
  · exact h.endStanza hends
  refine ⟨{ m.parser with depth := m.parser.depth - 1 }, ?_, [], [], stored, total, ?_, ?_, .nil,
    h.received_stanzas, h.added, h.balance, ?_, ?_⟩
  · rw [StreamParser.endElement, if_neg hdeep, if_neg hends]
    rfl
  · change 0 = (m.parser.depth - 1).toNat
    omega
  · intro hafter
    change 0 < m.parser.depth - 1 at hafter
    omega
  · rw [List.append_nil]
    exact h.distinct.of_append_left
  · rw [List.append_nil]
    exact fun a ha => h.allocated a (List.mem_append_left _ ha)

/-- What the handlers read belongs to an open stanza. -/
theorem reads (h : Owned m path opened stored total) (e : Event) :
    ∀ b ∈ m.reads e, b ∈ opened := by
  intro b hb
  cases e with
  | start element attributes => cases hb
  | stop element =>
      unfold Memory.reads at hb
      dsimp only at hb
      split_ifs at hb with hdeep hends
      · obtain ⟨a, as, below, rest, cell, rfl, rfl, hcurr, hcell, hparent, -, hrest⟩ :=
          h.current (by omega)
        rw [hcurr, Option.bind_some, hcell, Option.bind_some, hparent] at hb
        rcases List.mem_append.mp hb with hself | hup
        · rw [List.mem_singleton.mp hself]
          exact List.mem_append_right _ List.mem_cons_self
        · refine List.mem_append_right _ (List.mem_cons_of_mem a ?_)
          exact hrest.mem (List.mem_of_mem_head? (Option.mem_toList.mp hup))
      · obtain ⟨a, as, below, rest, cell, rfl, rfl, hcurr, hcell, -, hchildren, -⟩ :=
          h.current (by omega)
        rw [hcurr, Option.bind_some, childrenAt, hcell] at hb
        rcases List.mem_append.mp hb with hself | hchild
        · rw [List.mem_singleton.mp hself]
          exact List.mem_append_right _ List.mem_cons_self
        · exact List.mem_append_left _ (hchildren.root_mem hchild)
      · cases hb
  | data text =>
      unfold Memory.reads at hb
      dsimp only at hb
      split_ifs at hb with hdeep
      · obtain ⟨a, as, below, rest, cell, rfl, rfl, hcurr, -⟩ := h.current (by omega)
        rw [hcurr] at hb
        rw [List.mem_singleton.mp hb]
        exact List.mem_append_right _ List.mem_cons_self
      · cases hb

end Owned

/-! ## Every run -/

theorem sound_step {m : Memory} (h : Sound m) (a : Action) :
    ∃ m', m.step a = .ok m' ∧ Sound m' := by
  obtain ⟨path, opened, stored, total, h⟩ := h
  cases a with
  | init => exact ⟨_, rfl, [], [], stored, total, h.init⟩
  | verifyAny template clear =>
      obtain ⟨stored', h'⟩ := h.verifyAny template clear
      exact ⟨_, rfl, path, opened, stored', total, h'⟩
  | freeAll => exact ⟨_, rfl, path, opened, [], total, h.freeAll⟩
  | event e =>
      cases e with
      | start element attributes => exact ⟨_, rfl, h.startElement element attributes⟩
      | stop element =>
          obtain ⟨parser, hparser, h'⟩ := h.endElement
          refine ⟨{ m with parser := parser }, ?_, h'⟩
          rw [Memory.step, handle, hparser]
          rfl
      | data text =>
          obtain ⟨parser, hparser, h'⟩ := h.handleData text
          refine ⟨{ m with parser := parser }, ?_, h'⟩
          rw [Memory.step, handle, hparser]
          rfl

theorem sound_start : Sound Memory.start := by
  refine ⟨[], [], [], [], rfl, ?_, .nil, .nil, .nil, .nil, List.nodup_nil, ?_⟩
  · exact fun hpos => (Int.lt_irrefl 0 hpos).elim
  · intro a ha
    cases ha

theorem sound_run {m : Memory} (h : Sound m) (as : List Action) :
    ∃ m', as.foldlM Memory.step m = .ok m' ∧ Sound m' := by
  induction as generalizing m with
  | nil => exact ⟨m, rfl, h⟩
  | cons a as ih =>
      obtain ⟨m₁, hm₁, h₁⟩ := sound_step h a
      obtain ⟨m', hm', h'⟩ := ih h₁
      refine ⟨m', ?_, h'⟩
      rw [List.foldlM_cons, hm₁]
      exact hm'

/-- A call that frees a stanza leaves nothing of it. -/
theorem Owned.complete {m : Memory} {path opened stored total : List Addr}
    (h : Owned m path opened stored total) {r : Addr} (hr : r ∈ m.added) :
    r ∈ stanzaFree m.parser.heap r ∧ ∀ a ∈ stanzaFree m.parser.heap r, ∃ cell,
      m.parser.heap[a]? = some cell ∧ cell.children ⊆ stanzaFree m.parser.heap r := by
  obtain ⟨before, after, hsplit⟩ := List.append_of_mem hr
  have hforest := h.added
  rw [hsplit] at hforest
  obtain ⟨below, taken, rest, rfl, -, htaken, -⟩ := hforest.take
  have hsub : taken.Sublist (below ++ (taken ++ rest)) :=
    (List.sublist_append_left _ _).trans (List.sublist_append_right _ _)
  have hcells : stanzaFree m.parser.heap r = taken := by
    rw [← h.walk_cells htaken (hsub.subperm.trans h.balance.subperm)]
    exact (List.flatMap_singleton _ r).symm
  rw [hcells]
  refine ⟨htaken.root_mem List.mem_cons_self, fun a ha => ?_⟩
  obtain ⟨children, hlook, hchildren⟩ := htaken.closed ha
  obtain ⟨cell, hcell, rfl⟩ := Option.map_eq_some_iff.mp hlook
  exact ⟨cell, hcell, hchildren⟩

/-- Whatever events the parser reports, on any number of connections, and whenever stanzas
are taken out of the store between them: no handler meets a null or dangling pointer, no
cell is freed twice, no handler and no poll looks at one that has been freed, and the cells
of all received stanzas, with everything below them, are those that have been freed and
those of the stanzas in the store. -/
theorem freed_once (as : List Action) : ∃ m, as.foldlM Memory.step Memory.start = .ok m ∧
    m.freed.Nodup ∧
    (m.added.flatMap (stanzaFree m.parser.heap)).Perm
      (m.freed ++ m.parser.received_stanzas.flatMap (stanzaFree m.parser.heap)) ∧
    (∀ r ∈ m.added, r ∈ stanzaFree m.parser.heap r ∧ ∀ a ∈ stanzaFree m.parser.heap r, ∃ cell,
      m.parser.heap[a]? = some cell ∧ cell.children ⊆ stanzaFree m.parser.heap r) ∧
    (∀ a ∈ m.parser.received_stanzas.flatMap (stanzaFree m.parser.heap), a ∉ m.freed) ∧
    ∀ e, ∀ a ∈ m.reads e, a ∉ m.freed := by
  obtain ⟨m, hm, path, opened, stored, total, h⟩ := sound_run sound_start as
  refine ⟨m, hm, ?_, ?_, fun r hr => h.complete hr, ?_, ?_⟩
  · exact h.distinct.of_append_left.of_append_left
  · rw [h.walk_stored, h.walk_cells h.added h.balance.subperm]
    exact h.balance
  · rw [h.walk_stored]
    intro a ha hfreed
    exact List.disjoint_of_nodup_append h.distinct.of_append_left hfreed ha
  · intro e a ha hfreed
    exact List.disjoint_of_nodup_append h.distinct (List.mem_append_left _ hfreed) (h.reads e a ha)

end Stabber.StanzaMemory
