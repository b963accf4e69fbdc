import Stabber.Stanza
import Mathlib.Data.Int.Notation

/-!
# The stream parser

The handlers of `stream_parser.c` on the events of one connection. Stanzas lie in
a heap of cells with child and parent pointers, an address is the position of a
cell, and allocation takes the next one. Nothing is freed here: a stanza belongs
to the store once it has been added.
-/

namespace Stabber.StreamParser
open XmlDocument Stanza

abbrev Addr := ℕ

structure Cell where
  name : Str
  attrs : List XMPPAttr
  children : List Addr
  content : Option Str
  parent : Option Addr
deriving Repr, DecidableEq

abbrev Heap := List Cell

/-- The calls that leave the parser: the five callbacks and `stanzas_add`. -/
inductive Call (α : Type) where
  | streamStart
  | add (stanza : α)
  | auth (stanza : α)
  | id (name id : Str)
  | query (query : Str) (id : Option Str)
  | xmlns (xmlns : Str) (id : Option Str)
deriving Repr, DecidableEq

structure Parser where
  heap : Heap
  depth : ℤ
  curr_stanza : Option Addr
  received_stanzas : List Addr
  calls : List (Call Addr)
deriving Repr

/-- The pointer to the current stanza is left as it was. -/
def parserInit (s : Parser) : Parser := { s with depth := 0 }

def load (heap : Heap) : Option Addr → Except Fault (Addr × Cell)
  | none => .error .nullDereference
  | some a => match heap[a]? with
    | some cell => .ok (a, cell)
    | none => .error .danglingPointer

/-- As much of a stanza as its accessors look at: they go no deeper than the names
and attributes of its children. -/
def shallow (heap : Heap) (cell : Cell) : Except Fault XMPPStanza := do
  let children ← cell.children.mapM fun a => load heap (some a)
  return ⟨cell.name, cell.attrs, children.map fun c => ⟨c.2.name, c.2.attrs, [], none⟩,
    cell.content⟩

/-- The callbacks for one received stanza. -/
def dispatch {α : Type} (stanza : α) (s : XMPPStanza) : List (Call α) :=
  match stanzaGetChildByNs (some s) "jabber:iq:auth".toList with
  | some _ => [.auth stanza]
  | none =>
      let id := stanzaGetId (some s)
      (match id with
        | some i => [.id s.name i]
        | none => []) ++
      (match stanzaGetQueryRequest s with
        | some query => [.query query id]
        | none => []) ++
      (match stanzaGetXmlns s with
        | some xmlns => [.xmlns xmlns id]
        | none => [])

def streamStart {α : Type} (element : Str) : List (Call α) :=
  if element = "stream:stream".toList then [.streamStart] else []

def startElement (s : Parser) (element : Str) (attributes : List (Str × Str)) : Parser :=
  let new := stanzaNew element attributes
  let parent := if s.depth = 0 then none else s.curr_stanza
  { s with
    heap := s.heap ++ [⟨new.name, new.attrs, [], new.content, parent⟩]
    depth := s.depth + 1
    curr_stanza := some s.heap.length
    calls := s.calls ++ streamStart element }

/-- Below a stanza the element joins its parent; at a stanza's own end the stanza
goes to the store and the callbacks run; the root is left where it is. -/
def endElement (s : Parser) : Except Fault Parser :=
  if s.depth - 1 > 1 then do
    let (a, cell) ← load s.heap s.curr_stanza
    let (p, parent) ← load s.heap cell.parent
    return { s with
      heap := s.heap.set p { parent with children := parent.children ++ [a] }
      depth := s.depth - 1
      curr_stanza := cell.parent }
  else if s.depth - 1 = 1 then do
    let (a, cell) ← load s.heap s.curr_stanza
    let stanza ← shallow s.heap cell
    return { s with
      depth := s.depth - 1
      curr_stanza := cell.parent
      received_stanzas := s.received_stanzas ++ [a]
      calls := s.calls ++ .add a :: dispatch a stanza }
  else return { s with depth := s.depth - 1 }

def handleData (s : Parser) (text : Str) : Except Fault Parser :=
  if s.depth > 1 then do
    let (a, cell) ← load s.heap s.curr_stanza
    return { s with
      heap := s.heap.set a { cell with content := some (cell.content.getD [] ++ text) } }
  else return s

def handle (s : Parser) : Event → Except Fault Parser
  | .start element attributes => .ok (startElement s element attributes)
  | .stop _ => endElement s
  | .data text => handleData s text

/-- The handlers on the events that one or more calls of `parser_feed` report. -/
def parserFeed (s : Parser) (es : List Event) : Except Fault Parser := deliver handle s es

/-! ## What the handlers do -/

theorem load_eq_ok {heap : Heap} {p : Option Addr} {a : Addr} {cell : Cell}
    (h : load heap p = .ok (a, cell)) : p = some a ∧ heap[a]? = some cell := by
  unfold load at h
  cases p with
  | none => cases h
  | some b =>
      dsimp only at h
      split at h
      next c hc =>
        cases h
        exact ⟨rfl, hc⟩
      next => cases h

theorem endElement_cases {s s' : Parser} (h : endElement s = .ok s') :
    (∃ a cell p parent, s.depth - 1 > 1 ∧ s.curr_stanza = some a ∧ s.heap[a]? = some cell ∧
      cell.parent = some p ∧ s.heap[p]? = some parent ∧ s' = { s with
        heap := s.heap.set p { parent with children := parent.children ++ [a] }
        depth := s.depth - 1
        curr_stanza := some p }) ∨
    (∃ a cell stanza, s.depth - 1 = 1 ∧ load s.heap s.curr_stanza = .ok (a, cell) ∧
      shallow s.heap cell = .ok stanza ∧ s' = { s with
        depth := s.depth - 1
        curr_stanza := cell.parent
        received_stanzas := s.received_stanzas ++ [a]
        calls := s.calls ++ .add a :: dispatch a stanza }) ∨
    (s.depth - 1 < 1 ∧ s' = { s with depth := s.depth - 1 }) := by
  unfold endElement at h
  by_cases hinner : s.depth - 1 > 1
  · left
    rw [if_pos hinner] at h
    rcases hload : load s.heap s.curr_stanza with fault | ⟨a, cell⟩
    · rw [hload] at h
      cases h
    rw [hload] at h
    change (load s.heap cell.parent >>= _) = _ at h
    rcases hparent : load s.heap cell.parent with fault | ⟨p, parent⟩
    · rw [hparent] at h
      cases h
    rw [hparent] at h
    cases h
    obtain ⟨hcurr, hcell⟩ := load_eq_ok hload
    obtain ⟨hp, hcellp⟩ := load_eq_ok hparent
    refine ⟨a, cell, p, parent, hinner, hcurr, hcell, hp, hcellp, ?_⟩
    rw [hp]
  · right
    rw [if_neg hinner] at h
    by_cases hends : s.depth - 1 = 1
    · left
      rw [if_pos hends] at h
      rcases hload : load s.heap s.curr_stanza with fault | ⟨a, cell⟩
      · rw [hload] at h
        cases h
      rw [hload] at h
      change (shallow s.heap cell >>= _) = _ at h
      rcases hshallow : shallow s.heap cell with fault | stanza
      · rw [hshallow] at h
        cases h
      rw [hshallow] at h
      cases h
      exact ⟨a, cell, stanza, hends, rfl, hshallow, rfl⟩
    · right
      rw [if_neg hends] at h
      cases h
      exact ⟨by omega, rfl⟩

theorem handleData_cases {s s' : Parser} {text : Str} (h : handleData s text = .ok s') :
    s' = s ∨ ∃ a cell content, s.curr_stanza = some a ∧ s.heap[a]? = some cell ∧
      s' = { s with heap := s.heap.set a { cell with content := content } } := by
  unfold handleData at h
  by_cases hd : s.depth > 1
  · right
    rw [if_pos hd] at h
    rcases hload : load s.heap s.curr_stanza with fault | ⟨a, cell⟩
    · rw [hload] at h
      cases h
    rw [hload] at h
    cases h
    obtain ⟨hcurr, hcell⟩ := load_eq_ok hload
    exact ⟨a, cell, _, hcurr, hcell, rfl⟩
  · left
    rw [if_neg hd] at h
    cases h
    rfl

/-! ## The accessors on an outline -/

def outline (s : XMPPStanza) : XMPPStanza :=
  { s with children := s.children.map fun c => ⟨c.name, c.attrs, [], none⟩ }

theorem stanzaGetQueryRequest_outline (s : XMPPStanza) :
    stanzaGetQueryRequest (outline s) = stanzaGetQueryRequest s := by
  have hrequest : isRequest (outline s) = isRequest s := rfl
  unfold stanzaGetQueryRequest
  rw [hrequest]
  split_ifs
  · simp only [stanzaGetChildByName, outline, Option.bind_some, List.find?_map, Option.bind_map]
    rfl
  · rfl

theorem stanzaGetXmlns_outline (s : XMPPStanza) :
    stanzaGetXmlns (outline s) = stanzaGetXmlns s := by
  have hrequest : isRequest (outline s) = isRequest s := rfl
  unfold stanzaGetXmlns
  rw [hrequest]
  split_ifs
  · rcases s with ⟨name, attrs, children, content⟩
    cases children <;> rfl
  · rfl

theorem stanzaGetChildByNs_outline (s : XMPPStanza) (ns : Str) :
    stanzaGetChildByNs (some (outline s)) ns =
      (stanzaGetChildByNs (some s) ns).map fun c => ⟨c.name, c.attrs, [], none⟩ := by
  simp only [stanzaGetChildByNs, outline, Option.bind_some, List.find?_map]
  rfl

theorem dispatch_outline {α : Type} (stanza : α) (s : XMPPStanza) :
    dispatch stanza (outline s) = dispatch stanza s := by
  have hid : stanzaGetId (some (outline s)) = stanzaGetId (some s) := rfl
  unfold dispatch
  rw [stanzaGetChildByNs_outline, stanzaGetQueryRequest_outline, stanzaGetXmlns_outline, hid]
  cases stanzaGetChildByNs (some s) "jabber:iq:auth".toList <;> rfl

theorem dispatch_of_auth {α : Type} (stanza : α) {s child : XMPPStanza}
    (h : stanzaGetChildByNs (some s) "jabber:iq:auth".toList = some child) :
    dispatch stanza s = [.auth stanza] := by
  rw [dispatch, h]

theorem dispatch_of_not_auth {α : Type} (stanza : α) {s : XMPPStanza}
    (h : stanzaGetChildByNs (some s) "jabber:iq:auth".toList = none) :
    dispatch stanza s = ((stanzaGetId (some s)).map (.id s.name)).toList ++
      ((stanzaGetQueryRequest s).map (.query · (stanzaGetId (some s)))).toList ++
      ((stanzaGetXmlns s).map (.xmlns · (stanzaGetId (some s)))).toList := by
  rw [dispatch, h]
  cases stanzaGetId (some s) <;> cases stanzaGetQueryRequest s <;> cases stanzaGetXmlns s <;> rfl

theorem mem_dispatch {α : Type} (stanza : α) {s : XMPPStanza}
    (h : stanzaGetChildByNs (some s) "jabber:iq:auth".toList = none) {c : Call α} :
    c ∈ dispatch stanza s ↔ (∃ id, stanzaGetId (some s) = some id ∧ .id s.name id = c) ∨
      (∃ query, stanzaGetQueryRequest s = some query ∧
        .query query (stanzaGetId (some s)) = c) ∨
      ∃ xmlns, stanzaGetXmlns s = some xmlns ∧ .xmlns xmlns (stanzaGetId (some s)) = c := by
  rw [dispatch_of_not_auth stanza h]
  simp only [List.mem_append, Option.mem_toList, Option.map_eq_some_iff, or_assoc]

/-- A dispatch adds nothing. -/
theorem add_notMem_dispatch {α : Type} (stanza a : α) (s : XMPPStanza) :
    Call.add a ∉ dispatch stanza s := by
  intro hmem
  cases hauth : stanzaGetChildByNs (some s) "jabber:iq:auth".toList with
  | some child =>
      rw [dispatch_of_auth stanza hauth] at hmem
      cases List.mem_singleton.mp hmem
  | none =>
      rcases (mem_dispatch stanza hauth).mp hmem with ⟨_, _, hno⟩ | ⟨_, _, hno⟩ | ⟨_, _, hno⟩
      all_goals cases hno

theorem stanzaGetChildByNs_isSome (s : XMPPStanza) (ns : Str) :
    (stanzaGetChildByNs (some s) ns).isSome ↔
      ∃ c ∈ s.children, (⟨"xmlns".toList, ns⟩ : XMPPAttr) ∈ c.attrs := by
  simp only [stanzaGetChildByNs, Option.bind_some, List.find?_isSome, List.any_eq_true,
    Bool.and_eq_true, decide_eq_true_eq]
  constructor
  · intro h
    obtain ⟨c, hc, a, ha, hname, hvalue⟩ := h
    refine ⟨c, hc, ?_⟩
    rw [← hname, ← hvalue]
    exact ha
  · intro h
    obtain ⟨c, hc, ha⟩ := h
    exact ⟨c, hc, _, ha, rfl, rfl⟩

end Stabber.StreamParser
