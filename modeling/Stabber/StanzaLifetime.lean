import Stabber.Stanzas
import Stabber.StreamParsing
import Stabber.Transition

/-!
# How long a received stanza lives

At the end of a stanza the server thread adds it to the store and goes on reading it,
up to its parent pointer. An HTTP verify request frees the stanza that it removes from
the store. The lock of the store protects the list only, so the requests run between
any two of these reads.
-/

namespace Stabber.StanzaLifetime
open XmlDocument Stanza Stanzas StreamParser StreamParsing Transition

/-- Where the thread is in `_end_element` once the depth is one. The pointers to the id,
the query and the namespace point into the stanza. -/
inductive Point where
  | add
  | authTest
  | authCb
  | authWrite
  | getId
  | idCb (id : Str)
  | idWrite (id : Str)
  | getQuery (id : Option Str)
  | queryCb (query : Str) (id : Option Str)
  | queryWrite (id : Option Str)
  | getXmlns (id : Option Str)
  | xmlnsCb (xmlns : Str) (id : Option Str)
  | xmlnsWrite
  | parent
deriving Repr, DecidableEq

namespace Point

/-- Where a callback returns to after its write. -/
def next : Point → Option Point
  | .authWrite => some .parent
  | .idWrite id => some (.getQuery (some id))
  | .queryWrite id => some (.getXmlns id)
  | .xmlnsWrite => some .parent
  | _ => none

/-- The stanza is read here. Adding it takes the pointer only. -/
def reads (p : Point) : Bool := p ≠ .add && p.next.isNone

theorem reads_next {p q : Point} (h : p.next = some q) : q.reads = true := by
  cases p with
  | authWrite | idWrite | queryWrite | xmlnsWrite =>
      cases h
      rfl
  | _ => cases h

end Point

structure State where
  parser : Parser
  /-- `none` between two events. -/
  point : Option Point
  released : List Addr
  /-- The thread has read a stanza after its release. -/
  stale : Bool
deriving Repr

inductive Action where
  /-- The XML parser reports an event to the handlers. -/
  | event (e : Event)
  /-- The thread goes on in `_end_element`. -/
  | thread
  /-- One poll of `verify_any`. -/
  | verify (template : XMPPStanza) (clear : Bool)

/-- The stanza at an address, to this depth. -/
def stanzaAt (heap : Heap) : ℕ → Addr → XMPPStanza
  | 0, _ => ⟨[], [], [], none⟩
  | n + 1, a =>
      match heap[a]? with
      | none => ⟨[], [], [], none⟩
      | some cell => ⟨cell.name, cell.attrs, cell.children.map (stanzaAt heap n), cell.content⟩

/-- The cells that a handler reads. -/
def handlerReads (s : Parser) : Event → List (Option Addr)
  | .start _ _ => []
  | .stop _ =>
      if s.depth - 1 > 1 then
        [s.curr_stanza, s.curr_stanza.bind fun a => s.heap[a]?.bind Cell.parent]
      else []
  | .data _ => if s.depth > 1 then [s.curr_stanza] else []

def endsStanza (s : Parser) : Event → Bool
  | .stop _ => s.depth - 1 = 1
  | _ => false

namespace State
variable (s : State)

def view : Addr → XMPPStanza := stanzaAt s.parser.heap s.parser.heap.length

/-- A pointer to a stanza that has been freed. -/
def dangling (p : Option Addr) : Bool := p.any fun a => a ∈ s.released

/-- The stanza is in the store and the thread is not done with it. -/
def dispatching : Bool := s.point.any fun p => p ≠ .add

def goto (p : Point) : State := { s with point := some p }

def call (c : Call Addr) (p : Point) : State :=
  { s with parser := { s.parser with calls := s.parser.calls ++ [c] }, point := some p }

/-- One step of `_end_element` with what it reads of the current stanza. -/
def visit (a : Addr) (cell : Cell) (stanza : XMPPStanza) : Point → State
  | .add =>
      { s with
        parser := { s.parser with
          received_stanzas := stanzasAdd s.parser.received_stanzas a
          calls := s.parser.calls ++ [.add a] }
        point := some .authTest }
  | .authTest =>
      match stanzaGetChildByNs (some stanza) "jabber:iq:auth".toList with
      | some _ => s.goto .authCb
      | none => s.goto .getId
  | .authCb => s.call (.auth a) .authWrite
  | .getId =>
      match stanzaGetId (some stanza) with
      | some id => s.goto (.idCb id)
      | none => s.goto (.getQuery none)
  | .idCb id => s.call (.id stanza.name id) (.idWrite id)
  | .getQuery id =>
      match stanzaGetQueryRequest stanza with
      | some query => s.goto (.queryCb query id)
      | none => s.goto (.getXmlns id)
  | .queryCb query id => s.call (.query query id) (.queryWrite id)
  | .getXmlns id =>
      match stanzaGetXmlns stanza with
      | some xmlns => s.goto (.xmlnsCb xmlns id)
      | none => s.goto .parent
  | .xmlnsCb xmlns id => s.call (.xmlns xmlns id) .xmlnsWrite
  | .parent => { s with parser := { s.parser with curr_stanza := cell.parent }, point := none }
  | p => s.goto p

def thread : Option State :=
  match s.point with
  | none => none
  | some p =>
      match p.next with
      | some q => some (s.goto q)
      | none =>
          if p.reads && s.dangling s.parser.curr_stanza then some { s with stale := true }
          else match load s.parser.heap s.parser.curr_stanza with
            | .error _ => none
            | .ok (a, cell) =>
                match shallow s.parser.heap cell with
                | .error _ => none
                | .ok stanza => some (s.visit a cell stanza p)

def handled (e : Event) : Option State :=
  match handle s.parser e with
  | .error _ => none
  | .ok parser => some { s with parser := parser }

def event (e : Event) : Option State :=
  if s.point.isSome then none
  else if (handlerReads s.parser e).any s.dangling then some { s with stale := true }
  else if endsStanza s.parser e then
    some { s with parser := { s.parser with depth := s.parser.depth - 1 }, point := some .add }
  else s.handled e

/-- The stanza that a poll finds. -/
def matched (template : XMPPStanza) : Option Addr :=
  s.parser.received_stanzas.find? fun a => stanzasEqual (s.view a) template = 0

/-- `stanzas_verify_any`, and the free of the stanza that it removes. -/
def verify (template : XMPPStanza) (clear : Bool) : State :=
  { s with
    parser := { s.parser with
      received_stanzas := (stanzasVerifyAny s.view template clear s.parser.received_stanzas).2 }
    released := s.released ++ if clear then (s.matched template).toList else [] }

end State

/-- A stale read is the end. -/
def step (s : State) (a : Action) : Option State :=
  if s.stale then none
  else match a with
    | .event e => s.event e
    | .thread => s.thread
    | .verify template clear => some (s.verify template clear)

/-- A poll does not find the stanza that is being dispatched. -/
def harmless (s : State) : Action → Bool
  | .verify template clear =>
      !(clear && s.dispatching && (s.matched template).any fun a => s.parser.curr_stanza = some a)
  | _ => true

/-! ## The open stanzas -/

/-- From the current stanza up to the root, all that many open elements below the root
have neither been added nor released. -/
inductive Open (heap : Heap) (gone : List Addr) : ℕ → Option Addr → Prop
  | root (p : Option Addr) : Open heap gone 0 p
  | elem {n : ℕ} {a : Addr} {cell : Cell} : heap[a]? = some cell → a ∉ gone →
      Open heap gone n cell.parent → Open heap gone (n + 1) (some a)

/-- Every cell of the first heap has the same parent in the second. -/
def SameParents (heap heap' : Heap) : Prop :=
  ∀ (a : Addr) (cell : Cell), heap[a]? = some cell →
    ∃ cell' : Cell, heap'[a]? = some cell' ∧ cell'.parent = cell.parent

theorem Open.preserve {heap heap' : Heap} {gone gone' : List Addr}
    (hheap : SameParents heap heap') (hgone : ∀ a ∈ gone', a ∈ gone) {n : ℕ} {p : Option Addr}
    (h : Open heap gone n p) : Open heap' gone' n p := by
  induction h with
  | root p => exact .root p
  | @elem n a cell hcell hnot _ ih =>
      obtain ⟨cell', hcell', hparent⟩ := hheap a cell hcell
      rw [← hparent] at ih
      exact .elem hcell' (fun ha => hnot (hgone a ha)) ih

theorem SameParents.refl (heap : Heap) : SameParents heap heap :=
  fun _ cell h => ⟨cell, h, rfl⟩

theorem SameParents.alloc (heap : Heap) (new : Cell) : SameParents heap (heap ++ [new]) := by
  intro a cell h
  have hlt : a < heap.length := (List.getElem?_eq_some_iff.mp h).1
  refine ⟨cell, ?_, rfl⟩
  rw [List.getElem?_append_left hlt]
  exact h

/-- The handlers write to cells without moving them. -/
theorem SameParents.set {heap : Heap} {a : Addr} {old new : Cell} (ha : heap[a]? = some old)
    (hparent : new.parent = old.parent) : SameParents heap (heap.set a new) := by
  intro b cell h
  by_cases hab : a = b
  · have hlt : a < heap.length := (List.getElem?_eq_some_iff.mp ha).1
    subst hab
    rw [ha] at h
    cases h
    exact ⟨new, List.getElem?_set_self hlt, hparent⟩
  · exact ⟨cell, by rw [List.getElem?_set_ne hab]; exact h, rfl⟩

theorem Open.up {heap : Heap} {gone : List Addr} {n : ℕ} {a : Addr} {cell : Cell}
    (h : Open heap gone (n + 1) (some a)) (hcell : heap[a]? = some cell) :
    a ∉ gone ∧ Open heap gone n cell.parent := by
  cases h with
  | elem hsame hnot hup =>
      rw [hcell] at hsame
      cases hsame
      exact ⟨hnot, hup⟩

/-- An open element below the root. -/
theorem Open.current {heap : Heap} {gone : List Addr} {n : ℕ} {p : Option Addr}
    (h : Open heap gone (n + 1) p) : ∀ a, p = some a → a ∉ gone := by
  cases h with
  | elem _ hnot _ =>
      intro a ha
      cases ha
      exact hnot

/-! ## What is kept -/

namespace State
variable (s : State)

/-- What has been added to the store so far. -/
def gone : List Addr := s.parser.received_stanzas ++ s.released

end State

/-- Nothing stale is read next: between two events the open stanzas have not been added,
and in a dispatch the current stanza has not been released. -/
structure Sound (s : State) : Prop where
  fresh : s.stale = false
  allocated : ∀ a ∈ s.gone, a < s.parser.heap.length
  between : s.point = none →
    Open s.parser.heap s.gone (s.parser.depth - 1).toNat s.parser.curr_stanza
  depth : s.point ≠ none → s.parser.depth = 1
  adding : s.point = some .add → ∀ a, s.parser.curr_stanza = some a → a ∉ s.gone
  dispatching : s.dispatching = true → s.dangling s.parser.curr_stanza = false

theorem dangling_eq_false {s : State} {p : Option Addr} :
    s.dangling p = false ↔ ∀ a, p = some a → a ∉ s.released := by
  cases p with
  | none => simp [State.dangling]
  | some a => simp [State.dangling]

/-- What a handler does to the heap, the depth and the current stanza. -/
theorem open_of_handle {s s' : Parser} {e : Event} {gone : List Addr}
    (h : handle s e = .ok s') (hends : endsStanza s e = false)
    (hopen : Open s.heap gone (s.depth - 1).toNat s.curr_stanza)
    (hgone : ∀ a ∈ gone, a < s.heap.length) :
    Open s'.heap gone (s'.depth - 1).toNat s'.curr_stanza ∧ s.heap.length ≤ s'.heap.length ∧
      s'.received_stanzas = s.received_stanzas := by
  cases e with
  | start element attributes =>
      cases h
      refine ⟨?_, by simp [startElement], rfl⟩
      by_cases hd : s.depth ≤ 0
      · have hlevel : (s.depth + 1 - 1).toNat = 0 := by omega
        change Open _ _ (s.depth + 1 - 1).toNat _
        rw [hlevel]
        exact .root _
      · have hlevel : (s.depth + 1 - 1).toNat = (s.depth - 1).toNat + 1 := by omega
        have hne : s.depth ≠ 0 := by omega
        change Open (s.heap ++ [_]) gone (s.depth + 1 - 1).toNat (some s.heap.length)
        rw [hlevel, if_neg hne]
        refine .elem List.getElem?_concat_length ?_ ?_
        · intro hmem
          exact Nat.lt_irrefl _ (hgone _ hmem)
        · exact hopen.preserve (.alloc s.heap _) fun _ ha => ha
  | stop element =>
      have hone : s.depth - 1 ≠ 1 := by simpa [endsStanza] using hends
      rcases endElement_cases h with
        ⟨a, cell, p, parent, hinner, hcurr, hcell, hp, hcellp, rfl⟩ | ⟨_, _, _, hd, -⟩ | ⟨hd, rfl⟩
      · have hlevel : (s.depth - 1).toNat = (s.depth - 1 - 1).toNat + 1 := by omega
        have hsame : SameParents s.heap
            (s.heap.set p { parent with children := parent.children ++ [a] }) := .set hcellp rfl
        rw [hlevel, hcurr] at hopen
        have hup := (hopen.up hcell).2
        rw [hp] at hup
        exact ⟨hup.preserve hsame fun _ ha => ha, by simp, rfl⟩
      · exact absurd hd hone
      · have hlevel : (s.depth - 1 - 1).toNat = 0 := by omega
        refine ⟨?_, Nat.le_refl _, rfl⟩
        change Open _ _ (s.depth - 1 - 1).toNat _
        rw [hlevel]
        exact .root _
  | data text =>
      rcases handleData_cases h with rfl | ⟨a, cell, content, -, hcell, rfl⟩
      · exact ⟨hopen, Nat.le_refl _, rfl⟩
      · have hsame : SameParents s.heap (s.heap.set a { cell with content := content }) :=
          .set hcell rfl
        exact ⟨hopen.preserve hsame fun _ ha => ha, by simp, rfl⟩

theorem not_dangling_of_open {s : State} {n : ℕ} {p : Option Addr}
    (h : Open s.parser.heap s.gone (n + 1) p) : s.dangling p = false := by
  rw [dangling_eq_false]
  intro a ha hmem
  exact h.current a ha (List.mem_append_right _ hmem)

/-- Between two events the handlers read open stanzas only. -/
theorem Sound.reads {s : State} (hs : Sound s) (hpoint : s.point = none) (e : Event) :
    (handlerReads s.parser e).any s.dangling = false := by
  have hopen := hs.between hpoint
  cases e with
  | start element attributes => rfl
  | stop element =>
      unfold handlerReads
      by_cases hd : s.parser.depth - 1 > 1
      · have hlevel : (s.parser.depth - 1).toNat = (s.parser.depth - 3).toNat + 1 + 1 := by omega
        rw [hlevel] at hopen
        have hcurr := not_dangling_of_open hopen
        have hparent : s.dangling (s.parser.curr_stanza.bind fun a =>
            s.parser.heap[a]?.bind Cell.parent) = false := by
          rcases hp : s.parser.curr_stanza with _ | a
          · rfl
          · rw [hp] at hopen
            cases hopen with
            | elem hcell _ hup =>
                rw [Option.bind_some, hcell]
                exact not_dangling_of_open hup
        simp [hd, hcurr, hparent]
      · simp [hd]
  | data text =>
      unfold handlerReads
      by_cases hd : s.parser.depth > 1
      · have hlevel : (s.parser.depth - 1).toNat = (s.parser.depth - 2).toNat + 1 := by omega
        rw [hlevel] at hopen
        have hcurr := not_dangling_of_open hopen
        simp [hd, hcurr]
      · simp [hd]

theorem Sound.event {s t : State} {e : Event} (hs : Sound s) (h : s.event e = some t) :
    Sound t := by
  unfold State.event at h
  rcases hpoint : s.point with _ | p
  · have hopen := hs.between hpoint
    rw [hpoint, hs.reads hpoint e, Option.isSome_none, if_neg Bool.false_ne_true,
      if_neg Bool.false_ne_true] at h
    by_cases hends : endsStanza s.parser e = true
    · rw [if_pos hends] at h
      cases h
      have hdepth : s.parser.depth - 1 = 1 := by
        cases e with
        | stop element => exact of_decide_eq_true hends
        | _ => cases hends
      have hlevel : (s.parser.depth - 1).toNat = 0 + 1 := by omega
      rw [hlevel] at hopen
      exact ⟨hs.fresh, hs.allocated, nofun, fun _ => hdepth, fun _ => hopen.current, nofun⟩
    · rw [if_neg hends] at h
      rw [Bool.not_eq_true] at hends
      unfold State.handled at h
      rcases hhandle : handle s.parser e with fault | parser
      · rw [hhandle] at h
        cases h
      · rw [hhandle] at h
        cases h
        obtain ⟨hopen', hlength, hstore⟩ := open_of_handle hhandle hends hopen hs.allocated
        have hgone : State.gone { s with parser := parser } = s.gone := by
          rw [State.gone, hstore]
          rfl
        refine ⟨hs.fresh, ?_, ?_, ?_, ?_, ?_⟩
        · intro a ha
          rw [hgone] at ha
          exact Nat.lt_of_lt_of_le (hs.allocated a ha) hlength
        · intro _
          rw [hgone]
          exact hopen'
        all_goals
          intro h
          simp [State.dispatching, hpoint] at h
  · rw [hpoint] at h
    cases h

/-- After the stanza has been added, a step makes a call or none and goes on, or it is
the last one. -/
theorem visit_cases (s : State) (a : Addr) (cell : Cell) (stanza : XMPPStanza) {p : Point}
    (hadd : p ≠ .add) :
    (∃ calls q, q ≠ .add ∧ s.visit a cell stanza p =
      { s with parser := { s.parser with calls := calls }, point := some q }) ∨
    s.visit a cell stanza p =
      { s with parser := { s.parser with curr_stanza := cell.parent }, point := none } := by
  cases p with
  | add => exact absurd rfl hadd
  | parent => exact Or.inr rfl
  | authTest =>
      left
      unfold State.visit
      cases stanzaGetChildByNs (some stanza) "jabber:iq:auth".toList with
      | some _ => exact ⟨s.parser.calls, .authCb, nofun, rfl⟩
      | none => exact ⟨s.parser.calls, .getId, nofun, rfl⟩
  | getId =>
      left
      unfold State.visit
      cases stanzaGetId (some stanza) with
      | some id => exact ⟨s.parser.calls, .idCb id, nofun, rfl⟩
      | none => exact ⟨s.parser.calls, .getQuery none, nofun, rfl⟩
  | getQuery id =>
      left
      unfold State.visit
      cases stanzaGetQueryRequest stanza with
      | some query => exact ⟨s.parser.calls, .queryCb query id, nofun, rfl⟩
      | none => exact ⟨s.parser.calls, .getXmlns id, nofun, rfl⟩
  | getXmlns id =>
      left
      unfold State.visit
      cases stanzaGetXmlns stanza with
      | some xmlns => exact ⟨s.parser.calls, .xmlnsCb xmlns id, nofun, rfl⟩
      | none => exact ⟨s.parser.calls, .parent, nofun, rfl⟩
  | authCb | idCb | queryCb | xmlnsCb =>
      refine Or.inl ⟨_, _, ?_, rfl⟩
      nofun
  | authWrite | idWrite | queryWrite | xmlnsWrite =>
      refine Or.inl ⟨s.parser.calls, _, ?_, rfl⟩
      nofun

/-- The thread leaves a callback, reads a stanza that is there, or reads a stale one. -/
theorem thread_cases {s t : State} (h : s.thread = some t) : ∃ p, s.point = some p ∧
    ((∃ q, p.next = some q ∧ t = s.goto q) ∨
    (p.reads = true ∧ s.dangling s.parser.curr_stanza = true ∧ t = { s with stale := true }) ∨
    (∃ a cell stanza, p.next = none ∧ load s.parser.heap s.parser.curr_stanza = .ok (a, cell) ∧
      shallow s.parser.heap cell = .ok stanza ∧ t = s.visit a cell stanza p)) := by
  unfold State.thread at h
  rcases hpoint : s.point with _ | p
  · rw [hpoint] at h
    cases h
  refine ⟨p, rfl, ?_⟩
  rw [hpoint] at h
  dsimp only at h
  rcases hnext : p.next with _ | q
  · right
    rw [hnext] at h
    dsimp only at h
    by_cases hstale : (p.reads && s.dangling s.parser.curr_stanza) = true
    · left
      rw [if_pos hstale] at h
      cases h
      rw [Bool.and_eq_true] at hstale
      exact ⟨hstale.1, hstale.2, rfl⟩
    · right
      rw [if_neg hstale] at h
      rcases hload : load s.parser.heap s.parser.curr_stanza with fault | ⟨a, cell⟩
      · rw [hload] at h
        cases h
      rw [hload] at h
      dsimp only at h
      rcases hshallow : shallow s.parser.heap cell with fault | stanza
      · rw [hshallow] at h
        cases h
      rw [hshallow] at h
      cases h
      exact ⟨a, cell, stanza, rfl, rfl, hshallow, rfl⟩
  · left
    rw [hnext] at h
    cases h
    exact ⟨q, rfl, rfl⟩

theorem dispatching_of_point {s : State} {p : Point} (hpoint : s.point = some p)
    (hadd : p ≠ .add) : s.dispatching = true := by
  rw [State.dispatching, hpoint]
  simpa using hadd

/-- A stanza that is added has not been released. -/
theorem Sound.add {s : State} (hs : Sound s) (hpoint : s.point = some .add) {a : Addr}
    {cell : Cell} (hcurr : s.parser.curr_stanza = some a) (hcell : s.parser.heap[a]? = some cell)
    (stanza : XMPPStanza) : Sound (s.visit a cell stanza .add) := by
  have hdepth : s.parser.depth = 1 := hs.depth (by rw [hpoint]; nofun)
  have hnot := hs.adding hpoint a hcurr
  have hlt : a < s.parser.heap.length := (List.getElem?_eq_some_iff.mp hcell).1
  refine ⟨hs.fresh, ?_, nofun, fun _ => hdepth, nofun, fun _ => ?_⟩
  · intro b hb
    rcases List.mem_append.mp hb with hstore | hreleased
    · rcases List.mem_append.mp hstore with hold | hnew
      · exact hs.allocated b (List.mem_append_left _ hold)
      · rw [List.mem_singleton.mp hnew]
        exact hlt
    · exact hs.allocated b (List.mem_append_right _ hreleased)
  · rw [dangling_eq_false]
    intro b hb hmem
    have hsame : s.parser.curr_stanza = some b := hb
    rw [hcurr] at hsame
    cases hsame
    exact hnot (List.mem_append_right _ hmem)

theorem Sound.thread {s t : State} (hs : Sound s) (h : s.thread = some t) : Sound t := by
  obtain ⟨p, hpoint, hcases⟩ := thread_cases h
  have hdepth : s.parser.depth = 1 := hs.depth (by rw [hpoint]; nofun)
  rcases hcases with
    ⟨q, hnext, rfl⟩ | ⟨hreads, hdangling, -⟩ | ⟨a, cell, stanza, -, hload, -, rfl⟩
  · have hadd : p ≠ .add := by
      intro heq
      rw [heq] at hnext
      cases hnext
    have hq : q ≠ .add := by
      intro heq
      have hreads := Point.reads_next hnext
      rw [heq] at hreads
      cases hreads
    have hsafe := hs.dispatching (dispatching_of_point hpoint hadd)
    refine ⟨hs.fresh, hs.allocated, nofun, fun _ => hdepth, ?_, fun _ => hsafe⟩
    intro heq
    exact absurd (Option.some.inj heq) hq
  · have hadd : p ≠ .add := by
      intro heq
      rw [heq] at hreads
      cases hreads
    rw [hs.dispatching (dispatching_of_point hpoint hadd)] at hdangling
    cases hdangling
  · obtain ⟨hcurr, hcell⟩ := load_eq_ok hload
    by_cases hadd : p = .add
    · subst hadd
      exact hs.add hpoint hcurr hcell stanza
    · have hsafe := hs.dispatching (dispatching_of_point hpoint hadd)
      rcases visit_cases s a cell stanza hadd with ⟨calls, q, hq, heq⟩ | heq
      · rw [heq]
        refine ⟨hs.fresh, hs.allocated, nofun, fun _ => hdepth, ?_, fun _ => hsafe⟩
        intro heq
        exact absurd (Option.some.inj heq) hq
      · rw [heq]
        refine ⟨hs.fresh, hs.allocated, fun _ => ?_, fun hnone => absurd rfl hnone, nofun, nofun⟩
        change Open _ _ (s.parser.depth - 1).toNat cell.parent
        rw [hdepth]
        exact .root _

/-- What is in the store after a poll was there before, and so was what it has released. -/
theorem gone_verify (s : State) (template : XMPPStanza) (clear : Bool) :
    ∀ a ∈ (s.verify template clear).gone, a ∈ s.gone := by
  intro a ha
  rcases List.mem_append.mp ha with hstore | hreleased
  · have hstore : a ∈ (stanzasVerifyAny s.view template clear s.parser.received_stanzas).2 := hstore
    refine List.mem_append_left _ ?_
    rcases stanzasVerifyAny_cases s.view template clear s.parser.received_stanzas with
      ⟨-, heq⟩ | ⟨before, r, after, hsplit, -, -, heq⟩
    · rw [heq] at hstore
      exact hstore
    · rw [heq] at hstore
      cases clear with
      | false => exact hstore
      | true =>
          rw [hsplit]
          rcases List.mem_append.mp hstore with hbefore | hafter
          · exact List.mem_append_left _ hbefore
          · exact List.mem_append_right _ (List.mem_cons_of_mem r hafter)
  · have hreleased : a ∈ s.released ++ if clear then (s.matched template).toList else [] :=
      hreleased
    rcases List.mem_append.mp hreleased with hold | hnew
    · exact List.mem_append_right _ hold
    · cases clear with
      | false => cases hnew
      | true =>
          have hmatched : s.matched template = some a := by simpa using hnew
          exact List.mem_append_left _ (List.mem_of_find?_eq_some hmatched)

theorem Sound.verify {s : State} {template : XMPPStanza} {clear : Bool} (hs : Sound s)
    (hharmless : harmless s (.verify template clear) = true) : Sound (s.verify template clear) := by
  have hgone := gone_verify s template clear
  refine ⟨hs.fresh, ?_, ?_, hs.depth, ?_, ?_⟩
  · intro a ha
    exact hs.allocated a (hgone a ha)
  · intro hpoint
    exact (hs.between hpoint).preserve (.refl _) hgone
  · intro hpoint a ha hmem
    exact hs.adding hpoint a ha (hgone a hmem)
  · intro hdispatching
    have hsafe := hs.dispatching hdispatching
    have hin : s.dispatching = true := hdispatching
    rw [dangling_eq_false] at hsafe ⊢
    intro a ha hmem
    have hcurr : s.parser.curr_stanza = some a := ha
    have hmem : a ∈ s.released ++ if clear then (s.matched template).toList else [] := hmem
    rcases List.mem_append.mp hmem with hold | hnew
    · exact hsafe a hcurr hold
    · cases clear with
      | false => cases hnew
      | true =>
          have hmatched : s.matched template = some a := by simpa using hnew
          simp [harmless, hin, hmatched, hcurr] at hharmless

theorem Sound.step {s t : State} {a : Action} (hs : Sound s) (hharmless : harmless s a = true)
    (h : step s a = some t) : Sound t := by
  unfold StanzaLifetime.step at h
  rw [hs.fresh, if_neg Bool.false_ne_true] at h
  cases a with
  | event e => exact hs.event h
  | thread => exact hs.thread h
  | verify template clear =>
      cases h
      exact hs.verify hharmless

/-- Before the first event of a connection. -/
structure AtRest (s : State) : Prop where
  point : s.point = none
  stale : s.stale = false
  depth : s.parser.depth = 0
  allocated : ∀ a ∈ s.gone, a < s.parser.heap.length

theorem AtRest.sound {s : State} (h : AtRest s) : Sound s := by
  refine ⟨h.stale, h.allocated, fun _ => ?_, fun hne => absurd h.point hne, ?_, ?_⟩
  · rw [h.depth]
    exact .root _
  · intro hpoint
    rw [h.point] at hpoint
    cases hpoint
  · intro hdispatching
    rw [State.dispatching, h.point] at hdispatching
    cases hdispatching

theorem thread_reads {s : State} {p : Point} (hfresh : s.stale = false)
    (hpoint : s.point = some p) (hreads : p.reads = true)
    (hdangling : s.dangling s.parser.curr_stanza = true) :
    step s .thread = some { s with stale := true } := by
  have hnext : p.next = none := by
    rw [Point.reads, Bool.and_eq_true] at hreads
    exact Option.isNone_iff_eq_none.mp hreads.2
  unfold step State.thread
  rw [hfresh, if_neg Bool.false_ne_true, hpoint]
  dsimp only
  rw [hnext, hreads, hdangling]
  rfl

theorem thread_returns {s : State} {p q : Point} (hfresh : s.stale = false)
    (hpoint : s.point = some p) (hnext : p.next = some q) :
    step s .thread = some (s.goto q) := by
  unfold step State.thread
  rw [hfresh, if_neg Bool.false_ne_true, hpoint]
  dsimp only
  rw [hnext]

/-- In a dispatch one of the next two steps of the thread reads the stanza. -/
theorem stale_soon {s : State} (hfresh : s.stale = false) (hdispatching : s.dispatching = true)
    (hdangling : s.dangling s.parser.curr_stanza = true) :
    ∃ n t, run step s (List.replicate n .thread) = some t ∧ t.stale = true := by
  obtain ⟨p, hpoint, hadd⟩ := (Option.any_eq_true _ _).mp hdispatching
  rcases hnext : p.next with _ | q
  · have hreads : p.reads = true := by
      rw [Point.reads, hadd, hnext]
      rfl
    refine ⟨1, { s with stale := true }, ?_, rfl⟩
    rw [List.replicate_one, run, thread_reads hfresh hpoint hreads hdangling]
    rfl
  · have hsecond : step (s.goto q) .thread = some { s.goto q with stale := true } :=
      thread_reads hfresh rfl (Point.reads_next hnext) hdangling
    refine ⟨2, { s.goto q with stale := true }, ?_, rfl⟩
    rw [List.replicate_succ, run, thread_returns hfresh hpoint hnext, Option.bind_some,
      List.replicate_one, run, hsecond]
    rfl

/-- So a poll that finds the stanza in its dispatch makes a read stale. -/
theorem stale_of_harmful {s : State} {a : Action} (hfresh : s.stale = false)
    (hharmful : harmless s a = false) :
    ∃ n t, run step s (a :: List.replicate n .thread) = some t ∧ t.stale = true := by
  cases a with
  | event | thread => cases hharmful
  | verify template clear =>
      simp only [harmless, Bool.not_eq_false', Bool.and_eq_true, Option.any_eq_true,
        decide_eq_true_eq] at hharmful
      obtain ⟨⟨hclear, hdispatching⟩, r, hmatched, hcurr⟩ := hharmful
      have hdangling : (s.verify template clear).dangling
          (s.verify template clear).parser.curr_stanza = true := by
        change State.dangling _ s.parser.curr_stanza = true
        rw [hcurr]
        simp [State.dangling, State.verify, hclear, hmatched]
      obtain ⟨n, t, ht, hstale⟩ := stale_soon (s := s.verify template clear) hfresh hdispatching
        hdangling
      refine ⟨n, t, ?_, hstale⟩
      rw [run, step, hfresh, if_neg Bool.false_ne_true]
      exact ht

/-- Polls that do not find the stanza in its dispatch never make a read stale, and every
other poll does. -/
theorem current_outlives_dispatch {s : State} (hs : AtRest s) :
    (∀ as t, Runs step (fun u a => harmless u a = true) s as t → t.stale = false) ∧
      ∀ as t a, run step s as = some t → t.stale = false → harmless t a = false →
        ∃ n u, run step s (as ++ a :: List.replicate n .thread) = some u ∧ u.stale = true := by
  constructor
  · intro as t h
    have hsound := h.invariant hs.sound fun u a v hu hok hv => hu.step hok hv
    exact hsound.fresh
  · intro as t a hrun hfresh hharmful
    obtain ⟨n, u, hu, hstale⟩ := stale_of_harmful hfresh hharmful
    refine ⟨n, u, ?_, hstale⟩
    rw [run_append, hrun]
    exact hu

def State.start : State := ⟨⟨[], 0, none, [], []⟩, none, [], false⟩

theorem atRest_start : AtRest State.start := by
  refine ⟨rfl, rfl, rfl, ?_⟩
  intro a ha
  cases ha

/-- The events of a text. -/
def fed (text : String) : List Action :=
  (StanzaParse.Expat.reference.report text.toList).map .event

def iq : XMPPStanza := ⟨"iq".toList, [⟨"id".toList, "1".toList⟩], [], none⟩

/-- The poll comes when the thread is done with the stanza. -/
theorem polled_after_dispatch : ∃ t,
    run step State.start (fed "<stream:stream><iq id=\"1\"></iq>" ++
      List.replicate 8 .thread ++ [.verify iq true]) = some t ∧ t.released = [1] ∧
      t.stale = false := by
  have hchecked : ((run (fun u a => if harmless u a then step u a else none) State.start
      (fed "<stream:stream><iq id=\"1\"></iq>" ++ List.replicate 8 .thread ++
        [.verify iq true])).any fun t => t.released = [1]) = true := by
    decide +kernel
  obtain ⟨t, hrun, hreleased⟩ := (Option.any_eq_true _ _).mp hchecked
  have hruns := runs_of_checked (fun _ _ h => h) hrun
  exact ⟨t, hruns.to_run, of_decide_eq_true hreleased,
    (current_outlives_dispatch atRest_start).1 _ _ hruns⟩

/-- The poll comes right after the stanza has been added: the auth test reads it. -/
theorem polled_in_dispatch : ∃ t,
    run step State.start (fed "<stream:stream><iq id=\"1\"></iq>" ++
      [.thread, .verify iq true, .thread]) = some t ∧ t.released = [1] ∧
      t.parser.curr_stanza = some 1 ∧ t.stale = true := by
  have hchecked : ((run step State.start (fed "<stream:stream><iq id=\"1\"></iq>" ++
      [.thread, .verify iq true, .thread])).any fun t =>
        t.released = [1] ∧ t.parser.curr_stanza = some 1 ∧ t.stale = true) = true := by
    decide +kernel
  obtain ⟨t, hrun, ht⟩ := (Option.any_eq_true _ _).mp hchecked
  exact ⟨t, hrun, of_decide_eq_true ht⟩

end Stabber.StanzaLifetime
