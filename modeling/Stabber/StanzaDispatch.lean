import Stabber.StanzaLifetime

/-!
# The dispatch of a stanza between polls

The steps of the server thread in `_end_element`, taken together, are the handler of
the stream parser, and polls that find other stanzas do not disturb them. A poll
compares its template with the stanzas that lie in the heap.
-/

namespace Stabber.StanzaDispatch
open XmlDocument Stanza Stanzas StreamParser StreamParsing Transition StanzaLifetime

/-! ## The dispatch as a whole -/

/-- The calls from a point on. -/
def pending (a : Addr) (stanza : XMPPStanza) : Point → List (Call Addr)
  | .add => .add a :: dispatch a stanza
  | .authTest => dispatch a stanza
  | .authCb => [.auth a]
  | .getId =>
      ((stanzaGetId (some stanza)).map (.id stanza.name)).toList ++
        queries (stanzaGetId (some stanza))
  | .idCb id => .id stanza.name id :: queries (some id)
  | .idWrite id => queries (some id)
  | .getQuery id => queries id
  | .queryCb query id => .query query id :: namespaces id
  | .queryWrite id => namespaces id
  | .getXmlns id => namespaces id
  | .xmlnsCb xmlns id => [.xmlns xmlns id]
  | .authWrite => []
  | .xmlnsWrite => []
  | .parent => []
where
  namespaces (id : Option Str) : List (Call Addr) :=
    ((stanzaGetXmlns stanza).map (.xmlns · id)).toList
  queries (id : Option Str) : List (Call Addr) :=
    ((stanzaGetQueryRequest stanza).map (.query · id)).toList ++ namespaces id

/-- How many steps may come from this point on. -/
def rank : Point → ℕ
  | .add => 12
  | .authTest => 11
  | .authCb => 3
  | .getId => 10
  | .idCb _ => 9
  | .idWrite _ => 8
  | .getQuery _ => 7
  | .queryCb _ _ => 6
  | .queryWrite _ => 5
  | .getXmlns _ => 4
  | .xmlnsCb _ _ => 3
  | .authWrite => 2
  | .xmlnsWrite => 2
  | .parent => 1

/-- The state when the thread is done with the stanza. -/
def finish (s : State) (a : Addr) (cell : Cell) (stanza : XMPPStanza) (p : Point) : State :=
  { s with
    parser := { s.parser with
      received_stanzas := s.parser.received_stanzas ++ if p = .add then [a] else []
      calls := s.parser.calls ++ pending a stanza p
      curr_stanza := cell.parent }
    point := none }

/-- A step is the last one, or goes on to a point from which the dispatch ends alike. -/
theorem visit_finish (s : State) (a : Addr) (cell : Cell) (stanza : XMPPStanza) (p : Point)
    (hnext : p.next = none) : s.visit a cell stanza p = finish s a cell stanza p ∨
      ∃ q, (s.visit a cell stanza p).point = some q ∧ rank q < rank p ∧
        finish (s.visit a cell stanza p) a cell stanza q = finish s a cell stanza p := by
  cases p with
  | authWrite | idWrite | queryWrite | xmlnsWrite => cases hnext
  | parent =>
      left
      simp [State.visit, finish, pending]
  | add =>
      right
      refine ⟨.authTest, rfl, by decide, ?_⟩
      simp [State.visit, finish, pending, stanzasAdd]
  | authTest =>
      right
      unfold State.visit
      rcases hauth : stanzaGetChildByNs (some stanza) "jabber:iq:auth".toList with _ | child
      · refine ⟨.getId, rfl, by decide, ?_⟩
        simp [finish, State.goto, pending, dispatch_of_not_auth a hauth, pending.queries,
          pending.namespaces]
      · refine ⟨.authCb, rfl, by decide, ?_⟩
        simp [finish, State.goto, pending, dispatch_of_auth a hauth]
  | authCb =>
      right
      refine ⟨.authWrite, rfl, by decide, ?_⟩
      simp [State.visit, finish, State.call, pending]
  | getId =>
      right
      unfold State.visit
      rcases hid : stanzaGetId (some stanza) with _ | id
      · refine ⟨.getQuery none, rfl, by decide, ?_⟩
        simp [finish, State.goto, pending, hid]
      · refine ⟨.idCb id, rfl, Nat.lt_succ_self _, ?_⟩
        simp [finish, State.goto, pending, hid]
  | idCb id =>
      right
      refine ⟨.idWrite id, rfl, Nat.lt_succ_self _, ?_⟩
      simp [State.visit, finish, State.call, pending]
  | getQuery id =>
      right
      unfold State.visit
      rcases hquery : stanzaGetQueryRequest stanza with _ | query
      · refine ⟨.getXmlns id, rfl, by simp [rank], ?_⟩
        simp [finish, State.goto, pending, pending.queries, hquery]
      · refine ⟨.queryCb query id, rfl, Nat.lt_succ_self _, ?_⟩
        simp [finish, State.goto, pending, pending.queries, hquery]
  | queryCb query id =>
      right
      refine ⟨.queryWrite id, rfl, Nat.lt_succ_self _, ?_⟩
      simp [State.visit, finish, State.call, pending]
  | getXmlns id =>
      right
      unfold State.visit
      rcases hxmlns : stanzaGetXmlns stanza with _ | xmlns
      · refine ⟨.parent, rfl, by simp [rank], ?_⟩
        simp [finish, State.goto, pending, pending.namespaces, hxmlns]
      · refine ⟨.xmlnsCb xmlns id, rfl, Nat.lt_succ_self _, ?_⟩
        simp [finish, State.goto, pending, pending.namespaces, hxmlns]
  | xmlnsCb xmlns id =>
      right
      refine ⟨.xmlnsWrite, rfl, by simp [rank], ?_⟩
      simp [State.visit, finish, State.call, pending]

/-- So does the return from a callback. -/
theorem goto_finish (s : State) (a : Addr) (cell : Cell) (stanza : XMPPStanza) {p q : Point}
    (hnext : p.next = some q) : rank q < rank p ∧
      finish (s.goto q) a cell stanza q = finish s a cell stanza p := by
  cases p with
  | authWrite | idWrite | queryWrite | xmlnsWrite =>
      cases hnext
      refine ⟨Nat.lt_succ_self _, ?_⟩
      simp [finish, State.goto, pending]
  | _ => cases hnext

/-- A step that is not the last one keeps what the next step reads. -/
theorem visit_keeps {s : State} {a : Addr} {cell : Cell} {stanza : XMPPStanza} {p q : Point}
    (hpoint : (s.visit a cell stanza p).point = some q) :
    (s.visit a cell stanza p).stale = s.stale ∧
      (s.visit a cell stanza p).released = s.released ∧
      (s.visit a cell stanza p).parser.heap = s.parser.heap ∧
      (s.visit a cell stanza p).parser.curr_stanza = s.parser.curr_stanza := by
  by_cases hadd : p = .add
  · subst hadd
    exact ⟨rfl, rfl, rfl, rfl⟩
  · rcases visit_cases s a cell stanza hadd with ⟨calls, r, -, heq⟩ | heq
    · rw [heq]
      exact ⟨rfl, rfl, rfl, rfl⟩
    · rw [heq] at hpoint
      cases hpoint

theorem thread_visits {s : State} {a : Addr} {cell : Cell} {stanza : XMPPStanza} {p : Point}
    (hpoint : s.point = some p) (hnext : p.next = none) (hfresh : s.stale = false)
    (hsafe : s.dangling s.parser.curr_stanza = false)
    (hload : load s.parser.heap s.parser.curr_stanza = .ok (a, cell))
    (hshallow : shallow s.parser.heap cell = .ok stanza) :
    step s .thread = some (s.visit a cell stanza p) := by
  unfold step State.thread
  rw [hfresh, if_neg Bool.false_ne_true, hpoint]
  dsimp only
  rw [hnext, hsafe, Bool.and_false, if_neg Bool.false_ne_true, hload]
  dsimp only
  rw [hshallow]

/-- The thread alone does what `endElement` does in one step. -/
theorem dispatch_run {a : Addr} {cell : Cell} {stanza : XMPPStanza} (n : ℕ) {s : State}
    {p : Point} (hrank : rank p ≤ n) (hpoint : s.point = some p) (hfresh : s.stale = false)
    (hsafe : s.dangling s.parser.curr_stanza = false)
    (hload : load s.parser.heap s.parser.curr_stanza = .ok (a, cell))
    (hshallow : shallow s.parser.heap cell = .ok stanza) :
    ∃ k, run step s (List.replicate k .thread) = some (finish s a cell stanza p) := by
  induction n generalizing s p with
  | zero => cases p <;> cases hrank
  | succ n ih =>
      rcases hnext : p.next with _ | q
      · have hstep := thread_visits hpoint hnext hfresh hsafe hload hshallow
        rcases visit_finish s a cell stanza p hnext with hdone | ⟨q, hq, hlt, hfinish⟩
        · refine ⟨1, ?_⟩
          rw [List.replicate_one, run, hstep, hdone]
          rfl
        · obtain ⟨hstale, hreleased, hheap, hcurr⟩ := visit_keeps hq
          have hsafe' : (s.visit a cell stanza p).dangling
              (s.visit a cell stanza p).parser.curr_stanza = false := by
            rw [State.dangling, hreleased, hcurr]
            exact hsafe
          obtain ⟨k, hk⟩ := ih (by omega) hq (hstale.trans hfresh) hsafe'
            (by rw [hheap, hcurr]; exact hload) (by rw [hheap]; exact hshallow)
          refine ⟨k + 1, ?_⟩
          rw [List.replicate_succ, run, hstep, Option.bind_some, hk, hfinish]
      · obtain ⟨hlt, hfinish⟩ := goto_finish s a cell stanza hnext
        obtain ⟨k, hk⟩ := ih (s := s.goto q) (by omega) rfl hfresh hsafe hload hshallow
        refine ⟨k + 1, ?_⟩
        rw [List.replicate_succ, run, thread_returns hfresh hpoint hnext, Option.bind_some, hk,
          hfinish]

/-- Without polls the steps of the thread are the handler of the stream parser. -/
theorem endElement_run {s : State} {q : Parser} {element : Str} (hs : Sound s)
    (hpoint : s.point = none) (hends : s.parser.depth - 1 = 1)
    (h : endElement s.parser = .ok q) : ∃ k,
    run step s (.event (.stop element) :: List.replicate k .thread) =
      some { s with parser := q } := by
  rcases endElement_cases h with
    ⟨_, _, _, _, hinner, -⟩ | ⟨a, cell, stanza, -, hload, hshallow, rfl⟩ | ⟨houter, -⟩
  · omega
  · have hevent : step s (.event (.stop element)) =
        some { s with
          parser := { s.parser with depth := s.parser.depth - 1 }
          point := some .add } := by
      have hisEnd : endsStanza s.parser (.stop element) = true := decide_eq_true hends
      unfold step State.event
      rw [hs.fresh, if_neg Bool.false_ne_true]
      dsimp only
      rw [hpoint, hs.reads hpoint, Option.isSome_none, if_neg Bool.false_ne_true,
        if_neg Bool.false_ne_true, if_pos hisEnd]
    have hopen := hs.between hpoint
    have hlevel : (s.parser.depth - 1).toNat = 0 + 1 := by omega
    rw [hlevel] at hopen
    obtain ⟨k, hk⟩ := dispatch_run 12 (s := { s with
      parser := { s.parser with depth := s.parser.depth - 1 }, point := some .add })
      (Nat.le_refl _) rfl hs.fresh (not_dangling_of_open hopen) hload hshallow
    refine ⟨k, ?_⟩
    rw [run, hevent, Option.bind_some, hk]
    simp [finish, pending, hpoint]
  · omega

/-- The steps of a dispatch, and the polls between them. -/
def isEvent : Action → Bool
  | .event _ => true
  | _ => false

/-- In the dispatch of this stanza, or at its end: the calls made and still to come. -/
structure Within (a : Addr) (cell : Cell) (stanza : XMPPStanza) (calls : List (Call Addr))
    (s : State) : Prop where
  sound : Sound s
  load : s.point ≠ none → load s.parser.heap s.parser.curr_stanza = .ok (a, cell)
  shallow : shallow s.parser.heap cell = .ok stanza
  calls : s.parser.calls ++ (s.point.map (pending a stanza)).getD [] = calls

theorem Within.thread {a : Addr} {cell : Cell} {stanza : XMPPStanza} {calls : List (Call Addr)}
    {s t : State} (hs : Within a cell stanza calls s) (h : s.thread = some t) :
    Within a cell stanza calls t := by
  have hsound := hs.sound.thread h
  obtain ⟨p, hpoint, hcases⟩ := thread_cases h
  have hload := hs.load (by rw [hpoint]; nofun)
  have hshallow := hs.shallow
  have hcalls := hs.calls
  rw [hpoint, Option.map_some, Option.getD_some] at hcalls
  rcases hcases with
    ⟨q, hnext, rfl⟩ | ⟨-, -, rfl⟩ | ⟨a', cell', stanza', hnext, hload', hshallow', rfl⟩
  · have hfinish := (goto_finish s a cell stanza hnext).2
    refine ⟨hsound, fun _ => hload, hshallow, ?_⟩
    exact (congrArg (fun u => u.parser.calls) hfinish).trans hcalls
  · cases hsound.fresh
  · rw [hload] at hload'
    cases hload'
    rw [hshallow] at hshallow'
    cases hshallow'
    rcases visit_finish s a cell stanza p hnext with hdone | ⟨q, hq, -, hfinish⟩
    · rw [hdone]
      rw [hdone] at hsound
      refine ⟨hsound, fun hne => absurd rfl hne, hshallow, ?_⟩
      rw [← hcalls]
      exact List.append_nil _
    · obtain ⟨-, -, hheap, hcurr⟩ := visit_keeps hq
      refine ⟨hsound, fun _ => ?_, ?_, ?_⟩
      · rw [hheap, hcurr]
        exact hload
      · rw [hheap]
        exact hshallow
      · rw [hq]
        exact (congrArg (fun u => u.parser.calls) hfinish).trans hcalls

/-- Polls that do not find the stanza change none of its calls. -/
theorem calls_of_runs {s t : State} {as : List Action} {a : Addr} {cell : Cell}
    {stanza : XMPPStanza} (hs : Sound s) (hpoint : s.point = some .add)
    (hload : load s.parser.heap s.parser.curr_stanza = .ok (a, cell))
    (hshallow : shallow s.parser.heap cell = .ok stanza)
    (h : Runs step (fun u b => harmless u b = true ∧ isEvent b = false) s as t)
    (hend : t.point = none) :
    t.parser.calls = s.parser.calls ++ .add a :: dispatch a stanza := by
  have hstart : Within a cell stanza (s.parser.calls ++ .add a :: dispatch a stanza) s := by
    refine ⟨hs, fun _ => hload, hshallow, ?_⟩
    rw [hpoint]
    rfl
  have hwithin := h.invariant hstart fun u b v hu hok hv => ?_
  · have hcalls := hwithin.calls
    rw [hend] at hcalls
    rw [← hcalls]
    exact (List.append_nil _).symm
  · have hsound := hu.sound.step hok.1 hv
    unfold step at hv
    rw [hu.sound.fresh, if_neg Bool.false_ne_true] at hv
    cases b with
    | event e => cases hok.2
    | thread => exact hu.thread hv
    | verify template clear =>
        cases hv
        exact ⟨hsound, hu.load, hu.shallow, hu.calls⟩

/-! ## What a poll sees -/

/-- A stanza lies after its parent. -/
def ParentsFirst (heap : Heap) : Prop :=
  ∀ (a : Addr) (cell : Cell), heap[a]? = some cell → ∀ p, cell.parent = some p → p < a

mutual
/-- With a depth that reaches the end of the heap the whole stanza is read. -/
theorem stanzaAt_of_represents {heap : Heap} (hfirst : ParentsFirst heap) {a : Addr}
    {parent : Option Addr} : ∀ {t : XMPPStanza} {n : ℕ},
      Represents (fun a => heap[a]?) a parent t → heap.length ≤ a + n → stanzaAt heap n a = t
  | ⟨name, attrs, children, content⟩, n, h, hn => by
      rw [Represents] at h
      obtain ⟨kids, hcell, hkids⟩ := h
      have hlt : a < heap.length := (List.getElem?_eq_some_iff.mp hcell).1
      cases n with
      | zero => exact absurd hlt (Nat.not_lt.mpr hn)
      | succ n =>
          have hcell : heap[a]? = some ⟨name, attrs, kids, content, parent⟩ := hcell
          rw [stanzaAt, hcell]
          dsimp only
          have hn' : heap.length ≤ a + 1 + n := by
            rw [Nat.add_right_comm]
            exact hn
          rw [map_stanzaAt hfirst hkids hn']

theorem map_stanzaAt {heap : Heap} (hfirst : ParentsFirst heap) {a : Addr} {kids : List Addr} :
    ∀ {ts : List XMPPStanza} {n : ℕ}, RepresentsAll (fun a => heap[a]?) a kids ts →
      heap.length ≤ a + 1 + n → kids.map (stanzaAt heap n) = ts
  | [], n, h, _ => by
      rw [RepresentsAll] at h
      rw [h]
      rfl
  | t :: ts, n, h, hn => by
      rw [RepresentsAll] at h
      obtain ⟨k, ks, rfl, ht, hts⟩ := h
      have hk : a < k := by
        rcases t with ⟨name, attrs, children, content⟩
        rw [Represents] at ht
        obtain ⟨_, hcell, -⟩ := ht
        exact hfirst k _ hcell a rfl
      have hn' : heap.length ≤ k + n := Nat.le_trans hn (Nat.add_le_add_right hk n)
      rw [List.map_cons, stanzaAt_of_represents hfirst ht hn', map_stanzaAt hfirst hts hn]
end

/-- The heap is laid out so, and the current stanza lies in it. -/
structure LaidOut (s : Parser) : Prop where
  first : ParentsFirst s.heap
  current : ∀ a, s.curr_stanza = some a → a < s.heap.length

theorem ParentsFirst.set {heap : Heap} (hfirst : ParentsFirst heap) {a : Addr} {old new : Cell}
    (ha : heap[a]? = some old) (hparent : new.parent = old.parent) :
    ParentsFirst (heap.set a new) := by
  intro b cell h
  have hlt : a < heap.length := (List.getElem?_eq_some_iff.mp ha).1
  by_cases hab : a = b
  · subst hab
    rw [List.getElem?_set_self hlt] at h
    cases h
    rw [hparent]
    exact hfirst a old ha
  · rw [List.getElem?_set_ne hab] at h
    exact hfirst b cell h

theorem LaidOut.parent {s : Parser} (h : LaidOut s) {a : Addr} {cell : Cell}
    (ha : s.heap[a]? = some cell) : ∀ p, cell.parent = some p → p < s.heap.length := by
  intro p hp
  have hlt : a < s.heap.length := (List.getElem?_eq_some_iff.mp ha).1
  exact Nat.lt_trans (h.first a cell ha p hp) hlt

theorem LaidOut.handle {s s' : Parser} {e : Event} (hs : LaidOut s)
    (h : StreamParser.handle s e = .ok s') : LaidOut s' := by
  cases e with
  | start element attributes =>
      cases h
      refine ⟨?_, ?_⟩
      · intro a cell ha p hp
        change (s.heap ++ [_])[a]? = some cell at ha
        have hlt : a < s.heap.length + 1 := by
          simpa using (List.getElem?_eq_some_iff.mp ha).1
        rcases Nat.lt_succ_iff_lt_or_eq.mp hlt with hold | hnew
        · rw [List.getElem?_append_left hold] at ha
          exact hs.first a cell ha p hp
        · rw [hnew, List.getElem?_concat_length] at ha
          cases ha
          rw [hnew]
          by_cases hd : s.depth = 0
          · rw [if_pos hd] at hp
            cases hp
          · rw [if_neg hd] at hp
            exact hs.current p hp
      · intro a ha
        cases ha
        simp [startElement]
  | stop element =>
      rcases endElement_cases h with
        ⟨a, cell, p, parent, -, -, hcell, hp, hcellp, rfl⟩ | ⟨a, cell, _, -, hload, -, rfl⟩ |
          ⟨-, rfl⟩
      · refine ⟨hs.first.set hcellp rfl, ?_⟩
        intro b hb
        cases hb
        simpa using hs.parent hcell p hp
      · obtain ⟨-, hcell⟩ := load_eq_ok hload
        exact ⟨hs.first, hs.parent hcell⟩
      · exact ⟨hs.first, hs.current⟩
  | data text =>
      rcases handleData_cases h with rfl | ⟨a, cell, content, -, hcell, rfl⟩
      · exact hs
      · refine ⟨hs.first.set hcell rfl, ?_⟩
        intro b hb
        simpa using hs.current b hb

theorem LaidOut.event {s t : State} {e : Event} (hs : LaidOut s.parser) (h : s.event e = some t) :
    LaidOut t.parser := by
  unfold State.event at h
  split_ifs at h
  · cases h
    exact hs
  · cases h
    exact ⟨hs.first, hs.current⟩
  · unfold State.handled at h
    rcases hhandle : StreamParser.handle s.parser e with fault | parser
    · rw [hhandle] at h
      cases h
    · rw [hhandle] at h
      cases h
      exact hs.handle hhandle

theorem LaidOut.thread {s t : State} (hs : LaidOut s.parser) (h : s.thread = some t) :
    LaidOut t.parser := by
  obtain ⟨p, -, hcases⟩ := thread_cases h
  rcases hcases with ⟨q, -, rfl⟩ | ⟨-, -, rfl⟩ | ⟨a, cell, stanza, -, hload, -, rfl⟩
  · exact hs
  · exact hs
  · obtain ⟨-, hcell⟩ := load_eq_ok hload
    by_cases hadd : p = .add
    · subst hadd
      exact ⟨hs.first, hs.current⟩
    · rcases visit_cases s a cell stanza hadd with ⟨calls, q, -, heq⟩ | heq
      · rw [heq]
        exact ⟨hs.first, hs.current⟩
      · rw [heq]
        exact ⟨hs.first, hs.parent hcell⟩

theorem LaidOut.step {s t : State} {a : Action} (hs : LaidOut s.parser) (h : step s a = some t) :
    LaidOut t.parser := by
  unfold StanzaLifetime.step at h
  split_ifs at h
  cases a with
  | event e => exact hs.event h
  | thread => exact hs.thread h
  | verify template clear =>
      cases h
      exact ⟨hs.first, hs.current⟩

/-- In every run a poll compares its template with the stanzas that lie in the heap. -/
theorem view_of_runs {ok : State → Action → Prop} {s t : State} {as : List Action}
    (hs : LaidOut s.parser) (h : Runs step ok s as t) {a : Addr} {parent : Option Addr}
    {stanza : XMPPStanza} (hstanza : Represents (fun a => t.parser.heap[a]?) a parent stanza) :
    t.view a = stanza := by
  have hstep : ∀ u a v, LaidOut (State.parser u) → ok u a → step u a = some v →
      LaidOut (State.parser v) := fun u a v hu _ hv => hu.step hv
  have hlaid : LaidOut t.parser := h.invariant (I := fun u => LaidOut u.parser) hs hstep
  exact stanzaAt_of_represents hlaid.first hstanza (Nat.le_add_left _ a)

end Stabber.StanzaDispatch
