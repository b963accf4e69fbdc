import Stabber.ServerSteps

/-!
# The messages on the wire

What the socket has taken is always a sequence of whole messages and the first
part of the one being written. The messages of `server_send` come in the order in
which they were accepted, each once, and those still missing are in the queue.
-/

namespace Stabber.SendQueue
open XmlDocument Callbacks Utf8 WriteStream Transition Server State

/-- The messages of `server_send` among these. -/
def queued (ms : List Message) : List (List UInt8) :=
  (ms.filter fun m => m.1 = .queued).map Prod.snd

@[simp] theorem queued_nil : queued [] = [] := rfl

@[simp] theorem queued_append (ms ns : List Message) :
    queued (ms ++ ns) = queued ms ++ queued ns := by
  unfold queued
  rw [List.filter_append, List.map_append]

/-- The message in `write_stream`. -/
def current (s : State) : List Message :=
  match s.writing with
  | some (origin, w) => [(origin, w.stream)]
  | none => []

/-- What the socket has taken of that message. -/
def inFlight (s : State) : List (Origin × UInt8) :=
  match s.writing with
  | some (origin, w) => w.done.map (origin, ·)
  | none => []

/-- The wire carries these messages, given to `write_stream` before the current one,
as a whole. -/
structure Unbroken (s : State) (whole : List Message) : Prop where
  entered : s.entered = whole ++ current s
  wire : s.wire = whole.flatMap tagged ++ inFlight s
  order : queued s.entered <+: s.accepted
  queue : s.pc.holdsLock = false → s.stopped = false → queued whole ++ s.send_queue = s.accepted

/-- The message with which the thread enters `write_stream` next. -/
def entering (s : State) : Option (List UInt8) :=
  match s.writing, s.pc with
  | none, .draining (stream :: _) => some stream
  | none, .feeding _ _ _ (m :: _) => some (utf8 m)
  | _, _ => none

/-- No `write` fails but for a timeout. -/
def NoError (_ : State) (a : Action) : Prop := a ≠ .write .failed

/-- And the length of every message fits into an `int`. -/
def Fits (s : State) (a : Action) : Prop :=
  NoError s a ∧ ∀ m, entering s = some m → m.length < 2 ^ 31

/-- The thread is alive and does not hold the lock. -/
def Working (pc : Pc) : Prop := pc.holdsLock = false ∧ pc ≠ .finished ∧ pc ≠ .crashed

/-! ## The invariant -/

structure Ordered (s : State) (whole : List Message) : Prop where
  entered : s.entered = whole ++ current s
  wire : s.wire = whole.flatMap tagged ++ inFlight s
  exact : ∀ origin w, s.writing = some (origin, w) → w.Exact
  order : queued (whole ++ current s) <+: s.accepted
  free : s.pc.holdsLock = false → s.stopped = false →
    queued (current s) = [] ∧ queued whole ++ s.send_queue = s.accepted
  draining : ∀ rest, s.pc = .draining rest → queued (whole ++ current s) ++ rest = s.accepted
  live : s.stopped = true → s.pc = .finished ∨ s.pc = .crashed

namespace Ordered
variable {S : Setting} {s t : State} {whole : List Message}

theorem unbroken (h : Ordered s whole) : Unbroken s whole := by
  constructor
  · exact h.entered
  · exact h.wire
  · rw [h.entered]
    exact h.order
  · exact fun hlock hstop => (h.free hlock hstop).2

theorem running (h : Ordered s whole) (hpc : s.pc ≠ .finished ∧ s.pc ≠ .crashed) :
    s.stopped = false := by
  cases hstop : s.stopped with
  | false => rfl
  | true =>
      rcases h.live hstop with hend | hend
      · exact (hpc.1 hend).elim
      · exact (hpc.2 hend).elim

theorem live_of_running {t : State} (h : t.stopped = false) :
    t.stopped = true → t.pc = .finished ∨ t.pc = .crashed := by
  intro hstop
  rw [h] at hstop
  cases hstop

/-- The thread only goes from one place outside the drain to another. -/
theorem moved (h : Ordered s whole) {pc : Pc} (hpc : Working s.pc) (hlock : pc.holdsLock = false) :
    Ordered { s with pc := pc } whole := by
  have hrun := h.running hpc.2
  constructor
  · exact h.entered
  · exact h.wire
  · exact h.exact
  · exact h.order
  · exact fun _ _ => h.free hpc.1 hrun
  · intro rest hrest
    change pc = .draining rest at hrest
    rw [hrest] at hlock
    cases hlock
  · exact live_of_running hrun

theorem crash (h : Ordered s whole) : Ordered s.crash whole := by
  constructor
  · exact h.entered
  · exact h.wire
  · exact h.exact
  · exact h.order
  · intro _ hstop
    cases hstop
  · intro rest hpc
    cases hpc
  · exact fun _ => Or.inr rfl

theorem send (h : Ordered s whole) (stream : List UInt8) (hlock : s.pc.holdsLock = false) :
    Ordered { s with
      send_queue := s.send_queue ++ [stream]
      accepted := s.accepted ++ [stream] } whole := by
  constructor
  · exact h.entered
  · exact h.wire
  · exact h.exact
  · exact h.order.trans (List.prefix_append _ _)
  · intro _ hstop
    obtain ⟨hcurrent, hqueue⟩ := h.free hlock hstop
    refine ⟨hcurrent, ?_⟩
    change queued whole ++ (s.send_queue ++ [stream]) = s.accepted ++ [stream]
    rw [← List.append_assoc, hqueue]
  · intro rest hpc
    change s.pc = .draining rest at hpc
    rw [hpc] at hlock
    cases hlock
  · exact h.live

/-- The socket takes the next bytes of the message being written. -/
theorem write (h : Ordered s whole) {result : WriteResult} {origin : Origin} {w : Writing}
    {bs : List UInt8} {rest : Option Writing} (hresult : result ≠ .failed)
    (hw : s.writing = some (origin, w)) (hwrite : w.write result = some (bs, rest)) :
    Ordered { s with
      wire := s.wire ++ bs.map (origin, ·)
      writing := rest.map (origin, ·)
      failed := s.failed || result = .failed } whole := by
  cases rest with
  | none =>
      rcases Writing.write_cases hwrite with ⟨_, ⟨_, _, _, _, h'⟩ | ⟨_, _, h'⟩ | ⟨h', _, _⟩⟩
      · cases h'
      · cases h'
      · exact (hresult h').elim
  | some w' =>
      obtain ⟨hexact, hstream, hdone⟩ := Writing.done_of_write (h.exact origin w hw) hwrite
      have hcurrent : current s = [(origin, w'.stream)] := by
        rw [hstream]
        unfold current
        rw [hw]
      have hflight : inFlight s = w.done.map (origin, ·) := by
        unfold inFlight
        rw [hw]
      have hentered := h.entered
      rw [hcurrent] at hentered
      constructor
      · exact hentered
      · change s.wire ++ bs.map (origin, ·) =
          whole.flatMap tagged ++ w'.done.map (origin, ·)
        rw [h.wire, hflight, hdone, List.map_append, List.append_assoc]
      · intro o u hu
        cases hu
        exact hexact
      · have horder := h.order
        rw [hcurrent] at horder
        exact horder
      · intro hlock hstop
        have hfree := h.free hlock hstop
        rw [hcurrent] at hfree
        exact hfree
      · intro more hpc
        have hdrain := h.draining more hpc
        rw [hcurrent] at hdrain
        exact hdrain
      · exact h.live

/-- A message that has been written becomes one of the whole ones. -/
theorem returned (h : Ordered s whole) {origin : Origin} {w : Writing}
    (hw : s.writing = some (origin, w)) (hsend : w.to_send ≤ 0) :
    Ordered { s with writing := none } (whole ++ [(origin, w.stream)]) := by
  have hdone := Writing.done_of_returned (h.exact origin w hw) hsend
  have hcurrent : current s = [(origin, w.stream)] := by
    unfold current
    rw [hw]
  have hflight : inFlight s = tagged (origin, w.stream) := by
    unfold inFlight
    rw [hw]
    exact congrArg (List.map (origin, ·)) hdone
  constructor
  · have hentered := h.entered
    rw [hcurrent] at hentered
    simpa [current] using hentered
  · change s.wire = _
    rw [h.wire, hflight, List.flatMap_append]
    simp [inFlight]
  · intro o u hu
    cases hu
  · have horder := h.order
    rw [hcurrent] at horder
    simpa [current] using horder
  · intro hlock hstop
    obtain ⟨hnone, hqueue⟩ := h.free hlock hstop
    rw [hcurrent] at hnone
    refine ⟨rfl, ?_⟩
    rw [queued_append, hnone, List.append_nil]
    exact hqueue
  · intro rest hpc
    have hdrain := h.draining rest hpc
    rw [hcurrent] at hdrain
    simpa [current] using hdrain
  · exact h.live

theorem current_of_idle {s : State} (hw : s.writing = none) : current s = [] := by
  unfold current
  rw [hw]

theorem inFlight_of_idle {s : State} (hw : s.writing = none) : inFlight s = [] := by
  unfold inFlight
  rw [hw]

theorem entered_begin (h : Ordered s whole) (hw : s.writing = none) {m : Message} :
    s.entered ++ [m] = whole ++ [m] := by
  rw [h.entered, current_of_idle hw, List.append_nil]

/-- The thread enters `write_stream` with a reply. -/
theorem beginReply (h : Ordered s whole) {m : List UInt8} {pc : Pc} (hw : s.writing = none)
    (hworking : Working s.pc) (hlock : pc.holdsLock = false) (hlen : m.length < 2 ^ 31) :
    Ordered { s.begin .reply m with pc := pc } whole := by
  have hrun := h.running hworking.2
  obtain ⟨hnone, hqueue⟩ := h.free hworking.1 hrun
  constructor
  · exact entered_begin h hw
  · change s.wire = whole.flatMap tagged ++ []
    rw [h.wire, inFlight_of_idle hw]
  · intro o u hu
    cases hu
    exact exact_writeStream hlen
  · have horder := h.order
    rw [queued_append, hnone, List.append_nil] at horder
    change queued (whole ++ [(.reply, m)]) <+: s.accepted
    rw [queued_append, show queued [(.reply, m)] = [] from rfl, List.append_nil]
    exact horder
  · intro _ _
    exact ⟨rfl, hqueue⟩
  · intro rest hpc
    change pc = .draining rest at hpc
    rw [hpc] at hlock
    cases hlock
  · exact live_of_running hrun

/-- The thread takes the lock and looks at the whole queue. -/
theorem lock (h : Ordered s whole) (hw : s.writing = none) (hpc : s.pc = .top) :
    Ordered { s with pc := .draining s.send_queue } whole := by
  have hrun := h.running (by simp [hpc])
  obtain ⟨_, hqueue⟩ := h.free (by rw [hpc]; rfl) hrun
  constructor
  · exact h.entered
  · exact h.wire
  · exact h.exact
  · exact h.order
  · intro hlock
    cases hlock
  · intro rest hrest
    cases hrest
    change queued (whole ++ current s) ++ s.send_queue = s.accepted
    rw [current_of_idle hw, List.append_nil]
    exact hqueue
  · exact live_of_running hrun

/-- The drain goes on with the next message. -/
theorem take (h : Ordered s whole) {m : List UInt8} {rest : List (List UInt8)}
    (hw : s.writing = none) (hpc : s.pc = .draining (m :: rest)) (hlen : m.length < 2 ^ 31) :
    Ordered { s.begin .queued m with pc := .draining rest } whole := by
  have hrun := h.running (by simp [hpc])
  have hdrain := h.draining _ hpc
  rw [current_of_idle hw, List.append_nil] at hdrain
  have hnext : queued (whole ++ [(.queued, m)]) ++ rest = s.accepted := by
    rw [queued_append, List.append_assoc]
    exact hdrain
  constructor
  · exact entered_begin h hw
  · change s.wire = whole.flatMap tagged ++ []
    rw [h.wire, inFlight_of_idle hw]
  · intro o u hu
    cases hu
    exact exact_writeStream hlen
  · change queued (whole ++ [(.queued, m)]) <+: s.accepted
    rw [← hnext]
    exact List.prefix_append _ _
  · intro hlock
    cases hlock
  · intro more hmore
    cases hmore
    exact hnext
  · exact live_of_running hrun

/-- The drain is over: everything accepted has been written. -/
theorem unlock (h : Ordered s whole) (hw : s.writing = none) (hpc : s.pc = .draining []) :
    Ordered { s with send_queue := [], pc := .receiving } whole := by
  have hrun := h.running (by simp [hpc])
  have hdrain := h.draining _ hpc
  rw [current_of_idle hw, List.append_nil] at hdrain
  have hcurrent : current { s with send_queue := [], pc := .receiving } = [] :=
    current_of_idle hw
  constructor
  · exact h.entered
  · exact h.wire
  · exact h.exact
  · exact h.order
  · intro _ _
    rw [hcurrent]
    refine ⟨rfl, ?_⟩
    rw [← hdrain, List.append_nil, List.append_nil]
  · intro rest hrest
    cases hrest
  · exact live_of_running hrun

theorem shutdown (h : Ordered s whole) : Ordered s.shutdown whole := by
  constructor
  · exact h.entered
  · exact h.wire
  · exact h.exact
  · exact h.order
  · intro _ hstop
    cases hstop
  · intro rest hpc
    cases hpc
  · exact fun _ => Or.inl rfl

end Ordered

theorem ordered_start {s : State} (hs : Started s) : Ordered s [] := by
  have hcurrent := Ordered.current_of_idle hs.writing
  have hflight := Ordered.inFlight_of_idle hs.writing
  constructor
  · rw [hs.entered, hcurrent]
    rfl
  · rw [hs.wire, hflight]
    rfl
  · intro o w hw
    rw [hs.writing] at hw
    cases hw
  · rw [hcurrent]
    exact List.nil_prefix
  · intro _ _
    rw [hcurrent, hs.send_queue, hs.accepted]
    exact ⟨rfl, rfl⟩
  · intro rest hpc
    rw [hs.pc] at hpc
    cases hpc
  · exact Ordered.live_of_running hs.stopped

theorem working {s : State} {pc : Pc} (hpc : s.pc = pc)
    (h : Working pc := by simp [Working, Pc.holdsLock]) : Working s.pc := by
  rw [hpc]
  exact h

/-- Every step keeps the messages whole, in order, and accounted for. -/
theorem ordered_step {S : Setting} {s t : State} {a : Action} {whole : List Message}
    (h : Ordered s whole) (hok : Fits s a) (hstep : Step S s a t) :
    ∃ whole', Ordered t whole' := by
  cases hstep with
  | quiet a primed timeout hchunk => exact ⟨whole, { h with }⟩
  | crash a => exact ⟨whole, h.crash⟩
  | send stream hlock => exact ⟨whole, h.send stream hlock⟩
  | verifyAny template clear => exact ⟨whole, { h with }⟩
  | stop => exact ⟨whole, { h with }⟩
  | leave a hpc =>
      have hworking : Working s.pc := by
        rcases hpc with hpc | hpc <;> simp [Working, Pc.holdsLock, hpc]
      exact ⟨whole, h.moved hworking rfl⟩
  | connected hpc => exact ⟨whole, { h.moved (working hpc) rfl with }⟩
  | again hpc => exact ⟨whole, h.moved (working hpc) rfl⟩
  | data chunk events hpc => exact ⟨whole, h.moved (working hpc) rfl⟩
  | write hw hwrite =>
      have hresult := fun hfailed => hok.1 (congrArg Action.write hfailed)
      exact ⟨whole, h.write hresult hw hwrite⟩
  | returned hw hsend => exact ⟨_, h.returned hw hsend⟩
  | shutdown hw hpc hkill => exact ⟨whole, h.shutdown⟩
  | lock hw hpc hkill => exact ⟨whole, h.lock hw hpc⟩
  | @take stream rest hw hpc =>
      have hentering : entering s = some stream := by
        unfold entering
        rw [hw, hpc]
      exact ⟨whole, h.take hw hpc (hok.2 stream hentering)⟩
  | unlock hw hpc => exact ⟨whole, h.unlock hw hpc⟩
  | @reply _ _ _ m _ hw hpc =>
      have hentering : entering s = some (utf8 m) := by
        unfold entering
        rw [hw, hpc]
      exact ⟨whole, h.beginReply hw (working hpc) rfl (hok.2 (utf8 m) hentering)⟩
  | @call _ _ _ c _ _ _ hw hpc hclient hcall =>
      obtain ⟨_, _, _, hrecord⟩ := s.record_eq c
      rw [hrecord]
      exact ⟨whole, { h.moved (working hpc) rfl with }⟩
  | event hw hpc hevent => exact ⟨whole, { h.moved (working hpc) rfl with }⟩
  | next hw hpc hend => exact ⟨whole, { h.moved (working hpc) rfl with }⟩
  | streamEnd hw hpc hend =>
      have hlen : (utf8 STREAM_END).length < 2 ^ 31 := by decide
      have hreply := @Ordered.beginReply s whole h _ .ending hw (working hpc) rfl hlen
      exact ⟨whole, { hreply with }⟩
  | kill hw hpc => exact ⟨whole, { h.moved (working hpc) rfl with }⟩

/-- In every run without write errors whose messages are shorter than 2^31 bytes, the
wire is unbroken in every state. -/
theorem unbroken_of_runs {S : Setting} {s t : State} {as : List Action} (hs : Started s)
    (h : Runs (step S) Fits s as t) : ∃ whole, Unbroken t whole := by
  have hinv : ∃ whole, Ordered t whole := by
    apply h.invariant (I := fun u => ∃ whole, Ordered u whole) ⟨[], ordered_start hs⟩
    intro u a v hu hok hstep
    obtain ⟨whole, hu⟩ := hu
    exact ordered_step hu hok (step_cases hstep)
  obtain ⟨whole, hordered⟩ := hinv
  exact ⟨whole, hordered.unbroken⟩

/-- One message, of which the socket has taken two bytes. -/
theorem unbroken_short_write : ∃ t, run (step .plain) .idle
    [.send (utf8 "<a/>".toList), .accept .connected, .thread, .thread, .write (.sent 2)] = some t ∧
      ∃ whole, Unbroken t whole := by
  have quiet : ∀ {s : State} {a : Action}, a ≠ .write .failed → entering s = none → Fits s a := by
    intro s a ha hs
    refine ⟨ha, ?_⟩
    intro m hm
    rw [hs] at hm
    cases hm
  have h₁ := @Runs.nil _ _ (step .plain) Fits .idle
  have h₂ := h₁.snoc (.send (utf8 "<a/>".toList)) (quiet (by simp) rfl) rfl
  have h₃ := h₂.snoc (.accept .connected) (quiet (by simp) rfl) rfl
  have h₄ := h₃.snoc .thread (quiet (by simp) rfl) rfl
  have hshort : ∀ s, entering s = some (utf8 "<a/>".toList) → Fits s .thread := by
    intro s hs
    refine ⟨by simp [NoError], ?_⟩
    intro m hm
    rw [hs] at hm
    cases hm
    decide
  have h₅ := h₄.snoc .thread (hshort _ rfl) rfl
  have h₆ := h₅.snoc (.write (.sent 2)) (quiet (by simp) rfl) rfl
  exact ⟨_, h₆.to_run, unbroken_of_runs started_idle h₆⟩

/-! ## Messages that are too long -/

/-- The queue has been looked at, and the message is in `write_stream`. -/
def taken (m : List UInt8) : State :=
  { State.idle with
    pc := .draining []
    writing := some (.queued, writeStream m)
    entered := [(.queued, m)]
    send_queue := [m]
    accepted := [m]
    client := some xmppclientNew }

/-- A message whose length is negative as an `int` is taken from the queue and never
written. -/
theorem lost_of_negative {m : List UInt8} (hm : (writeStream m).to_send ≤ 0) (hne : m ≠ []) :
    ∃ t, Runs (step .plain) NoError .idle
        [.send m, .accept .connected, .thread, .thread, .thread, .thread] t ∧
      ¬ ∃ whole, Unbroken t whole := by
  have hfirst : run (step .plain) .idle [.send m, .accept .connected, .thread, .thread] =
      some (taken m) := rfl
  have hreturned : step .plain (taken m) .thread = some { taken m with writing := none } :=
    step_returned rfl rfl hm
  have hlast : run (step .plain) (taken m) [.thread, .thread] =
      some { taken m with writing := none, send_queue := [], pc := .receiving } := by
    rw [run, hreturned]
    rfl
  have hrun := @run_append _ _ (step .plain) .idle
    [.send m, .accept .connected, .thread, .thread] [.thread, .thread]
  rw [hfirst, Option.bind_some, hlast] at hrun
  refine ⟨_, runs_of_run hrun (by simp [NoError]), ?_⟩
  intro hunbroken
  obtain ⟨whole, hentered, hwire, _, _⟩ := hunbroken
  have hwhole : whole = [(.queued, m)] := by
    rw [← List.append_nil whole]
    exact hentered.symm
  rw [hwhole] at hwire
  have htagged := (List.append_eq_nil_iff.mp hwire.symm).1
  rw [List.flatMap_singleton] at htagged
  exact hne (List.map_eq_nil_iff.mp htagged)

theorem oversized_lost : ∃ t, Runs (step .plain) NoError .idle
    [.send (List.replicate (2 ^ 31) 32), .accept .connected, .thread, .thread, .thread,
      .thread] t ∧ ¬ ∃ whole, Unbroken t whole := by
  apply lost_of_negative
  · unfold writeStream
    dsimp only
    rw [List.length_replicate]
    decide
  · intro h
    have hlen := congrArg List.length h
    rw [List.length_replicate, List.length_nil] at hlen
    omega

end Stabber.SendQueue
