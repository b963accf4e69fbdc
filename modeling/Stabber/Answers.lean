import Stabber.SessionSteps

/-!
# The replies to a stream

A stream is answered by the header and then stanza by stanza, in order: each stanza is
stored, and its callbacks see the stanzas up to it. The replies to a stanza do not depend
on how the bytes of the stream were cut into chunks, nor on where Expat cut its text.
-/

namespace Stabber.Answers
open XmlDocument Stanza StanzaParse StanzaHistory StreamParser StreamTree
open Callbacks Utf8 ReadStream Transition Server State Sessions

section Log
variable (p : TreeParser) (log : List (Arrival XMPPStanza))

def withLog : TreeParser := { p with arrivals := log ++ p.arrivals }

/-- What is in the log already plays no part. -/
theorem handle_withLog (e : Event) :
    (withLog p log).handle e = (p.handle e).map fun q => withLog q log := by
  cases e with
  | start element attributes =>
      change Except.ok (TreeParser.startElement _ _ _) = Except.ok _
      unfold TreeParser.startElement withLog
      rw [List.append_assoc]
      rfl
  | stop element =>
      change TreeParser.endElement _ = (TreeParser.endElement p).map _
      unfold TreeParser.endElement withLog
      dsimp only
      split_ifs
      · rcases p.curr_stanza with _ | ⟨node, _ | ⟨parent, above⟩⟩
        · rfl
        · rfl
        · rfl
      · rcases p.curr_stanza with _ | ⟨node, above⟩
        · rfl
        · dsimp only
          rw [List.append_assoc]
          rfl
      · rfl
  | data text =>
      change TreeParser.handleData _ text = (TreeParser.handleData p text).map _
      unfold TreeParser.handleData withLog
      dsimp only
      split_ifs
      · cases p.curr_stanza with
        | none => rfl
        | some c => rfl
      · rfl

theorem deliver_withLog (es : List Event) :
    deliver TreeParser.handle (withLog p log) es =
      (deliver TreeParser.handle p es).map fun q => withLog q log := by
  induction es generalizing p with
  | nil => rfl
  | cons e es ih =>
      rw [deliver, deliver, handle_withLog]
      cases p.handle e with
      | error fault => rfl
      | ok q => exact ih q

end Log

/-- The calls of the parser on what has arrived. -/
def arrivalCalls (arrivals : List (Arrival XMPPStanza)) : List (Call XMPPStanza) :=
  arrivals.flatMap (Arrival.calls (fun t => t) fun t => t)

section Calls
variable {S : Setting} (x : Session)

/-- The session with another parser, and with other bytes received. -/
def Session.on (parser : TreeParser) (stream : List UInt8) : Session :=
  { x with parser := parser, stream := stream }

variable (parser : TreeParser) (stream : List UInt8)

theorem call_on (c : Call XMPPStanza) : (Session.on x parser stream).call S c =
    (x.call S c).map fun x => Session.on x parser stream := by
  have hcontext : (Session.on x parser stream).context S = x.context S := rfl
  unfold Session.call
  rw [hcontext]
  cases callback (x.context S) c with
  | error fault => rfl
  | ok p => cases c <;> rfl

theorem calls_on (cs : List (Call XMPPStanza)) : (Session.on x parser stream).calls S cs =
    (x.calls S cs).map fun x => Session.on x parser stream := by
  induction cs generalizing x with
  | nil => rfl
  | cons c cs ih =>
      rw [Session.calls, Session.calls, call_on]
      cases x.call S c with
      | error fault => rfl
      | ok y => exact ih y

theorem calls_append (cs ds : List (Call XMPPStanza)) :
    x.calls S (cs ++ ds) = (x.calls S cs).bind fun x => x.calls S ds := by
  induction cs generalizing x with
  | nil => rfl
  | cons c cs ih =>
      rw [List.cons_append, Session.calls, Session.calls]
      cases x.call S c with
      | error fault => rfl
      | ok y => exact ih y

/-- The calls leave the parser and the bytes alone. -/
theorem calls_frame {cs : List (Call XMPPStanza)} {y : Session} (h : x.calls S cs = .ok y) :
    y.parser = x.parser ∧ y.stream = x.stream ∧ y.ended = x.ended := by
  induction cs generalizing x with
  | nil =>
      cases h
      exact ⟨rfl, rfl, rfl⟩
  | cons c cs ih =>
      rw [Session.calls] at h
      cases hc : x.call S c with
      | error fault =>
          rw [hc] at h
          cases h
      | ok z =>
          rw [hc] at h
          have hframe : z.parser = x.parser ∧ z.stream = x.stream ∧ z.ended = x.ended := by
            unfold Session.call at hc
            split at hc
            · cases hc
            · cases hc
              exact ⟨rfl, rfl, rfl⟩
          obtain ⟨hparser, hstream, hended⟩ := ih z h
          exact ⟨hparser.trans hframe.1, hstream.trans hframe.2.1, hended.trans hframe.2.2⟩

end Calls

section Events
variable {S : Setting} {x : Session}

/-- The events of a part of the stream: first the parser on all of them, then the calls on
all that has arrived. -/
theorem deliver_event {es : List Event} {p : TreeParser} (hx : x.parser.arrivals = [])
    (h : deliver TreeParser.handle x.parser es = .ok p) :
    deliver (Session.event S) x es = (x.calls S (arrivalCalls p.arrivals)).map fun y =>
      Session.on y { p with arrivals := [] } x.stream := by
  induction es generalizing x p with
  | nil =>
      cases h
      rw [hx]
      change Except.ok x = Except.ok _
      unfold Session.on
      rw [← hx]
  | cons e es ih =>
      rw [deliver] at h
      cases he : x.parser.handle e with
      | error fault =>
          rw [he] at h
          cases h
      | ok q =>
          rw [he] at h
          change deliver TreeParser.handle q es = .ok p at h
          have hq : q = withLog { q with arrivals := [] } q.arrivals := by
            unfold withLog
            rw [List.append_nil]
          rw [hq, deliver_withLog] at h
          cases hp : deliver TreeParser.handle { q with arrivals := [] } es with
          | error fault =>
              rw [hp] at h
              cases h
          | ok p₀ =>
              rw [hp] at h
              cases h
              have hevent : x.event S e =
                  (x.calls S (arrivalCalls q.arrivals)).map fun y =>
                    Session.on y { q with arrivals := [] } x.stream := by
                unfold Session.event
                rw [he]
                exact calls_on x { q with arrivals := [] } x.stream _
              have hlog : arrivalCalls (withLog p₀ q.arrivals).arrivals =
                  arrivalCalls q.arrivals ++ arrivalCalls p₀.arrivals := List.flatMap_append
              rw [deliver, hevent, hlog, calls_append]
              cases hcalls : x.calls S (arrivalCalls q.arrivals) with
              | error fault => rfl
              | ok y =>
                  change deliver (Session.event S) (Session.on y _ x.stream) es = _
                  rw [ih (x := Session.on y { q with arrivals := [] } x.stream) rfl hp, calls_on]
                  change _ = (y.calls S (arrivalCalls p₀.arrivals)).map _
                  cases y.calls S (arrivalCalls p₀.arrivals) <;> rfl

end Events

section Answers
variable (S : Setting)

/-- The header has been answered. -/
def greeted (x : Session) : Session := { x with replies := x.replies ++ streamStartCallback }

/-- A stanza is stored, and its callbacks run. -/
def answer (x : Session) (stanza : XMPPStanza) : Except Fault Session :=
  x.calls S (.add stanza :: dispatch stanza stanza)

/-- One stanza after the other. -/
def answers : Session → List XMPPStanza → Except Fault Session
  | x, [] => .ok x
  | x, stanza :: stanzas => (answer S x stanza).bind fun x => answers x stanzas

variable {S}

theorem calls_stanzas (x : Session) (stanzas : List XMPPStanza) :
    x.calls S (arrivalCalls (stanzas.map .stanza)) = answers S x stanzas := by
  induction stanzas generalizing x with
  | nil => rfl
  | cons stanza stanzas ih =>
      have hcons : arrivalCalls ((stanza :: stanzas).map .stanza) =
          (.add stanza :: dispatch stanza stanza) ++ arrivalCalls (stanzas.map .stanza) := rfl
      rw [hcons, calls_append, answers]
      unfold answer
      cases x.calls S (.add stanza :: dispatch stanza stanza) with
      | error fault => rfl
      | ok y => exact ih y

theorem calls_stream (x : Session) (stanzas : List XMPPStanza) :
    x.calls S (arrivalCalls (.header :: stanzas.map .stanza)) = answers S (greeted x) stanzas := by
  have hheader : arrivalCalls (.header :: stanzas.map .stanza) =
      .streamStart :: arrivalCalls (stanzas.map .stanza) := rfl
  have hgreet : x.call S .streamStart = .ok (greeted x) := rfl
  rw [hheader, Session.calls, hgreet]
  exact calls_stanzas (greeted x) stanzas

theorem calls_store {x y : Session} {cs : List (Call XMPPStanza)}
    (hcs : ∀ c ∈ cs, ∀ s, c ≠ .add s) (h : x.calls S cs = .ok y) :
    y.received_stanzas = x.received_stanzas := by
  induction cs generalizing x with
  | nil =>
      cases h
      rfl
  | cons c cs ih =>
      rw [Session.calls] at h
      cases hc : x.call S c with
      | error fault =>
          rw [hc] at h
          cases h
      | ok z =>
          rw [hc] at h
          have hz : z.received_stanzas = x.received_stanzas := by
            unfold Session.call at hc
            split at hc
            · cases hc
            · cases hc
              have hc' := hcs c List.mem_cons_self
              cases c with
              | add s => exact (hc' s rfl).elim
              | _ => rfl
          rw [ih (fun d hd => hcs d (List.mem_cons_of_mem c hd)) h, hz]

/-- Every stanza is in the store when the next one is answered. -/
theorem answers_store {x y : Session} {stanzas : List XMPPStanza}
    (h : answers S x stanzas = .ok y) :
    y.received_stanzas = x.received_stanzas ++ stanzas := by
  induction stanzas generalizing x with
  | nil =>
      cases h
      exact (List.append_nil _).symm
  | cons stanza stanzas ih =>
      rw [answers] at h
      cases hanswer : answer S x stanza with
      | error fault =>
          rw [hanswer] at h
          cases h
      | ok z =>
          rw [hanswer] at h
          have hadd : x.call S (.add stanza) = .ok { x with
              received_stanzas := x.received_stanzas ++ [stanza]
              replies := x.replies ++ [] } := rfl
          unfold answer at hanswer
          rw [Session.calls, hadd] at hanswer
          have hstore := calls_store (fun c hc s hadd =>
            add_notMem_dispatch stanza s stanza (hadd ▸ hc)) hanswer
          rw [ih h, hstore, List.append_assoc]
          rfl

end Answers

/-- The events that Expat has reported for the chunks. -/
def eventsOf (as : List Action) : List Event :=
  as.flatMap fun
    | .recv (.data _ events) => events
    | _ => []

theorem eventsOf_snoc (as : List Action) (a : Action) :
    eventsOf (as ++ [a]) = eventsOf as ++ eventsOf [a] := List.flatMap_append

/-- The bytes received play no part in what the events do. -/
theorem deliver_on {S : Setting} (x : Session) (stream : List UInt8) (es : List Event) :
    deliver (Session.event S) (Session.on x x.parser stream) es =
      (deliver (Session.event S) x es).map fun y => Session.on y y.parser stream := by
  induction es generalizing x with
  | nil => rfl
  | cons e es ih =>
      have hevent : Session.event S (Session.on x x.parser stream) e =
          (x.event S e).map fun y => Session.on y y.parser stream := by
        have hparser : (Session.on x x.parser stream).parser = x.parser := rfl
        unfold Session.event
        rw [hparser]
        cases x.parser.handle e with
        | error fault => rfl
        | ok q =>
            have hcalls := calls_on (S := S) { x with parser := { q with arrivals := [] } }
              { q with arrivals := [] } stream (arrivalCalls q.arrivals)
            change Session.calls S (Session.on _ _ stream) (arrivalCalls q.arrivals) =
              Except.map _ (Session.calls S _ (arrivalCalls q.arrivals))
            refine hcalls.trans ?_
            cases hy : Session.calls S { x with parser := { q with arrivals := [] } }
              (arrivalCalls q.arrivals) with
            | error fault => rfl
            | ok y =>
                have hframe := (calls_frame _ hy).1
                change Except.ok (Session.on y _ stream) = Except.ok (Session.on y y.parser stream)
                rw [hframe]
      rw [deliver, deliver, hevent]
      cases x.event S e with
      | error fault => rfl
      | ok y => exact ih y

/-- The events have been handled: the bytes aside, and the answer to the end of the stream. -/
def Handled (S : Setting) (x₀ : Session) (es : List Event) : Except Fault Session → Prop
  | .error fault => deliver (Session.event S) x₀ es = .error fault
  | .ok x => ∃ y closing, deliver (Session.event S) x₀ es = .ok y ∧
      x = { y with stream := x.stream, replies := y.replies ++ closing, ended := x.ended } ∧
      y.ended = false ∧ (closing = [] ∨ closing = [STREAM_END] ∧ x.ended = true)

theorem event_ended {S : Setting} {x y : Session} {e : Event} (h : x.event S e = .ok y) :
    y.ended = x.ended := by
  unfold Session.event at h
  split at h
  · cases h
  · exact (calls_frame _ h).2.2

theorem deliver_ended {S : Setting} {x y : Session} {es : List Event}
    (h : deliver (Session.event S) x es = .ok y) : y.ended = x.ended := by
  induction es generalizing x with
  | nil =>
      cases h
      rfl
  | cons e es ih =>
      cases he : x.event S e with
      | error fault =>
          rw [deliver, he] at h
          cases h
      | ok z =>
          rw [deliver_cons z es he] at h
          rw [ih h, event_ended he]

/-- A chunk is handled by a session that has not ended. -/
theorem handled_chunk {S : Setting} {x₀ x : Session} {es events : List Event}
    {bytes : List UInt8} (h : Handled S x₀ es (.ok x)) (hended : x.ended = false) :
    Handled S x₀ (es ++ events) (x.act S (.chunk bytes events)) := by
  obtain ⟨y, closing, hy, hx, hyended, hclosing⟩ := h
  have hnone : closing = [] := by
    rcases hclosing with hnil | ⟨-, hend⟩
    · exact hnil
    · rw [hended] at hend
      cases hend
  obtain ⟨stream, rfl⟩ : ∃ stream, x = Session.on y y.parser stream := by
    refine ⟨x.stream, hx.trans ?_⟩
    rw [hnone, List.append_nil, hended, ← hyended]
    rfl
  have hdeliver : deliver (Session.event S) x₀ (es ++ events) =
      deliver (Session.event S) y events := by
    rw [deliver_append, hy]
    rfl
  change Handled S x₀ (es ++ events) ((deliver (Session.event S) (Session.on y y.parser stream)
    events).map fun x => x.endChunk bytes)
  rw [deliver_on]
  cases hz : deliver (Session.event S) y events with
  | error fault => exact hdeliver.trans hz
  | ok z =>
      have hzended : z.ended = false := (deliver_ended hz).trans hyended
      change Handled S x₀ (es ++ events) (.ok ((Session.on z z.parser stream).endChunk bytes))
      unfold Session.endChunk
      dsimp only
      split_ifs
      · exact ⟨z, [STREAM_END], hdeliver.trans hz, rfl, hzended, Or.inr ⟨rfl, rfl⟩⟩
      · refine ⟨z, [], hdeliver.trans hz, ?_, hzended, Or.inl rfl⟩
        rw [List.append_nil]
        rfl

theorem receiving_of_data {S : Setting} {s t : State} {bytes : List UInt8} {events : List Event}
    (h : step S s (.recv (.data bytes events)) = some t) : s.pc = .receiving := by
  have hcrash := running_of_step h
  unfold step at h
  rw [if_neg hcrash] at h
  change s.recv _ = some t at h
  unfold State.recv at h
  split at h
  next hpc => exact hpc
  next => cases h

/-- As long as nothing changes the tables or the store, a session is what its events
make of it. -/
theorem session_events {S : Setting} {s t : State} {as : List Action} (hs : Started s)
    (h : run (step S) s as = some t) (hquiet : ∀ a ∈ as, changes a = false) :
    Handled S (start s) (eventsOf as) (session S (start s) as) := by
  have hruns : Runs (step S) Apart s as t := runs_of_run h fun a ha u _ => hquiet a ha
  clear h
  induction hruns with
  | nil => exact ⟨start s, [], rfl, by rw [List.append_nil], rfl, Or.inl rfl⟩
  | @snoc as u v a hprefix hok hstep ih =>
      have hinit := ih fun b hb => hquiet b (List.mem_append_left _ hb)
      have hlast := hquiet a (List.mem_append_right _ List.mem_cons_self)
      rw [session_append, eventsOf_snoc]
      cases hinput : input a with
      | none =>
          have hnone : eventsOf [a] = [] := by
            unfold eventsOf
            rw [List.flatMap_singleton]
            split
            · cases hinput
            · rfl
          rw [advance_none hinput, hnone, List.append_nil]
          exact hinit
      | some i =>
          obtain ⟨bytes, events, rfl⟩ : ∃ bytes events, a = .recv (.data bytes events) := by
            unfold input at hinput
            split at hinput
            · exact ⟨_, _, rfl⟩
            · rw [hlast, if_neg Bool.false_ne_true] at hinput
              cases hinput
          have hpc := receiving_of_data hstep
          obtain ⟨x, hx, hserves⟩ :=
            (follows_of_runs hs hprefix).of_serving (by simp [hpc, IsServing, isHandling])
          have hended := hserves.not_ended (by simp [hpc]) (by simp [hpc])
          rw [hx] at hinit ⊢
          rw [advance_some (i := .chunk bytes events) rfl x]
          have hone : eventsOf [.recv (.data bytes events)] = events := List.append_nil events
          rw [hone]
          exact handled_chunk hinit hended

/-- The session that a part of a stream makes. -/
theorem stream_session {S : Setting} {s t : State} {as : List Action} (hs : Started s)
    (h : run (step S) s as = some t) (hquiet : ∀ a ∈ as, changes a = false)
    {attributes : List (Str × Str)} {ks : List Node} {us : List Token}
    (hnames : ForestNamed (fun n => ¬ TreeParser.isStreamName n) ks)
    (hu : us <+: forestTokens ks ++ [.stop "stream:stream".toList])
    (hreports : Reports (eventsOf as) (.start "stream:stream".toList attributes :: us)) :
    (∀ x, session S (start s) as = .ok x → ∃ y closing,
      answers S (greeted (start s)) (stanzasOf (closedWithin ks us.length)) = .ok y ∧
      x.replies = y.replies ++ closing ∧
      x.received_stanzas = s.received_stanzas ++ stanzasOf (closedWithin ks us.length) ∧
      (closing = [] ∨ closing = [STREAM_END] ∧ x.ended = true)) ∧
    (∀ fault, session S (start s) as = .error fault → ∃ fault',
      answers S (greeted (start s)) (stanzasOf (closedWithin ks us.length)) = .error fault') := by
  have hhandled := session_events hs h hquiet
  obtain ⟨p, hp, harrivals⟩ :=
    TreeParser.deliver_stream (start s).parser rfl attributes ks hnames hu
  have htokens : deliver TreeParser.handle (start s).parser (eventsOf as) = .ok p := by
    rw [deliver_reports TreeParser.handle_cut _ hreports]
    exact hp
  have hdeliver := deliver_event (S := S) (x := start s) rfl htokens
  have hstart : (start s).parser.arrivals = [] := rfl
  rw [harrivals, hstart, List.nil_append, calls_stream] at hdeliver
  constructor
  · intro x hx
    rw [hx] at hhandled
    obtain ⟨z, closing, hz, hsame, -, hclosing⟩ := hhandled
    rw [hz] at hdeliver
    cases hanswers : answers S (greeted (start s)) (stanzasOf (closedWithin ks us.length)) with
    | error fault =>
        rw [hanswers] at hdeliver
        cases hdeliver
    | ok y =>
        rw [hanswers] at hdeliver
        cases hdeliver
        refine ⟨y, closing, rfl, ?_, ?_, hclosing⟩
        · rw [hsame]
          rfl
        · rw [hsame]
          exact answers_store hanswers
  · intro fault hfault
    rw [hfault] at hhandled
    change deliver (Session.event S) (start s) (eventsOf as) = .error fault at hhandled
    rw [hhandled] at hdeliver
    cases hanswers : answers S (greeted (start s)) (stanzasOf (closedWithin ks us.length)) with
    | error fault' => exact ⟨fault', rfl⟩
    | ok y =>
        rw [hanswers] at hdeliver
        cases hdeliver

/-- The replies to the part of a stream that has been received. -/
theorem replies_of_stream {S : Setting} {s t : State} {as : List Action} (hs : Started s)
    (h : run (step S) s as = some t) (hquiet : ∀ a ∈ as, changes a = false)
    {attributes : List (Str × Str)} {ks : List Node} {us : List Token}
    (hnames : ForestNamed (fun n => ¬ TreeParser.isStreamName n) ks)
    (hu : us <+: forestTokens ks ++ [.stop "stream:stream".toList])
    (hreports : Reports (eventsOf as) (.start "stream:stream".toList attributes :: us)) :
    (isHandling t.pc = false → t.pc ≠ .crashed → ∃ y closing,
      answers S (greeted (start s)) (stanzasOf (closedWithin ks us.length)) = .ok y ∧
      replied t = (y.replies ++ closing).map utf8 ∧
      (closing = [] ∨ closing = [STREAM_END] ∧ (t.pc = .ending ∨ t.kill_recv = true)) ∧
      (t.stopped = false → t.received_stanzas =
        s.received_stanzas ++ stanzasOf (closedWithin ks us.length))) ∧
    (t.pc = .crashed → ∃ fault,
      answers S (greeted (start s)) (stanzasOf (closedWithin ks us.length)) = .error fault) := by
  obtain ⟨hanswered, hfaulty⟩ := stream_session hs h hquiet hnames hu hreports
  have hfollows := follows_of_runs hs (runs_of_run h fun a ha u _ => hquiet a ha)
  constructor
  · intro hpc hcrash
    obtain ⟨x, hx, hreplies, hended, hstate⟩ := hfollows.level hpc hcrash
    obtain ⟨y, closing, hy, hsame, hstore, hclosing⟩ := hanswered x hx
    refine ⟨y, closing, hy, ?_, ?_, ?_⟩
    · rw [hreplies, hsame]
    · exact hclosing.imp_right fun h => ⟨h.1, hended h.2⟩
    · intro hstopped
      rw [(hstate hstopped).2, hstore]
  · intro hcrash
    obtain ⟨fault, hfault⟩ := hfollows.faulty hcrash
    exact hfaulty fault hfault

/-! ## Two ways to cut a stream -/

/-- The thread is between two chunks, or the client has gone. -/
structure Resting (s : State) : Prop where
  handling : isHandling s.pc = false
  crashed : s.pc ≠ .crashed
  ending : s.pc ≠ .ending
  kill_recv : s.kill_recv = false
  stopped : s.stopped = false

theorem answers_on {S : Setting} (x : Session) (parser : TreeParser) (stream : List UInt8)
    (stanzas : List XMPPStanza) : answers S (Session.on x parser stream) stanzas =
      (answers S x stanzas).map fun y => Session.on y parser stream := by
  rw [← calls_stanzas, ← calls_stanzas]
  exact calls_on x parser stream _

/-- What a server at rest has replied, and what it has stored. -/
theorem resting_answers {S : Setting} {s t : State} {as : List Action} (hs : Started s)
    (h : run (step S) s as = some t) (hquiet : ∀ a ∈ as, changes a = false)
    {attributes : List (Str × Str)} {ks : List Node} {us : List Token}
    (hnames : ForestNamed (fun n => ¬ TreeParser.isStreamName n) ks)
    (hu : us <+: forestTokens ks ++ [.stop "stream:stream".toList])
    (hreports : Reports (eventsOf as) (.start "stream:stream".toList attributes :: us))
    (ht : Resting t) : ∃ y,
      answers S (greeted (start s)) (stanzasOf (closedWithin ks us.length)) = .ok y ∧
      replied t = y.replies.map utf8 ∧
      t.received_stanzas = s.received_stanzas ++ stanzasOf (closedWithin ks us.length) := by
  have hfollows := follows_of_runs hs (runs_of_run h fun a ha u _ => hquiet a ha)
  obtain ⟨x, hx, hreplies, hended, hstate⟩ := hfollows.level ht.handling ht.crashed
  obtain ⟨y, closing, hy, hsame, hstore, hclosing⟩ :=
    (stream_session hs h hquiet hnames hu hreports).1 x hx
  have hnone : closing = [] := by
    rcases hclosing with hnil | ⟨-, hx⟩
    · exact hnil
    · rcases hended hx with hending | hkill
      · exact (ht.ending hending).elim
      · rw [ht.kill_recv] at hkill
        cases hkill
  refine ⟨y, hy, ?_, ?_⟩
  · rw [hreplies, hsame, hnone, List.append_nil]
  · rw [(hstate ht.stopped).2, hstore]

/-- Two servers that are primed alike give the same replies to the same part of a stream
without an inner `stream:stream`, however it is cut into chunks and into events and whatever
else is sent meanwhile, as long as nothing is primed or cleared. -/
theorem replies_agree {S : Setting} {s s' t t' : State} {as as' : List Action}
    (hs : Started s) (hs' : Started s') (h : run (step S) s as = some t)
    (h' : run (step S) s' as' = some t') (hquiet : ∀ a ∈ as, changes a = false)
    (hquiet' : ∀ a ∈ as', changes a = false) (hprimed : s'.primed = s.primed)
    (hstore : s'.received_stanzas = s.received_stanzas)
    {attributes : List (Str × Str)} {ks : List Node} {us : List Token}
    (hnames : ForestNamed (fun n => ¬ TreeParser.isStreamName n) ks)
    (hu : us <+: forestTokens ks ++ [.stop "stream:stream".toList])
    (hreports : Reports (eventsOf as) (.start "stream:stream".toList attributes :: us))
    (hreports' : Reports (eventsOf as') (.start "stream:stream".toList attributes :: us))
    (ht : Resting t) (ht' : Resting t') :
    replied t = replied t' ∧ t.received_stanzas = t'.received_stanzas := by
  obtain ⟨y, hy, hreplies, hstanzas⟩ := resting_answers hs h hquiet hnames hu hreports ht
  obtain ⟨y', hy', hreplies', hstanzas'⟩ :=
    resting_answers hs' h' hquiet' hnames hu hreports' ht'
  have hstart : greeted (start s') =
      Session.on (greeted (start s)) (start s').parser (greeted (start s)).stream := by
    unfold greeted start Session.on
    rw [hprimed, hstore]
  rw [hstart, answers_on, hy] at hy'
  cases hy'
  rw [hreplies, hreplies', hstanzas, hstanzas', hstore]
  exact ⟨rfl, rfl⟩

/-- A server with a stub for one id. -/
def stubbed : State :=
  { State.idle with
    primed := Priming.primeForId "q1".toList "<a/>".toList State.idle.primed }

theorem started_stubbed : Started stubbed := ⟨rfl, rfl, rfl, rfl, rfl, rfl, rfl, rfl, rfl, rfl, rfl⟩

def request : Node :=
  .elem "iq".toList [("id".toList, "q1".toList)] ("hi".toList.map .char)

def opening : Event := .start "stream:stream".toList []

def requestStart : Event := .start "iq".toList [("id".toList, "q1".toList)]

/-- The header and its answer. -/
def headerAnswered : List Action :=
  [.thread, .thread] ++ written XML_START ++ written STREAM_RESP ++ written FEATURES

/-- The stanza is stored and answered. -/
def stanzaAnswered : List Action :=
  [.thread, .thread, .thread] ++ written "<a id=\"q1\"/>".toList ++ [.thread]

def inOneChunk : List Action :=
  [.accept .connected, .thread, .thread,
    .recv (.data (utf8 "<stream:stream><iq id='q1'>hi</iq>".toList)
      [opening, requestStart, .data "hi".toList, .stop "iq".toList])] ++
  headerAnswered ++ [.thread, .thread] ++ stanzaAnswered

/-- The text is cut between the chunks, and something is sent between them. -/
def inTwoChunks : List Action :=
  [.accept .connected, .thread, .thread,
    .recv (.data (utf8 "<stream:stream><iq id='q1'>h".toList)
      [opening, requestStart, .data "h".toList])] ++
  headerAnswered ++ [.thread, .thread, .thread, .send (utf8 "<b/>".toList), .thread] ++
  written "<b/>".toList ++
  [.thread, .recv (.data (utf8 "i</iq>".toList) [.data "i".toList, .stop "iq".toList]), .thread] ++
  stanzaAnswered

def resting (s : State) : Bool :=
  !isHandling s.pc && !s.pc.isCrashed && !s.kill_recv && !s.stopped &&
    match s.pc with
    | .ending => false
    | _ => true

theorem resting_of_test {s : State} (h : resting s = true) : Resting s := by
  unfold resting at h
  simp only [Bool.and_eq_true, Bool.not_eq_true'] at h
  obtain ⟨⟨⟨⟨hhandling, hcrashed⟩, hkill⟩, hstopped⟩, hending⟩ := h
  refine ⟨hhandling, ?_, ?_, hkill, hstopped⟩
  · intro hpc
    rw [hpc] at hcrashed
    cases hcrashed
  · intro hpc
    rw [hpc] at hending
    cases hending

theorem run_inOneChunk : ∃ t, run (step .plain) stubbed inOneChunk = some t ∧ Resting t := by
  have hrun : (run (step .plain) stubbed inOneChunk).any resting = true := by decide +kernel
  obtain ⟨t, ht, hresting⟩ := (Option.any_eq_true _ _).mp hrun
  exact ⟨t, ht, resting_of_test hresting⟩

theorem run_inTwoChunks : ∃ t, run (step .plain) stubbed inTwoChunks = some t ∧ Resting t := by
  have hrun : (run (step .plain) stubbed inTwoChunks).any resting = true := by decide +kernel
  obtain ⟨t, ht, hresting⟩ := (Option.any_eq_true _ _).mp hrun
  exact ⟨t, ht, resting_of_test hresting⟩

theorem names_request : ForestNamed (fun n => ¬ TreeParser.isStreamName n) [request] := by
  refine ⟨⟨by decide, ?_⟩, trivial⟩
  exact ⟨trivial, trivial, trivial⟩

theorem reports_inOneChunk : Reports (eventsOf inOneChunk)
    (.start "stream:stream".toList [] :: forestTokens [request]) :=
  ⟨by decide, by decide⟩

theorem reports_inTwoChunks : Reports (eventsOf inTwoChunks)
    (.start "stream:stream".toList [] :: forestTokens [request]) :=
  ⟨by decide, by decide⟩

theorem quiet_inOneChunk : ∀ a ∈ inOneChunk, changes a = false := by decide

theorem quiet_inTwoChunks : ∀ a ∈ inTwoChunks, changes a = false := by decide

theorem replies_inOneChunk : ∃ t y closing, run (step .plain) stubbed inOneChunk = some t ∧
    answers .plain (greeted (start stubbed)) (stanzasOf [request]) = .ok y ∧
    replied t = (y.replies ++ closing).map utf8 := by
  obtain ⟨t, ht, hresting⟩ := run_inOneChunk
  obtain ⟨y, closing, hy, hreplies, -⟩ := (replies_of_stream started_stubbed ht quiet_inOneChunk
    names_request (List.prefix_append _ _) reports_inOneChunk).1 hresting.handling hresting.crashed
  exact ⟨t, y, closing, ht, hy, hreplies⟩

theorem replies_agree_inTwoChunks : ∃ t t', run (step .plain) stubbed inOneChunk = some t ∧
    run (step .plain) stubbed inTwoChunks = some t' ∧ replied t = replied t' := by
  obtain ⟨t, ht, hresting⟩ := run_inOneChunk
  obtain ⟨t', ht', hresting'⟩ := run_inTwoChunks
  refine ⟨t, t', ht, ht', ?_⟩
  exact (replies_agree started_stubbed started_stubbed ht ht' quiet_inOneChunk quiet_inTwoChunks
    rfl rfl names_request (List.prefix_append _ _) reports_inOneChunk reports_inTwoChunks hresting
    hresting').1

end Stabber.Answers
