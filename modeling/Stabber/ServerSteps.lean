import Stabber.Server

/-!
# What one step of the server can do

Every step is one of these. The steps that touch neither the connection nor the
store nor the queue are taken together, and so are the faults.
-/

namespace Stabber.Server
open XmlDocument Stanza StanzaHistory StreamParser StreamTree Priming
open Callbacks Utf8 ReadStream WriteStream State

inductive Step (S : Setting) (s : State) : Action → State → Prop where
  | quiet (a : Action) (primed : Primed) (timeout : ℤ) (hchunk : a.chunk = none) :
      Step S s a { s with primed := primed, verify_timeout := timeout }
  | crash (a : Action) : Step S s a s.crash
  | send (stream : List UInt8) (hlock : s.pc.holdsLock = false) :
      Step S s (.send stream) { s with
        send_queue := s.send_queue ++ [stream]
        accepted := s.accepted ++ [stream] }
  | verifyAny (template : XMPPStanza) (clear : Bool) :
      Step S s (.verifyAny template clear) { s with
        received_stanzas := storeAfter s.received_stanzas (.verifyAny template clear) }
  | stop : Step S s .stop { s with kill_recv := true }
  | leave (a : Action) (hpc : s.pc = .accepting ∨ s.pc = .receiving) (hchunk : a.chunk = none) :
      Step S s a { s with pc := .finished }
  | connected (hpc : s.pc = .accepting) :
      Step S s (.accept .connected) { s with
        pc := .top
        client := some xmppclientNew
        parser := s.parser.init
        stream := [] }
  | again (hpc : s.pc = .receiving) : Step S s (.recv .again) { s with pc := .top }
  | data (chunk : List UInt8) (events : List Event) (hpc : s.pc = .receiving) :
      Step S s (.recv (.data chunk events)) { s with pc := .feeding chunk events [] [] }
  | write {result : WriteResult} {origin : Origin} {w : Writing} {bs : List UInt8}
      {rest : Option Writing} (hw : s.writing = some (origin, w))
      (hwrite : w.write result = some (bs, rest)) :
      Step S s (.write result) { s with
        wire := s.wire ++ bs.map (origin, ·)
        writing := rest.map (origin, ·)
        failed := s.failed || result = .failed }
  | returned {origin : Origin} {w : Writing} (hw : s.writing = some (origin, w))
      (hsend : w.to_send ≤ 0) : Step S s .thread { s with writing := none }
  | shutdown (hw : s.writing = none) (hpc : s.pc = .top) (hkill : s.kill_recv = true) :
      Step S s .thread s.shutdown
  | lock (hw : s.writing = none) (hpc : s.pc = .top) (hkill : s.kill_recv = false) :
      Step S s .thread { s with pc := .draining s.send_queue }
  | take {stream : List UInt8} {rest : List (List UInt8)} (hw : s.writing = none)
      (hpc : s.pc = .draining (stream :: rest)) :
      Step S s .thread { s.begin .queued stream with pc := .draining rest }
  | unlock (hw : s.writing = none) (hpc : s.pc = .draining []) :
      Step S s .thread { s with send_queue := [], pc := .receiving }
  | reply {chunk : List UInt8} {events : List Event} {calls : List (Call XMPPStanza)} {m : Str}
      {replies : List Str} (hw : s.writing = none)
      (hpc : s.pc = .feeding chunk events calls (m :: replies)) :
      Step S s .thread
        { s.begin .reply (utf8 m) with pc := .feeding chunk events calls replies }
  | call {chunk : List UInt8} {events : List Event} {calls : List (Call XMPPStanza)}
      {c : Call XMPPStanza} {client client' : XMPPClient} {messages : List Str}
      (hw : s.writing = none) (hpc : s.pc = .feeding chunk events (c :: calls) [])
      (hclient : s.client = some client)
      (hcall : callback (s.context S client) c = .ok (client', messages)) :
      Step S s .thread
        { s.record c with client := some client', pc := .feeding chunk events calls messages }
  | event {chunk : List UInt8} {events : List Event} {e : Event} {parser : TreeParser}
      (hw : s.writing = none) (hpc : s.pc = .feeding chunk (e :: events) [] [])
      (hevent : TreeParser.handle { s.parser with arrivals := [] } e = .ok parser) :
      Step S s .thread { s with
        parser := parser
        pc := .feeding chunk events
          (parser.arrivals.flatMap (Arrival.calls (fun t => t) fun t => t)) [] }
  | next {chunk : List UInt8} (hw : s.writing = none) (hpc : s.pc = .feeding chunk [] [] [])
      (hend : gStrHasSuffix (s.stream ++ chunk) STREAM_END = false) :
      Step S s .thread { s with stream := s.stream ++ chunk, pc := .top }
  | streamEnd {chunk : List UInt8} (hw : s.writing = none)
      (hpc : s.pc = .feeding chunk [] [] [])
      (hend : gStrHasSuffix (s.stream ++ chunk) STREAM_END = true) :
      Step S s .thread
        { s.begin .reply (utf8 STREAM_END) with stream := s.stream ++ chunk, pc := .ending }
  | kill (hw : s.writing = none) (hpc : s.pc = .ending) :
      Step S s .thread { s with kill_recv := true, pc := .top }

/-- Where `kill_recv` is only seen at the head of the loop, it is not set elsewhere. -/
theorem alive_of_killed {s : State}
    (h : s.kill_recv = true → s.pc = .top ∨ s.pc = .finished ∨ s.pc = .crashed)
    (hpc : s.pc ≠ .top ∧ s.pc ≠ .finished ∧ s.pc ≠ .crashed) : s.kill_recv = false := by
  cases hkill : s.kill_recv with
  | false => rfl
  | true =>
      rcases h hkill with hend | hend | hend
      · exact (hpc.1 hend).elim
      · exact (hpc.2.1 hend).elim
      · exact (hpc.2.2 hend).elim

section Cases
variable {S : Setting} {s t : State}

theorem step_thread (h : s.thread S = some t) : Step S s .thread t := by
  unfold thread at h
  split at h
  next origin w hw =>
    split_ifs at h with hsend
    cases h
    exact .returned hw hsend
  next hw =>
    split at h
    next hpc =>
      split_ifs at h with hkill
      · cases h
        exact .shutdown hw hpc hkill
      · cases h
        exact .lock hw hpc (by simpa using hkill)
    next stream rest hpc =>
      cases h
      exact .take hw hpc
    next hpc =>
      cases h
      exact .unlock hw hpc
    next chunk events calls m replies hpc =>
      cases h
      exact .reply hw hpc
    next chunk events c calls hpc =>
      cases h
      unfold State.call
      split
      next => exact .crash _
      next client hclient =>
        split
        next => exact .crash _
        next client' messages hcall => exact .call hw hpc hclient hcall
    next chunk e events hpc =>
      cases h
      unfold State.event
      split
      next => exact .crash _
      next parser hevent => exact .event hw hpc hevent
    next chunk hpc =>
      cases h
      unfold endChunk
      dsimp only
      split_ifs with hend
      · exact .streamEnd hw hpc hend
      · exact .next hw hpc (by simpa using hend)
    next hpc =>
      cases h
      exact .kill hw hpc
    next => cases h

theorem step_accept {result : AcceptResult} (h : s.accept result = some t) :
    Step S s (.accept result) t := by
  unfold accept at h
  split at h
  next hpc =>
    split_ifs at h
    · cases h
      exact .leave _ (Or.inl hpc) rfl
    · cases result with
      | connected =>
          cases h
          exact .connected hpc
      | again =>
          cases h
          exact .quiet _ _ _ rfl
      | failed =>
          cases h
          exact .leave _ (Or.inl hpc) rfl
  next => cases h

theorem step_recv {result : RecvResult} (h : s.recv result = some t) :
    Step S s (.recv result) t := by
  unfold recv at h
  split at h
  next hpc =>
    cases result with
    | closed =>
        cases h
        exact .leave _ (Or.inr hpc) rfl
    | again =>
        cases h
        exact .again hpc
    | failed =>
        cases h
        exact .leave _ (Or.inr hpc) rfl
    | data chunk events =>
        dsimp only at h
        split_ifs at h
        cases h
        exact .data chunk events hpc
  next => cases h

theorem step_write {result : WriteResult} (h : s.write result = some t) :
    Step S s (.write result) t := by
  unfold State.write at h
  split at h
  next => cases h
  next origin w hw =>
    obtain ⟨p, hwrite, rfl⟩ := Option.map_eq_some_iff.mp h
    exact .write hw hwrite

theorem step_primeWith {a : Action} (hchunk : a.chunk = none) (primed : Except Fault Primed) :
    Step S s a (s.primeWith primed) := by
  cases primed with
  | error f => exact .crash a
  | ok p => exact .quiet a p _ hchunk

theorem step_cases {a : Action} (h : step S s a = some t) : Step S s a t := by
  have hcrash := running_of_step h
  unfold step at h
  rw [if_neg hcrash] at h
  cases a with
  | send stream =>
      dsimp only at h
      split_ifs at h with hlock
      cases h
      exact .send stream (by simpa using hlock)
  | requiredPasswd password =>
      cases h
      exact .quiet _ _ _ rfl
  | forId id stream =>
      cases h
      exact .quiet _ _ _ rfl
  | forQuery query stream =>
      cases h
      exact step_primeWith rfl _
  | forXmlns xmlns stream =>
      cases h
      exact step_primeWith rfl _
  | setTimeout seconds =>
      cases h
      exact .quiet _ _ _ rfl
  | verifyAny template clear =>
      cases h
      exact .verifyAny template clear
  | verifyLast template =>
      cases h
      exact .quiet _ _ _ rfl
  | containsId id_filter =>
      cases h
      exact .quiet _ _ _ rfl
  | stop =>
      cases h
      exact .stop
  | accept result => exact step_accept h
  | recv result => exact step_recv h
  | write result => exact step_write h
  | thread => exact step_thread h

end Cases

end Stabber.Server
