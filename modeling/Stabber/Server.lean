import Stabber.ReadStream
import Stabber.StanzaHistory
import Stabber.StreamTree
import Stabber.Transition
import Stabber.WriteStream

/-!
# The server from start to stop

The server thread from its first `accept` on, and beside it the calls of the API
and the requests of the HTTP thread, in any order. A stop is modelled up to where it
waits for the thread. One step is a section under a
lock, one call of `accept`, `recv` or `write`, one event of the parser, or one
callback up to its writes. What Expat reports for a chunk is part of the step that
receives it.
-/

namespace Stabber.Server
open XmlDocument Stanza StanzaParse Stanzas StanzaHistory StreamParser StreamTree Priming
open Callbacks Utf8 ReadStream Transition WriteStream

structure Setting where
  expat : Expat
  order : KeyOrder
  env : Env

/-- Where a message that is written comes from. -/
inductive Origin where
  | reply
  | queued
deriving Repr, DecidableEq

abbrev Message := Origin × List UInt8

def tagged (m : Message) : List (Origin × UInt8) := m.2.map (m.1, ·)

/-- Where the thread is: in the loop around `accept`, at the head of the loop of
`read_stream` or further on in it, or at its end. -/
inductive Pc where
  | accepting
  | top
  /-- Under `send_queue_lock`, with this part of the queue still to be written. -/
  | draining (rest : List (List UInt8))
  | receiving
  /-- A chunk has been received: its events still to be handled, the calls of the
  last event still to be made, and the messages of the last call to be written. -/
  | feeding (chunk : List UInt8) (events : List Event) (calls : List (Call XMPPStanza))
      (replies : List Str)
  | ending
  | finished
  /-- The process has ended with a fault. -/
  | crashed
deriving Repr

def Pc.holdsLock : Pc → Bool
  | .draining _ => true
  | _ => false

def Pc.isCrashed : Pc → Bool
  | .crashed => true
  | _ => false

/-- The statics of the server, and the variables of its thread. From `wire` on there are
histories: the bytes that the socket has taken, the messages given to `write_stream`, those
given to `server_send` in the order of the lock, the stanzas added to the store, and whether
the stream header has been answered, a `write` has failed for good, and the server has been
shut down or has ended with a fault. -/
structure State where
  pc : Pc
  /-- The call of `write_stream` in which the server thread is. -/
  writing : Option (Origin × Writing)
  send_queue : List (List UInt8)
  client : Option XMPPClient
  kill_recv : Bool
  httpapi_run : Bool
  verify_timeout : ℤ
  parser : TreeParser
  received_stanzas : List XMPPStanza
  primed : Primed
  /-- All bytes received on the connection. -/
  stream : List UInt8
  wire : List (Origin × UInt8)
  entered : List Message
  accepted : List (List UInt8)
  arrived : List XMPPStanza
  greeted : Bool
  failed : Bool
  stopped : Bool
deriving Repr

inductive AcceptResult where
  | connected
  | again
  | failed
deriving Repr, DecidableEq

inductive RecvResult where
  | closed
  | again
  | failed
  /-- The bytes, and what Expat reports for them. -/
  | data (chunk : List UInt8) (events : List Event)
deriving Repr, DecidableEq

inductive Action where
  | send (stream : List UInt8)
  | requiredPasswd (password : Str)
  | forId (id stream : Str)
  | forQuery (query stream : Str)
  | forXmlns (xmlns stream : Str)
  | setTimeout (seconds : ℤ)
  /-- One look at the store: by `stbbr_received`, or with `clear` by a `/verify` request. -/
  | verifyAny (template : XMPPStanza) (clear : Bool)
  | verifyLast (template : XMPPStanza)
  | containsId (id_filter : Str)
  | stop
  | accept (result : AcceptResult)
  | recv (result : RecvResult)
  | write (result : WriteResult)
  | thread
deriving Repr

def Action.chunk : Action → Option (List UInt8)
  | .recv (.data chunk _) => some chunk
  | _ => none

namespace State
variable (S : Setting) (s : State)

def crash : State := { s with pc := .crashed, stopped := true }

def shutdown : State :=
  { s with
    pc := .finished
    httpapi_run := false
    client := none
    primed := primeFreeAll s.primed
    received_stanzas := []
    send_queue := []
    stopped := true }

def begin (origin : Origin) (stream : List UInt8) : State :=
  { s with
    writing := some (origin, writeStream stream)
    entered := s.entered ++ [(origin, stream)] }

def primeWith : Except Fault Primed → State
  | .ok primed => { s with primed := primed }
  | .error _ => s.crash

def record : Call XMPPStanza → State
  | .add stanza =>
      { s with
        received_stanzas := storeAfter s.received_stanzas (.add stanza)
        arrived := s.arrived ++ [stanza] }
  | .streamStart => { s with greeted := true }
  | _ => s

theorem record_eq (c : Call XMPPStanza) : ∃ stanzas arrived greeted, s.record c =
    { s with received_stanzas := stanzas, arrived := arrived, greeted := greeted } := by
  cases c <;> exact ⟨_, _, _, rfl⟩

@[simp] theorem record_kill_recv (c : Call XMPPStanza) : (s.record c).kill_recv = s.kill_recv := by
  obtain ⟨_, _, _, hrecord⟩ := s.record_eq c
  rw [hrecord]

def context (client : XMPPClient) : Context :=
  ⟨S.expat, S.order, S.env, s.primed, client, s.received_stanzas⟩

def call (chunk : List UInt8) (events : List Event) (calls : List (Call XMPPStanza))
    (c : Call XMPPStanza) : State :=
  match s.client with
  | none => s.crash
  | some client =>
      match callback (s.context S client) c with
      | .error _ => s.crash
      | .ok (client, messages) =>
          { s.record c with client := some client, pc := .feeding chunk events calls messages }

def event (chunk : List UInt8) (events : List Event) (e : Event) : State :=
  match { s.parser with arrivals := [] }.handle e with
  | .error _ => s.crash
  | .ok parser =>
      { s with
        parser := parser
        pc := .feeding chunk events
          (parser.arrivals.flatMap (Arrival.calls (fun t => t) fun t => t)) [] }

def endChunk (chunk : List UInt8) : State :=
  let s := { s with stream := s.stream ++ chunk, pc := .top }
  if gStrHasSuffix s.stream STREAM_END then { s.begin .reply (utf8 STREAM_END) with pc := .ending }
  else s

def thread : Option State :=
  match s.writing with
  | some (_, w) => if w.to_send ≤ 0 then some { s with writing := none } else none
  | none =>
      match s.pc with
      | .top =>
          if s.kill_recv then some s.shutdown else some { s with pc := .draining s.send_queue }
      | .draining (stream :: rest) => some { s.begin .queued stream with pc := .draining rest }
      | .draining [] => some { s with send_queue := [], pc := .receiving }
      | .feeding chunk events calls (m :: replies) =>
          some { s.begin .reply (utf8 m) with pc := .feeding chunk events calls replies }
      | .feeding chunk events (c :: calls) [] => some (s.call S chunk events calls c)
      | .feeding chunk (e :: events) [] [] => some (s.event chunk events e)
      | .feeding chunk [] [] [] => some (s.endChunk chunk)
      | .ending => some { s with kill_recv := true, pc := .top }
      | _ => none

def accept (result : AcceptResult) : Option State :=
  match s.pc with
  | .accepting =>
      if s.kill_recv then some { s with pc := .finished }
      else match result with
        | .connected =>
            some { s with
              pc := .top
              client := some xmppclientNew
              parser := s.parser.init
              stream := [] }
        | .again => some s
        | .failed => some { s with pc := .finished }
  | _ => none

/-- The buffer has 4096 bytes, the last for a zero byte. -/
def recv (result : RecvResult) : Option State :=
  match s.pc with
  | .receiving =>
      match result with
      | .closed => some { s with pc := .finished }
      | .again => some { s with pc := .top }
      | .failed => some { s with pc := .finished }
      | .data chunk events =>
          if 1 ≤ chunk.length ∧ chunk.length ≤ 4095 then
            some { s with pc := .feeding chunk events [] [] }
          else none
  | _ => none

def write (result : WriteResult) : Option State :=
  match s.writing with
  | none => none
  | some (origin, w) =>
      (w.write result).map fun p =>
        { s with
          wire := s.wire ++ p.1.map (origin, ·)
          writing := p.2.map (origin, ·)
          failed := s.failed || result = .failed }

end State

open State

def step (S : Setting) (s : State) (a : Action) : Option State :=
  if s.pc.isCrashed then none
  else match a with
    | .send stream =>
        if s.pc.holdsLock then none
        else some { s with
          send_queue := s.send_queue ++ [stream]
          accepted := s.accepted ++ [stream] }
    | .requiredPasswd password => some { s with primed := primeRequiredPasswd password s.primed }
    | .forId id stream => some { s with primed := primeForId id stream s.primed }
    | .forQuery query stream => some (s.primeWith (primeForQuery S.expat query stream s.primed))
    | .forXmlns xmlns stream => some (s.primeWith (primeForXmlns S.expat xmlns stream s.primed))
    | .setTimeout seconds => some { s with verify_timeout := seconds }
    | .verifyAny template clear =>
        some { s with
          received_stanzas := storeAfter s.received_stanzas (.verifyAny template clear) }
    | .verifyLast _ => some s
    | .containsId _ => some s
    | .stop => some { s with kill_recv := true }
    | .accept result => s.accept result
    | .recv result => s.recv result
    | .write result => s.write result
    | .thread => s.thread S

/-- After a fault there are no more steps. -/
theorem running_of_step {S : Setting} {s t : State} {a : Action} (h : step S s a = some t) :
    ¬ s.pc.isCrashed = true := by
  intro hcrash
  unfold step at h
  rw [if_pos hcrash] at h
  cases h

theorem step_returned {S : Setting} {s : State} {origin : Origin} {w : Writing}
    (hpc : s.pc.isCrashed = false) (hw : s.writing = some (origin, w)) (hsend : w.to_send ≤ 0) :
    step S s .thread = some { s with writing := none } := by
  unfold step
  rw [hpc, if_neg Bool.false_ne_true]
  dsimp only
  unfold thread
  rw [hw]
  exact if_pos hsend

/-- The state after `server_run`, whatever was before it. -/
structure Started (s : State) : Prop where
  pc : s.pc = .accepting
  writing : s.writing = none
  send_queue : s.send_queue = []
  kill_recv : s.kill_recv = false
  wire : s.wire = []
  entered : s.entered = []
  accepted : s.accepted = []
  arrived : s.arrived = []
  greeted : s.greeted = false
  failed : s.failed = false
  stopped : s.stopped = false

/-- Expat reporting every character on its own, and no variable set. -/
def Setting.plain : Setting := ⟨Expat.reference, KeyOrder.insertion, ⟨false, false, false⟩⟩

/-- The state after the first start of a process. -/
def State.idle : State where
  pc := .accepting
  writing := none
  send_queue := []
  client := none
  kill_recv := false
  httpapi_run := false
  verify_timeout := 10
  parser := ⟨0, none, []⟩
  received_stanzas := []
  primed := primeInit ⟨none, none, none, none⟩
  stream := []
  wire := []
  entered := []
  accepted := []
  arrived := []
  greeted := false
  failed := false
  stopped := false

/-- The client connects, and one chunk brings this text. -/
def connect (text : Str) : List Action :=
  [.accept .connected, .thread, .thread, .recv (.data (utf8 text) (Expat.reference.report text))]

/-- The thread writes a message in one piece. -/
def written (m : Str) : List Action := [.thread, .write (.sent (utf8 m).length), .thread]

theorem started_idle : Started State.idle := ⟨rfl, rfl, rfl, rfl, rfl, rfl, rfl, rfl, rfl, rfl, rfl⟩

end Stabber.Server
