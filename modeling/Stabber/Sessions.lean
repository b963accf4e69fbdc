import Stabber.ServerSteps

/-!
# A session handled chunk by chunk

What the server is for, as a sequential program: a chunk is taken in and all its
events are handled, with every callback and every message, before anything else is
looked at. The thread does what this program does, however its steps are interleaved
with the other threads and with the results of `write`.
-/

namespace Stabber.Sessions
open XmlDocument Stanza StanzaParse StanzaHistory StreamParser StreamTree Priming
open Callbacks Utf8 ReadStream Transition Server State

/-- The calls that change what a callback reads. -/
def changes : Action → Bool
  | .requiredPasswd _ => true
  | .forId _ _ => true
  | .forQuery _ _ => true
  | .forXmlns _ _ => true
  | .verifyAny _ clear => clear
  | _ => false

/-- What a session is told, in order. -/
inductive Input where
  | chunk (bytes : List UInt8) (events : List Event)
  | call (a : Action)

def input : Action → Option Input
  | .recv (.data bytes events) => some (.chunk bytes events)
  | a => if changes a then some (.call a) else none

structure Session where
  parser : TreeParser
  client : XMPPClient
  primed : Primed
  received_stanzas : List XMPPStanza
  stream : List UInt8
  replies : List Str
  /-- Whether the end of the stream has been answered. -/
  ended : Bool

/-- The session of the client that connects next. -/
def start (s : State) : Session :=
  ⟨{ s.parser.init with arrivals := [] }, xmppclientNew, s.primed, s.received_stanzas, [], [],
    false⟩

namespace Session
variable (S : Setting) (x : Session)

def context : Context :=
  ⟨S.expat, S.order, S.env, x.primed, x.client, x.received_stanzas⟩

/-- The store after a call. -/
def stored : Call XMPPStanza → List XMPPStanza
  | .add stanza => storeAfter x.received_stanzas (.add stanza)
  | _ => x.received_stanzas

def call (c : Call XMPPStanza) : Except Fault Session :=
  match callback (x.context S) c with
  | .error fault => .error fault
  | .ok (client, messages) => .ok { x with
      client := client
      received_stanzas := x.stored c
      replies := x.replies ++ messages }

def calls (x : Session) : List (Call XMPPStanza) → Except Fault Session
  | [] => .ok x
  | c :: cs => (x.call S c).bind fun x => calls x cs

def event (e : Event) : Except Fault Session :=
  match x.parser.handle e with
  | .error fault => .error fault
  | .ok parser =>
      calls S { x with parser := { parser with arrivals := [] } }
        (parser.arrivals.flatMap (Arrival.calls (fun t => t) fun t => t))

/-- After `parser_feed`. -/
def endChunk (chunk : List UInt8) : Session :=
  let x := { x with stream := x.stream ++ chunk }
  if gStrHasSuffix x.stream STREAM_END then
    { x with replies := x.replies ++ [STREAM_END], ended := true }
  else x

def act : Input → Except Fault Session
  | .chunk bytes events => (deliver (event S) x events).map fun x => x.endChunk bytes
  | .call (.requiredPasswd password) =>
      .ok { x with primed := primeRequiredPasswd password x.primed }
  | .call (.forId id stream) => .ok { x with primed := primeForId id stream x.primed }
  | .call (.forQuery query stream) =>
      (primeForQuery S.expat query stream x.primed).map fun primed => { x with primed := primed }
  | .call (.forXmlns xmlns stream) =>
      (primeForXmlns S.expat xmlns stream x.primed).map fun primed => { x with primed := primed }
  | .call (.verifyAny template clear) => .ok { x with
      received_stanzas := storeAfter x.received_stanzas (.verifyAny template clear) }
  | .call _ => .ok x

end Session

/-- The session goes on with what an action brings. -/
def advance (S : Setting) (y : Except Fault Session) (a : Action) : Except Fault Session :=
  match input a with
  | none => y
  | some i => y.bind fun x => x.act S i

/-- The session that the actions make. -/
def session (S : Setting) (x : Session) (as : List Action) : Except Fault Session :=
  as.foldl (advance S) (.ok x)

theorem session_append (S : Setting) (x : Session) (as : List Action) (a : Action) :
    session S x (as ++ [a]) = advance S (session S x as) a := by
  unfold session
  rw [List.foldl_append]
  rfl

theorem advance_none {S : Setting} {a : Action} (ha : input a = none)
    (y : Except Fault Session) : advance S y a = y := by
  unfold advance
  rw [ha]

theorem advance_some {S : Setting} {a : Action} {i : Input} (ha : input a = some i)
    (x : Session) : advance S (.ok x) a = x.act S i := by
  unfold advance
  rw [ha]
  rfl

/-! ## What the thread has done of it -/

/-- The replies that `write_stream` has been given. -/
def replied (s : State) : List (List UInt8) :=
  (s.entered.filter fun m => m.1 = .reply).map Prod.snd

def isHandling : Pc → Bool
  | .feeding _ _ _ _ => true
  | _ => false

/-- Nothing changes the tables or the store while a chunk is handled. -/
def Apart (s : State) (a : Action) : Prop := isHandling s.pc = true → changes a = false

/-- The thread has given all replies to `write_stream` but those that wait. -/
structure Agrees (s : State) (x : Session) (waiting : List Str) : Prop where
  replies : x.replies.map utf8 = replied s ++ waiting.map utf8
  primed : s.primed = x.primed
  received_stanzas : s.received_stanzas = x.received_stanzas

structure Serves (s : State) (x : Session) (waiting : List Str) : Prop
    extends Agrees s x waiting where
  parser : { s.parser with arrivals := [] } = x.parser
  client : s.client = some x.client
  stream : s.stream = x.stream
  ended : x.ended = true → s.pc = .ending ∨ s.pc = .top ∧ s.kill_recv = true

/-- Connected, and not in a chunk. -/
def IsServing (pc : Pc) : Prop :=
  pc ≠ .accepting ∧ isHandling pc = false ∧ pc ≠ .finished ∧ pc ≠ .crashed

/-- What is left of a chunk. -/
def Session.rest (S : Setting) (x : Session) (chunk : List UInt8) (events : List Event)
    (calls : List (Call XMPPStanza)) : Except Fault Session :=
  (x.calls S calls).bind fun x =>
    (deliver (Session.event S) x events).map fun x => x.endChunk chunk

/-- The session so far, by the place where the thread is. -/
inductive Follows (S : Setting) (y : Except Fault Session) (s : State) : Prop where
  | accepting (x : Session) (hpc : s.pc = .accepting) (hy : y = .ok x) (hagrees : Agrees s x [])
      (hnew : x.parser = { s.parser.init with arrivals := [] } ∧ x.client = xmppclientNew ∧
        x.stream = [] ∧ x.ended = false)
  | serving (x : Session) (hpc : IsServing s.pc) (hy : y = .ok x) (hserves : Serves s x [])
  | handling (x : Session) (chunk : List UInt8) (events : List Event)
      (calls : List (Call XMPPStanza)) (waiting : List Str)
      (hpc : s.pc = .feeding chunk events calls waiting)
      (hy : y = x.rest S chunk events calls) (hserves : Serves s x waiting)
  | finished (x : Session) (hpc : s.pc = .finished) (hy : y = .ok x)
      (hreplies : x.replies.map utf8 = replied s) (hended : x.ended = true → s.kill_recv = true)
      (hagrees : s.stopped = false → Agrees s x [])
  | crashed (fault : Fault) (hpc : s.pc = .crashed) (hy : y = .error fault)

end Stabber.Sessions

