import Stabber.HarmlessTexts
import Mathlib.Logic.Function.Basic

/-!
# The HTTP interface

`connection_cb` is called again and again for a request, and finds out from the pointer
of the connection and from the size of the data where the request is. The daemon has one
thread for all connections, beside the server thread and the calls of the API. A call of
`verify_any` keeps that thread until a look at the store succeeds or the time is up.
-/

namespace Stabber.HttpApi
open XmlDocument Utf8 StanzaParse
open Server (State Action Setting)
open HarmlessTexts (Check)

/-! ## The callback -/

inductive StbbrOp where
  | opUnknown
  | opSend
  | opFor
  | opVerify
deriving Repr, DecidableEq

structure ConnectionInfo where
  stbbr_op : StbbrOp
  body : List UInt8
deriving Repr, DecidableEq

/-- What libmicrohttpd knows of a request. A value is looked up among the arguments of
the URL. -/
structure Request where
  url : List UInt8
  method : List UInt8
  lookup : Str → Option (List UInt8)

/-- What a function that takes a C string reads of a buffer. -/
def cString (buffer : List UInt8) : List UInt8 := buffer.takeWhile (· ≠ 0)

inductive Operation where
  | serverSend (stream : List UInt8)
  | primeForId (id stream : List UInt8)
  | primeForQuery (query stream : List UInt8)
  | primeForXmlns (xmlns stream : List UInt8)
  | verifyAny (stanza_text : List UInt8) (clear : Bool)
deriving Repr, DecidableEq

structure Response where
  status_code : ℕ
  body : Option Str
deriving Repr, DecidableEq

/-- How a call of `connection_cb` ends: with nothing but `MHD_YES`, with a response, or
with an operation and the response to it. -/
inductive Reaction where
  | yes
  | respond (response : Response)
  | perform (operation : Operation)
deriving Repr, DecidableEq

def badRequest : Response := ⟨400, none⟩

def Request.posts (r : Request) (url : Str) : Bool :=
  r.method = utf8 "POST".toList && r.url = utf8 url

def Request.stbbrOp (r : Request) : StbbrOp :=
  if r.posts "/send".toList then .opSend
  else if r.posts "/for".toList then .opFor
  else if r.posts "/verify".toList then .opVerify
  else .opUnknown

/-- A stub needs exactly one of the three arguments. -/
def finishFor (id query xmlns : Option (List UInt8)) (str : List UInt8) : Reaction :=
  let count := id.isSome.toNat + query.isSome.toNat + xmlns.isSome.toNat
  if count ≠ 1 then .respond badRequest
  else match id, query, xmlns with
    | some id, _, _ => .perform (.primeForId id str)
    | none, some query, _ => .perform (.primeForQuery query str)
    | none, none, some xmlns => .perform (.primeForXmlns xmlns str)
    | none, none, none => .respond badRequest

def finish (r : Request) (con_info : ConnectionInfo) : Reaction :=
  let str := cString con_info.body
  match con_info.stbbr_op with
  | .opSend => .perform (.serverSend str)
  | .opFor =>
      finishFor (r.lookup "id".toList) (r.lookup "query".toList) (r.lookup "xmlns".toList) str
  | .opVerify => .perform (.verifyAny str true)
  | .opUnknown => .respond badRequest

def connectionCb (r : Request) (data : List UInt8) :
    Option ConnectionInfo → Reaction × Option ConnectionInfo
  | none =>
      -- of a request that is refused the pointer stays null
      if r.stbbrOp = .opUnknown then (.respond badRequest, none)
      else (.yes, some ⟨r.stbbrOp, []⟩)
  | some con_info =>
      if data.length ≠ 0 then (.yes, some { con_info with body := con_info.body ++ data })
      else (finish r con_info, some con_info)

/-! ## Connections -/

/-- A request, and as its history the data of the calls so far, whether the call with size
zero has been made, the operations performed and the responses sent. -/
structure Exchange where
  request : Request
  chunks : List (List UInt8)
  closed : Bool
  operations : List Operation
  responses : List Response

structure Connection where
  con_cls : Option ConnectionInfo
  exchange : Option Exchange

namespace Connection

def idle : Connection := ⟨none, none⟩

def call (n : Connection) (x : Exchange) (data : List UInt8) : Connection × Option Operation :=
  match connectionCb x.request data n.con_cls with
  | (.yes, con_cls) => (⟨con_cls, some x⟩, none)
  | (.respond response, con_cls) =>
      (⟨con_cls, some { x with responses := x.responses ++ [response] }⟩, none)
  | (.perform operation, con_cls) =>
      (⟨con_cls, some { x with operations := x.operations ++ [operation] }⟩, some operation)

def respond (n : Connection) (response : Response) : Connection :=
  { n with exchange := n.exchange.map fun x => { x with responses := x.responses ++ [response] } }

end Connection

/-! ## The daemon -/

/-- The server and the daemon, with any number of connections, and the requests that have
been completed. -/
structure Httpd (ι : Type) where
  server : State
  connections : ι → Connection
  completed : List Exchange
  /-- The connection for which the daemon's thread is in `verify_any`, and its loop. -/
  verifying : Option (ι × Check)

inductive Act (ι : Type) where
  | server (a : Action)
  | first (c : ι) (r : Request)
  | data (c : ι) (chunk : List UInt8)
  | last (c : ι)
  /-- `request_completed`, after the last call or because the client has gone. -/
  | completed (c : ι)
  | look
  | timeout

def Act.connection {ι : Type} : Act ι → Option ι
  | .first c _ => some c
  | .data c _ => some c
  | .last c => some c
  | .completed c => some c
  | _ => none

/-- The surroundings of the server, and the texts that the bytes of C strings are. -/
structure Surroundings extends Setting where
  text : List UInt8 → Str

namespace Httpd
variable {ι : Type} [DecidableEq ι] (S : Surroundings) (w : Httpd ι)

def respond (c : ι) (response : Response) : Httpd ι :=
  if w.server.pc.isCrashed then w
  else { w with
    connections := Function.update w.connections c ((w.connections c).respond response) }

/-- An operation that is one call of the server, and the response to it. -/
def serve (c : ι) (a : Action) (status_code : ℕ) : Option (Httpd ι) :=
  (Server.step S.toSetting w.server a).map fun t =>
    { w with server := t }.respond c ⟨status_code, none⟩

def perform (c : ι) : Operation → Option (Httpd ι)
  | .serverSend stream => w.serve S c (.send stream) 200
  | .primeForId id stream => w.serve S c (.forId (S.text id) (S.text stream)) 201
  | .primeForQuery query stream => w.serve S c (.forQuery (S.text query) (S.text stream)) 201
  | .primeForXmlns xmlns stream => w.serve S c (.forXmlns (S.text xmlns) (S.text stream)) 201
  | .verifyAny stanza_text clear =>
      match stanzaParse S.expat (S.text stanza_text) with
      | .ok template => some { w with verifying := some (c, ⟨template, false, clear⟩) }
      | .error _ => some { w with server := w.server.crash }

def callback (c : ι) (x : Exchange) (data : List UInt8) : Option (Httpd ι) :=
  match (w.connections c).call x data with
  | (n, none) => some { w with connections := Function.update w.connections c n }
  | (n, some operation) =>
      { w with connections := Function.update w.connections c n }.perform S c operation

def look : Option (Httpd ι) :=
  match w.verifying with
  | none => none
  | some (c, check) =>
      match check.look w.server.received_stanzas with
      | .error _ => some { w with server := w.server.crash }
      | .ok (true, store) =>
          some ({ w with
            server := { w.server with received_stanzas := store }
            verifying := none }.respond c ⟨200, some "true".toList⟩)
      | .ok (false, store) =>
          some { w with server := { w.server with received_stanzas := store } }

def timeout : Option (Httpd ι) :=
  match w.verifying with
  | none => none
  | some (c, _) => some ({ w with verifying := none }.respond c ⟨200, some "false".toList⟩)

/-- A callback for a request that has begun and has not been ended by the last call. -/
def continued (c : ι) (next : Exchange → Exchange) (data : List UInt8) : Option (Httpd ι) :=
  match (w.connections c).exchange with
  | none => none
  | some x => if x.closed then none else w.callback S c (next x) data

def complete (c : ι) : Option (Httpd ι) :=
  match (w.connections c).exchange with
  | none => none
  | some x =>
      some { w with
        connections := Function.update w.connections c .idle
        completed := w.completed ++ [x] }

/-- The callbacks, in the order in which libmicrohttpd makes them for each connection. -/
def request : Act ι → Option (Httpd ι)
  | .first c r =>
      match (w.connections c).exchange with
      | none => w.callback S c ⟨r, [], false, [], []⟩ []
      | some _ => none
  | .data c chunk =>
      if chunk = [] then none
      else w.continued S c (fun x => { x with chunks := x.chunks ++ [chunk] }) chunk
  | .last c => w.continued S c (fun x => { x with closed := true }) []
  | .completed c => w.complete c
  | _ => none

end Httpd

/-- While its thread is in `verify_any`, the daemon calls nothing. -/
def step {ι : Type} [DecidableEq ι] (S : Surroundings) (w : Httpd ι) (a : Act ι) :
    Option (Httpd ι) :=
  if w.server.pc.isCrashed then none
  else match a with
    | .server a => (Server.step S.toSetting w.server a).map fun t => { w with server := t }
    | .look => w.look
    | .timeout => w.timeout
    | a => if w.verifying.isSome then none else w.request S a

end Stabber.HttpApi
