import Stabber.Priming
import Stabber.Stanzas
import Stabber.StreamParser

/-!
# The callbacks

What each callback of `server.c` does with the stub tables, the password and the
received stanzas, and the messages that it gives to `write_stream`, in order.
-/

namespace Stabber.Callbacks
open XmlDocument Stanza StanzaParse Stanzas Priming StreamParser

def XML_START : Str := "<?xml version=\"1.0\"?>".toList

def STREAM_RESP : Str :=
  "<stream:stream from=\"localhost\" id=\"stream1\" xml:lang=\"en\" version=\"1.0\"".toList ++
    " xmlns=\"jabber:client\" xmlns:stream=\"http://etherx.jabber.org/streams\">".toList

def FEATURES : Str := "<stream:features></stream:features>".toList

def STREAM_END : Str := "</stream:stream>".toList

/-- Which of the `STBBR_DISABLE_` variables are set. -/
structure Env where
  disable_carbons : Bool
  disable_mam : Bool
  disable_ping : Bool
deriving Repr

/-- The credentials kept for a connection. -/
structure XMPPClient where
  username : Option Str
  password : Option Str
  resource : Option Str
deriving Repr, DecidableEq

def xmppclientNew : XMPPClient := ⟨none, none, none⟩

def streamStartCallback : List Str := [XML_START, STREAM_RESP, FEATURES]

/-- A null string is appended as nothing. -/
def authfields (id : Option Str) (username password resource : Option XMPPStanza) : Str :=
  "<iq type=\"result\" id=\"".toList ++ id.getD [] ++
    "\"><query xmlns=\"jabber:iq:auth\">".toList ++
    (if username.isNone then "<username/>".toList else []) ++
    (if password.isNone then "<password/>".toList else []) ++
    (if resource.isNone then "<resource/>".toList else []) ++ "</query></iq>".toList

def authfail (id : Option Str) : Str :=
  "<iq id=\"".toList ++ id.getD [] ++ "\" type=\"error\"/>".toList

def authsuccess (id : Option Str) : Str :=
  "<iq id=\"".toList ++ id.getD [] ++ "\" type=\"result\"/>".toList

/-- The text of a stanza's content, which is dereferenced. -/
def contentStr (stanza : XMPPStanza) : Except Fault Str :=
  match stanza.content with
  | some text => .ok text
  | none => .error .nullDereference

def authCallback (primed : Primed) (client : XMPPClient) (stanza : XMPPStanza) :
    Except Fault (XMPPClient × List Str) :=
  let id := stanzaGetId (some stanza)
  let query := stanzaGetChildByNs (some stanza) "jabber:iq:auth".toList
  let username := stanzaGetChildByName query "username".toList
  let password := stanzaGetChildByName query "password".toList
  let resource := stanzaGetChildByName query "resource".toList
  match username, password, resource with
  | some username, some password, some resource => do
      let username ← contentStr username
      let password ← contentStr password
      let resource ← contentStr resource
      let client := ⟨some username, some password, some resource⟩
      if some password ≠ primeGetPasswd primed then return (client, [authfail id, STREAM_END])
      else return (client, [authsuccess id])
  | _, _, _ => .ok (client, [authfields id username password resource])

/-- What a stub parses to, with the id of the request, written out again. -/
def reply (E : Expat) (stub : Str) (id : Option Str) : Except Fault Str := do
  let stanza ← stanzaParse E stub
  let stanza ← stanzaSetId stanza id
  return stanzaToString stanza

def idCallback (E : Expat) (order : KeyOrder) (primed : Primed) (name id : Str) :
    Except Fault (List Str) :=
  match primeGetForId order primed id with
  | some stream => do return [← reply E stream (some id)]
  | none =>
      match primeGetForId order primed (name ++ ":".toList ++ id) with
      | some stream => do return [← reply E stream (some id)]
      | none => .ok []

/-- How `%s` prints a string that may be null. -/
def printed (s : Option Str) : Str := s.getD "(null)".toList

def discoItems (id : Option Str) (from_jid : Str) : Str :=
  "<iq type=\"result\" id=\"".toList ++ printed id ++
    "\" to=\"stabber@localhost/profanity\" from=\"".toList ++ from_jid ++ "\">".toList ++
    (if id = some "discoitemsreq_onconnect".toList then
      "<query xmlns=\"http://jabber.org/protocol/disco#items\">".toList ++
        "<item jid=\"pubsub.localhost\" name=\"PubSub Service\"/>".toList ++ "</query>".toList
    else "<query xmlns=\"http://jabber.org/protocol/disco#items\"/>".toList) ++ "</iq>".toList

def featuresXml (env : Env) : Str :=
  "<feature var=\"http://jabber.org/protocol/disco#info\"/>".toList ++
    "<feature var=\"http://jabber.org/protocol/disco#items\"/>".toList ++
    (if env.disable_carbons then [] else "<feature var=\"urn:xmpp:carbons:2\"/>".toList) ++
    (if env.disable_mam then [] else "<feature var=\"urn:xmpp:mam:2\"/>".toList) ++
    (if env.disable_ping then [] else "<feature var=\"urn:xmpp:ping\"/>".toList)

def discoInfo (env : Env) (id : Option Str) (from_jid : Str) : Str :=
  "<iq type=\"result\" id=\"".toList ++ printed id ++
    "\" to=\"stabber@localhost/profanity\" from=\"".toList ++ from_jid ++ "\">".toList ++
    "<query xmlns=\"http://jabber.org/protocol/disco#info\">".toList ++
    "<identity category=\"server\" type=\"im\" name=\"Stabber\"/>".toList ++ featuresXml env ++
    "</query>".toList ++ "</iq>".toList

def discoItemsNs : Str := "http://jabber.org/protocol/disco#items".toList

def discoInfoNs : Str := "http://jabber.org/protocol/disco#info".toList

/-- The stub is written out and parsed again, so that the copy in the table keeps
its own id. -/
def queryCallback (E : Expat) (env : Env) (primed : Primed) (received : List XMPPStanza)
    (query : Str) (id : Option Str) : Except Fault (List Str) :=
  match primeGetForQuery primed query with
  | some stub => do return [← reply E (stanzaToString stub) id]
  | none =>
      let from_jid := (stanzasGetToById (fun s => s) id received).getD "localhost".toList
      if query = discoItemsNs then .ok [discoItems id from_jid]
      else if query = discoInfoNs then .ok [discoInfo env id from_jid]
      else .ok []

def xmlnsCallback (E : Expat) (primed : Primed) (xmlns : Str) (id : Option Str) :
    Except Fault (List Str) :=
  match primeGetForXmlns primed xmlns with
  | some stub => do return [← reply E (stanzaToString stub) id]
  | none => .ok []

/-! ## All callbacks of a stanza -/

/-- What the callbacks read. -/
structure Context where
  expat : Expat
  order : KeyOrder
  env : Env
  primed : Primed
  client : XMPPClient
  received : List XMPPStanza

/-- The client and the messages to write. Adding to the store writes nothing. -/
def callback (ctx : Context) : Call XMPPStanza → Except Fault (XMPPClient × List Str)
  | .streamStart => .ok (ctx.client, streamStartCallback)
  | .add _ => .ok (ctx.client, [])
  | .auth stanza => authCallback ctx.primed ctx.client stanza
  | .id name id => (idCallback ctx.expat ctx.order ctx.primed name id).map (ctx.client, ·)
  | .query query id =>
      (queryCallback ctx.expat ctx.env ctx.primed ctx.received query id).map (ctx.client, ·)
  | .xmlns xmlns id => (xmlnsCallback ctx.expat ctx.primed xmlns id).map (ctx.client, ·)

/-- The messages written by the calls in order, and the fault that ends them early. -/
def callbacks (ctx : Context) : List (Call XMPPStanza) → List Str × Option Fault
  | [] => ([], none)
  | call :: calls =>
      match callback ctx call with
      | .error fault => ([], some fault)
      | .ok (client, messages) =>
          let rest := callbacks { ctx with client := client } calls
          (messages ++ rest.1, rest.2)

end Stabber.Callbacks
