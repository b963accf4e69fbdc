import Stabber.ReplyStanzas

/-!
# The stub book

What the server is for: it has a book of stanzas to answer by, and for each stanza that
comes it says what the book has for it. The callbacks write these answers out.
-/

namespace Stabber.StubBook
open XmlDocument XmlReader XmlReading XmlSoundness Stanza StanzaParse Stanzas StanzaRoundTrip
open StreamParser Priming Callbacks StubReplies ReplyIds Authentication ReplyStanzas

/-- The stanzas to answer by: for the name and the id of a stanza, for the namespace of its
query, and for that of its first child. -/
structure Book where
  passwd : Option Str
  forId : Str → Str → Option XMPPStanza
  forQuery : Str → Option XMPPStanza
  forXmlns : Str → Option XMPPStanza

inductive Reply where
  | stanza (x : XMPPStanza)
  | streamEnd
deriving Repr

/-- How it is written. -/
def Reply.text : Reply → Str
  | .stanza x => stanzaToString x
  | .streamEnd => STREAM_END

def answering (id : Str) (stub : XMPPStanza) : Reply :=
  .stanza { stub with attrs := setId id stub.attrs }

namespace Book
variable (book : Book) (env : Env)

/-- There is no reply without an id: the null pointer is read. -/
def byStub (id : Option Str) (stub : XMPPStanza) : Option (List Reply) :=
  id.map fun id => [answering id stub]

/-- All three fields are asked for, and then the password is checked. There is no reply
where one of them is empty: its content is a null pointer. -/
def authentication (id : Str) (query : XMPPStanza) : Option (List Reply) :=
  if missing query ≠ [] then some [.stanza (fieldsStanza id (missing query))]
  else if fields.all fun name =>
      ((stanzaGetChildByName (some query) name).bind XMPPStanza.content).isSome then
    some (if some (fieldText query passwordField) = book.passwd then
        [.stanza (verdictStanza id "result".toList)]
      else [.stanza (verdictStanza id "error".toList), .streamEnd])
  else none

/-- What a server says without a stub. -/
def discovery (received : List XMPPStanza) (query : Str) (id : Option Str) : List Reply :=
  let from_jid := (Stanzas.stanzasGetToById (fun s => s) id received).getD "localhost".toList
  if query = discoItemsNs then
    [.stanza (resultStanza (printed id) from_jid (itemsChild (printed id)))]
  else if query = discoInfoNs then [.stanza (resultStanza (printed id) from_jid (infoChild env))]
  else []

def byId (name : Str) (id : Option Str) : List Reply :=
  match id with
  | none => []
  | some id => ((book.forId name id).map (answering id)).toList

def byQuery (received : List XMPPStanza) (query id : Option Str) : Option (List Reply) :=
  match query with
  | none => some []
  | some query =>
      match book.forQuery query with
      | some stub => byStub id stub
      | none => some (discovery env received query id)

def byXmlns (xmlns id : Option Str) : Option (List Reply) :=
  match xmlns with
  | none => some []
  | some xmlns =>
      match book.forXmlns xmlns with
      | some stub => byStub id stub
      | none => some []

/-- The replies to a stanza, with the stanzas received so far, this one included. -/
def answer (received : List XMPPStanza) (request : XMPPStanza) : Option (List Reply) :=
  let id := stanzaGetId (some request)
  match stanzaGetChildByNs (some request) "jabber:iq:auth".toList with
  | some query => book.authentication (id.getD []) query
  | none =>
      let more := (book.byQuery env received (stanzaGetQueryRequest request) id).bind fun replies =>
        (book.byXmlns (stanzaGetXmlns request) id).map fun more => replies ++ more
      more.map fun more => book.byId request.name id ++ more

/-- The replies to one stanza after the other. -/
def answers : List XMPPStanza → List XMPPStanza → Option (List Reply)
  | _, [] => some []
  | received, request :: requests =>
      (book.answer env (received ++ [request]) request).bind fun replies =>
        (answers (received ++ [request]) requests).map fun more => replies ++ more

end Book

/-! ## The book of the stub tables -/

/-- The stanza that a text spells, without children that would not be written. -/
def spelledBy (text : Str) : Option XMPPStanza :=
  match stanzaParse .reference text with
  | .ok s => s.map ReplyIds.written
  | .error _ => none

def bookOf (order : KeyOrder) (primed : Primed) : Book where
  passwd := primeGetPasswd primed
  forId name id := (stubFor order primed name id).bind spelledBy
  forQuery query := (primeGetForQuery primed query).map ReplyIds.written
  forXmlns xmlns := (primeGetForXmlns primed xmlns).map ReplyIds.written

/-- A plain stanza is answered with, once it has the id. -/
theorem reply_of_plain (E : Expat) {p : XMPPStanza} (hp : Plain p) (id : Str) :
    reply E (stanzaToString p) (some id) = .ok (answering id p).text := by
  unfold reply
  rw [stanzaParse_stanzaToString E hp]
  rfl

theorem spelledBy_of_plainStub (E : Expat) {stub : Str} (h : PlainStub stub) :
    ∃ p, spelledBy stub = some p ∧ Plain p ∧
      ∀ id, reply E stub (some id) = .ok (answering id p).text := by
  obtain ⟨n, as, ks, hd, hplain⟩ := h
  refine ⟨ReplyIds.written (stanza n as ks), ?_, plain_written n as ks (sound_of_denotes hd) hplain,
    fun id => ?_⟩
  · unfold spelledBy
    rw [stanzaParse_stub .reference hd]
    rfl
  · rw [reply_stub E hd, stanza_withId, ← stanzaToString_written, written_attrs]
    unfold answering Reply.text
    rw [attrs_written]

/-- An entry of the tables is answered with as it is written. -/
theorem reply_of_entry (E : Expat) {s : XMPPStanza} (h : PlainEntry (some s)) :
    Plain (ReplyIds.written s) ∧ ∀ id,
      reply E (stanzaToString s) (some id) = .ok (answering id (ReplyIds.written s)).text := by
  obtain ⟨stub, n, as, ks, hd, hs, hplain⟩ := h
  obtain rfl := Option.some.inj hs
  have hwritten := plain_written n as ks (sound_of_denotes hd) hplain
  refine ⟨hwritten, fun id => ?_⟩
  rw [← stanzaToString_written]
  exact reply_of_plain E hwritten id

/-! ## The callbacks answer by the book -/

/-- The messages are these replies. Where there are none for a null pointer, it is read. -/
def Says (result : Except Fault (XMPPClient × List Str)) : Option (List Reply) → Prop
  | some replies => ∃ client, result = .ok (client, replies.map Reply.text)
  | none => ∃ fault, result = .error fault

/-- Without an id there is no reply by a stub: the null id is read. -/
theorem reply_none (E : Expat) (stub : Str) : ∃ fault, reply E stub none = .error fault := by
  unfold reply
  cases stanzaParse E stub with
  | error fault => exact ⟨fault, rfl⟩
  | ok s => cases s <;> exact ⟨_, rfl⟩

theorem says_reply {E : Expat} {text : Str} {stub : XMPPStanza} (client : XMPPClient)
    (h : ∀ id, reply E text (some id) = .ok (answering id stub).text) (id : Option Str) :
    Says ((do return [← reply E text id]).map (client, ·)) (Book.byStub id stub) := by
  cases id with
  | none =>
      obtain ⟨fault, hfault⟩ := reply_none E text
      refine ⟨fault, ?_⟩
      rw [hfault]
      rfl
  | some id =>
      refine ⟨client, ?_⟩
      rw [h]
      rfl

theorem plainEntry_of_lookup {table : Option (Table (Option XMPPStanza))} {key : Str}
    {stub : XMPPStanza} (htable : ∀ t, table = some t → ∀ e ∈ t, PlainEntry e.2)
    (h : (table.bind fun t => t.lookup key).join = some stub) : PlainEntry (some stub) := by
  obtain ⟨t, ht, hlookup⟩ := Option.bind_eq_some_iff.mp (Option.join_eq_some_iff.mp h)
  obtain ⟨e, he, hvalue⟩ := mem_of_lookup hlookup
  have hentry := htable t ht e he
  rwa [hvalue] at hentry

section Callbacks
variable (ctx : Context) (hprimed : PlainPrimed ctx.primed)
include hprimed

theorem says_id (name id : Str) : Says (callback ctx (.id name id))
    (some ((bookOf ctx.order ctx.primed).byId name (some id))) := by
  change Says ((idCallback ctx.expat ctx.order ctx.primed name id).map (ctx.client, ·)) _
  unfold Book.byId bookOf
  dsimp only
  cases hstub : stubFor ctx.order ctx.primed name id with
  | none =>
      unfold stubFor at hstub
      split at hstub
      next => cases hstub
      next hid =>
        refine ⟨ctx.client, ?_⟩
        unfold idCallback
        rw [hid, hstub]
        rfl
  | some text =>
      obtain ⟨t, key, ht, hkey⟩ := entry_of_stubFor hstub
      obtain ⟨e, he, rfl⟩ := mem_of_lookup hkey
      obtain ⟨p, hp, -, hreply⟩ := spelledBy_of_plainStub ctx.expat (hprimed.ids t ht e he)
      rw [idCallback_of_stub ctx.expat hstub, Option.bind_some, hp]
      exact says_reply ctx.client hreply (some id)

theorem says_query (query : Str) (id : Option Str) : Says (callback ctx (.query query id))
    ((bookOf ctx.order ctx.primed).byQuery ctx.env ctx.received (some query) id) := by
  change Says ((queryCallback ctx.expat ctx.env ctx.primed ctx.received query id).map
    (ctx.client, ·)) _
  unfold Book.byQuery bookOf queryCallback
  dsimp only
  cases hstub : primeGetForQuery ctx.primed query with
  | some stub =>
      have hentry := plainEntry_of_lookup hprimed.queries hstub
      exact says_reply ctx.client (reply_of_entry ctx.expat hentry).2 id
  | none =>
      unfold Book.discovery
      refine ⟨ctx.client, ?_⟩
      dsimp only [Option.map_none]
      split_ifs
      · rw [discoItems_stanza]
        rfl
      · rw [discoInfo_stanza]
        rfl
      · rfl

theorem says_xmlns (xmlns : Str) (id : Option Str) : Says (callback ctx (.xmlns xmlns id))
    ((bookOf ctx.order ctx.primed).byXmlns (some xmlns) id) := by
  change Says ((xmlnsCallback ctx.expat ctx.primed xmlns id).map (ctx.client, ·)) _
  unfold Book.byXmlns bookOf xmlnsCallback
  dsimp only
  cases hstub : primeGetForXmlns ctx.primed xmlns with
  | some stub =>
      have hentry := plainEntry_of_lookup hprimed.xmlns hstub
      exact says_reply ctx.client (reply_of_entry ctx.expat hentry).2 id
  | none => exact ⟨ctx.client, rfl⟩

end Callbacks

/-- A missing id is appended as an empty one. -/
theorem authfields_getD (id : Option Str) (username password resource : Option XMPPStanza) :
    authfields id username password resource =
      authfields (some (id.getD [])) username password resource := by
  cases id <;> rfl

theorem text_verdictStanza (id : Option Str) :
    authfail id = (Reply.stanza (verdictStanza (id.getD []) "error".toList)).text ∧
      authsuccess id = (Reply.stanza (verdictStanza (id.getD []) "result".toList)).text := by
  obtain ⟨hfail, hsuccess⟩ := stanzaToString_verdictStanza (id.getD [])
  cases id <;> exact ⟨hfail.symm, hsuccess.symm⟩

theorem says_verdict (ctx : Context) (client : XMPPClient) (id : Option Str) (p : Str) :
    Says (if some p ≠ primeGetPasswd ctx.primed then .ok (client, [authfail id, STREAM_END])
        else .ok (client, [authsuccess id]))
      (some (if some p = (bookOf ctx.order ctx.primed).passwd then
          [.stanza (verdictStanza (id.getD []) "result".toList)]
        else [.stanza (verdictStanza (id.getD []) "error".toList), .streamEnd])) := by
  obtain ⟨hfail, hsuccess⟩ := text_verdictStanza id
  refine ⟨client, ?_⟩
  by_cases hpasswd : some p = primeGetPasswd ctx.primed
  · have hbook : some p = (bookOf ctx.order ctx.primed).passwd := hpasswd
    rw [if_neg (not_not_intro hpasswd), if_pos hbook, hsuccess]
    rfl
  · have hbook : some p ≠ (bookOf ctx.order ctx.primed).passwd := hpasswd
    rw [if_pos hpasswd, if_neg hbook, hfail]
    rfl

/-- The three fields are looked up first, and then their contents are read one by one. -/
theorem says_auth (ctx : Context) {s query : XMPPStanza}
    (hquery : stanzaGetChildByNs (some s) "jabber:iq:auth".toList = some query) :
    Says (callback ctx (.auth s))
      ((bookOf ctx.order ctx.primed).authentication ((stanzaGetId (some s)).getD []) query) := by
  change Says (authCallback ctx.primed ctx.client s) _
  unfold Book.authentication
  by_cases hall : missing query = []
  · have hfind := fun name (hname : name ∈ fields) => present_of_missing hname hall
    obtain ⟨⟨_, _, _, u⟩, husername⟩ := hfind usernameField (by simp [fields])
    obtain ⟨⟨_, _, _, p⟩, hpassword⟩ := hfind passwordField (by simp [fields])
    obtain ⟨⟨_, _, _, r⟩, hresource⟩ := hfind resourceField (by simp [fields])
    rw [if_neg (not_not_intro hall)]
    unfold fields fieldText
    rw [List.all_cons, List.all_cons, List.all_cons, List.all_nil, husername, hpassword, hresource]
    unfold usernameField at husername
    unfold passwordField at hpassword
    unfold resourceField at hresource
    unfold authCallback
    rw [hquery]
    dsimp only
    rw [husername, hpassword, hresource]
    cases u with
    | none => exact ⟨.nullDereference, rfl⟩
    | some u =>
        cases p with
        | none => exact ⟨.nullDereference, rfl⟩
        | some p =>
            cases r with
            | none => exact ⟨.nullDereference, rfl⟩
            | some r => exact says_verdict ctx ⟨some u, some p, some r⟩ (stanzaGetId (some s)) p
  · have htext : ∀ username password resource,
        missing query = absent usernameField username ++ absent passwordField password ++
          absent resourceField resource →
        authfields (stanzaGetId (some s)) username password resource =
          (Reply.stanza (fieldsStanza ((stanzaGetId (some s)).getD []) (missing query))).text := by
      intro username password resource hmissing
      rw [authfields_getD, authfields_eq, ← hmissing]
      exact (stanzaToString_fieldsStanza _ hall).symm
    have hfields := htext _ _ _ (missing_eq query)
    rw [if_pos hall]
    rw [missing_eq] at hall
    refine ⟨ctx.client, ?_⟩
    unfold authCallback
    rw [hquery]
    dsimp only
    rw [List.map_singleton, ← hfields]
    unfold usernameField passwordField resourceField at hall ⊢
    cases hu : stanzaGetChildByName (some query) "username".toList with
    | none => rfl
    | some username =>
        cases hp : stanzaGetChildByName (some query) "password".toList with
        | none => rfl
        | some password =>
            cases hr : stanzaGetChildByName (some query) "resource".toList with
            | none => rfl
            | some resource =>
                rw [hu, hp, hr] at hall
                exact (hall rfl).elim

def Reply.IsPlain : Reply → Prop
  | .stanza x => Plain x
  | .streamEnd => True

structure PlainBook (book : Book) : Prop where
  forId : ∀ name id stub, book.forId name id = some stub → Plain stub
  forQuery : ∀ query stub, book.forQuery query = some stub → Plain stub
  forXmlns : ∀ xmlns stub, book.forXmlns xmlns = some stub → Plain stub

theorem plainBook_bookOf (order : KeyOrder) {primed : Primed} (hprimed : PlainPrimed primed) :
    PlainBook (bookOf order primed) := by
  constructor
  · intro name id stub hstub
    obtain ⟨text, htext, hspelled⟩ := Option.bind_eq_some_iff.mp hstub
    obtain ⟨t, key, ht, hkey⟩ := entry_of_stubFor htext
    obtain ⟨e, he, rfl⟩ := mem_of_lookup hkey
    obtain ⟨p, hp, hplain, -⟩ := spelledBy_of_plainStub .reference (hprimed.ids t ht e he)
    rw [hp] at hspelled
    cases hspelled
    exact hplain
  · intro query stub hstub
    obtain ⟨s, hs, rfl⟩ := Option.map_eq_some_iff.mp hstub
    exact (reply_of_entry .reference (plainEntry_of_lookup hprimed.queries hs)).1
  · intro xmlns stub hstub
    obtain ⟨s, hs, rfl⟩ := Option.map_eq_some_iff.mp hstub
    exact (reply_of_entry .reference (plainEntry_of_lookup hprimed.xmlns hs)).1

namespace Book
variable {book : Book} {env : Env} {id : Option Str} {replies : List Reply}

theorem byStub_plain {stub : XMPPStanza} (hstub : Plain stub)
    (hid : ∀ i, id = some i → PlainValue i) (h : byStub id stub = some replies) :
    ∀ r ∈ replies, r.IsPlain := by
  obtain ⟨i, hi, rfl⟩ := Option.map_eq_some_iff.mp h
  rw [List.forall_mem_singleton]
  exact plain_setId hstub (hid i hi)

theorem authentication_plain {i : Str} {query : XMPPStanza} (hid : PlainValue i)
    (h : book.authentication i query = some replies) : ∀ r ∈ replies, r.IsPlain := by
  unfold authentication at h
  split_ifs at h with hmissing hcontents hpasswd
  · cases h
    rw [List.forall_mem_singleton]
    refine plain_fieldsStanza hid fun name hname => ?_
    have hfields : ∀ n ∈ fields, isName n = true := by decide
    exact hfields name (List.mem_of_mem_filter hname)
  · cases h
    rw [List.forall_mem_singleton]
    exact plain_verdictStanza hid (by decide)
  · cases h
    rw [List.forall_mem_cons, List.forall_mem_singleton]
    exact ⟨plain_verdictStanza hid (by decide), trivial⟩

theorem discovery_plain {received : List XMPPStanza} (hstore : ∀ s ∈ received, PlainHead s)
    (hid : ∀ i, id = some i → PlainValue i) (query : Str) :
    ∀ r ∈ discovery env received query id, r.IsPlain := by
  have hprinted := plainValue_printed hid
  have hfrom := plain_from_jid hstore id
  unfold discovery
  dsimp only
  split_ifs
  · rw [List.forall_mem_singleton]
    exact plain_resultStanza hprinted hfrom (itemsChild_written _).1
  · rw [List.forall_mem_singleton]
    exact plain_resultStanza hprinted hfrom (infoChild_written env).1
  · simp

section
variable (hbook : PlainBook book)
include hbook

theorem byId_plain (hid : ∀ i, id = some i → PlainValue i) (name : Str) :
    ∀ r ∈ book.byId name id, r.IsPlain := by
  intro r hr
  cases id with
  | none => cases hr
  | some i =>
      obtain ⟨stub, hstub, rfl⟩ := Option.map_eq_some_iff.mp (Option.mem_toList.mp hr)
      exact plain_setId (hbook.forId name i stub hstub) (hid i rfl)

theorem byQuery_plain {received : List XMPPStanza} (hstore : ∀ s ∈ received, PlainHead s)
    (hid : ∀ i, id = some i → PlainValue i) {query : Option Str}
    (h : book.byQuery env received query id = some replies) : ∀ r ∈ replies, r.IsPlain := by
  cases query with
  | none =>
      cases h
      simp
  | some query =>
      unfold byQuery at h
      dsimp only at h
      split at h
      next stub hstub => exact byStub_plain (hbook.forQuery query stub hstub) hid h
      next =>
        cases h
        exact discovery_plain hstore hid query

theorem byXmlns_plain (hid : ∀ i, id = some i → PlainValue i) {xmlns : Option Str}
    (h : book.byXmlns xmlns id = some replies) : ∀ r ∈ replies, r.IsPlain := by
  cases xmlns with
  | none =>
      cases h
      simp
  | some xmlns =>
      unfold byXmlns at h
      dsimp only at h
      split at h
      next stub hstub => exact byStub_plain (hbook.forXmlns xmlns stub hstub) hid h
      next =>
        cases h
        simp

theorem answer_plain {received : List XMPPStanza} (hstore : ∀ s ∈ received, PlainHead s)
    {request : XMPPStanza} (hrequest : PlainHead request)
    (h : book.answer env received request = some replies) : ∀ r ∈ replies, r.IsPlain := by
  unfold answer at h
  dsimp only at h
  split at h
  next query hquery => exact authentication_plain (plainValue_getD hrequest.id) h
  next =>
    obtain ⟨more, hmore, rfl⟩ := Option.map_eq_some_iff.mp h
    obtain ⟨byQuery, hbyQuery, hrest⟩ := Option.bind_eq_some_iff.mp hmore
    obtain ⟨byXmlns, hbyXmlns, rfl⟩ := Option.map_eq_some_iff.mp hrest
    rw [List.forall_mem_append, List.forall_mem_append]
    exact ⟨byId_plain hbook hrequest.id request.name,
      byQuery_plain hbook hstore hrequest.id hbyQuery, byXmlns_plain hbook hrequest.id hbyXmlns⟩

theorem answers_plain {received requests : List XMPPStanza} (hstore : ∀ s ∈ received, PlainHead s)
    (hrequests : ∀ s ∈ requests, PlainHead s)
    (h : book.answers env received requests = some replies) : ∀ r ∈ replies, r.IsPlain := by
  induction requests generalizing received replies with
  | nil =>
      cases h
      simp
  | cons request requests ih =>
      have hgrown : ∀ s ∈ received ++ [request], PlainHead s := by
        rw [List.forall_mem_append, List.forall_mem_singleton]
        exact ⟨hstore, hrequests request List.mem_cons_self⟩
      obtain ⟨first, hfirst, hrest⟩ := Option.bind_eq_some_iff.mp h
      obtain ⟨more, hmore, rfl⟩ := Option.map_eq_some_iff.mp hrest
      rw [List.forall_mem_append]
      exact ⟨answer_plain hbook hgrown (hrequests request List.mem_cons_self) hfirst,
        ih hgrown (fun s hs => hrequests s (List.mem_cons_of_mem _ hs)) hmore⟩

end

end Book

end Stabber.StubBook
