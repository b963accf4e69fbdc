import Stabber.Callbacks

/-!
# Authentication

What `auth_callback` writes. The text of a field is the content of the first element
with its name. The callback dereferences the content of all three elements, and an
element without text has none.
-/

namespace Stabber.Authentication
open XmlDocument Stanza Priming Callbacks

def usernameField : Str := "username".toList

def passwordField : Str := "password".toList

def resourceField : Str := "resource".toList

def fields : List Str := [usernameField, passwordField, resourceField]

/-- The names for which the query has no element. -/
def missing (query : XMPPStanza) : List Str :=
  fields.filter fun name => (stanzaGetChildByName (some query) name).isNone

/-- The text of the first element with this name, if there is one. -/
def fieldText (query : XMPPStanza) (name : Str) : Str :=
  ((stanzaGetChildByName (some query) name).bind XMPPStanza.content).getD []

/-- A result that asks for these fields. -/
def fieldsReply (id : Str) (names : List Str) : Str :=
  "<iq type=\"result\" id=\"".toList ++ id ++ "\"><query xmlns=\"jabber:iq:auth\">".toList ++
    names.flatMap (fun name => "<".toList ++ name ++ "/>".toList) ++ "</query></iq>".toList

def absent (name : Str) (element : Option XMPPStanza) : List Str :=
  if element.isNone then [name] else []

theorem missing_eq (query : XMPPStanza) : missing query =
    absent usernameField (stanzaGetChildByName (some query) usernameField) ++
      absent passwordField (stanzaGetChildByName (some query) passwordField) ++
      absent resourceField (stanzaGetChildByName (some query) resourceField) := by
  unfold missing fields absent
  simp only [List.filter_cons, List.filter_nil]
  split_ifs <;> rfl

def emptyElement (name : Str) : Str := "<".toList ++ name ++ "/>".toList

theorem append_three (front a b c close : Str) :
    front ++ a ++ b ++ c ++ close = front ++ (a ++ b ++ c) ++ close := by
  simp only [List.append_assoc]

theorem authfields_eq (id : Str) (username password resource : Option XMPPStanza) :
    authfields (some id) username password resource =
      fieldsReply id (absent usernameField username ++ absent passwordField password ++
        absent resourceField resource) := by
  have husername : (if username.isNone then "<username/>".toList else []) =
      (absent usernameField username).flatMap emptyElement := by
    cases username <;> rfl
  have hpassword : (if password.isNone then "<password/>".toList else []) =
      (absent passwordField password).flatMap emptyElement := by
    cases password <;> rfl
  have hresource : (if resource.isNone then "<resource/>".toList else []) =
      (absent resourceField resource).flatMap emptyElement := by
    cases resource <;> rfl
  unfold authfields fieldsReply
  rw [husername, hpassword, hresource, List.flatMap_append, List.flatMap_append]
  exact append_three _ _ _ _ _

/-- Where all three elements are there, each of them has text. -/
def TextsPresent (query : XMPPStanza) : Prop :=
  missing query = [] → ∀ name ∈ fields, ∀ child,
    stanzaGetChildByName (some query) name = some child → child.content.isSome

theorem present_of_missing {query : XMPPStanza} {name : Str} (hname : name ∈ fields)
    (hall : missing query = []) :
    ∃ child, stanzaGetChildByName (some query) name = some child := by
  have hnot := (List.filter_eq_nil_iff.mp hall) name hname
  rw [Option.isNone_iff_eq_none] at hnot
  exact Option.ne_none_iff_exists'.mp hnot

section Auth
variable {stanza query : XMPPStanza} {id : Str}
  (hquery : stanzaGetChildByNs (some stanza) "jabber:iq:auth".toList = some query)
  (hid : stanzaGetId (some stanza) = some id) (primed : Primed) (client : XMPPClient)
include hquery hid

theorem authCallback_missing (hsome : missing query ≠ []) :
    authCallback primed client stanza = .ok (client, [fieldsReply id (missing query)]) := by
  rw [missing_eq] at hsome ⊢
  rw [← authfields_eq]
  unfold authCallback
  rw [hquery, hid]
  dsimp only
  change _ = Except.ok (client, [authfields (some id)
    (stanzaGetChildByName (some query) "username".toList)
    (stanzaGetChildByName (some query) "password".toList)
    (stanzaGetChildByName (some query) "resource".toList)])
  unfold usernameField passwordField resourceField at hsome
  cases hu : stanzaGetChildByName (some query) "username".toList with
  | none => rfl
  | some username =>
      cases hp : stanzaGetChildByName (some query) "password".toList with
      | none => rfl
      | some password =>
          cases hr : stanzaGetChildByName (some query) "resource".toList with
          | none => rfl
          | some resource =>
              rw [hu, hp, hr] at hsome
              exact (hsome rfl).elim

section Present
variable {username password resource : XMPPStanza}
  (husername : stanzaGetChildByName (some query) usernameField = some username)
  (hpassword : stanzaGetChildByName (some query) passwordField = some password)
  (hresource : stanzaGetChildByName (some query) resourceField = some resource)
include husername hpassword hresource

/-- The three contents are dereferenced one after another. -/
theorem authCallback_present : authCallback primed client stanza = do
    let username ← contentStr username
    let password ← contentStr password
    let resource ← contentStr resource
    let client := ⟨some username, some password, some resource⟩
    if some password ≠ primeGetPasswd primed then return (client, [authfail (some id), STREAM_END])
    else return (client, [authsuccess (some id)]) := by
  unfold usernameField at husername
  unfold passwordField at hpassword
  unfold resourceField at hresource
  unfold authCallback
  rw [hquery, hid]
  dsimp only
  rw [husername, hpassword, hresource]

theorem contents_of_ok {result : XMPPClient × List Str}
    (h : authCallback primed client stanza = .ok result) :
    username.content.isSome ∧ password.content.isSome ∧ resource.content.isSome := by
  rw [authCallback_present hquery hid primed client husername hpassword hresource] at h
  cases hu : username.content with
  | none =>
      rw [contentStr, hu] at h
      cases h
  | some u =>
      cases hp : password.content with
      | none =>
          rw [contentStr, hu, contentStr, hp] at h
          cases h
      | some p =>
          cases hr : resource.content with
          | none =>
              rw [contentStr, hu, contentStr, hp, contentStr, hr] at h
              cases h
          | some r => exact ⟨rfl, rfl, rfl⟩

theorem authCallback_of_contents (required : Str) {u p r : Str} (hu : username.content = some u)
    (hp : password.content = some p) (hr : resource.content = some r) :
    authCallback (primeRequiredPasswd required primed) client stanza =
      .ok (⟨some u, some p, some r⟩, if p = required then [authsuccess (some id)]
        else [authfail (some id), STREAM_END]) := by
  rw [authCallback_present hquery hid _ client husername hpassword hresource]
  rw [contentStr, hu, contentStr, hp, contentStr, hr]
  have hpasswd : primeGetPasswd (primeRequiredPasswd required primed) = some required := rfl
  change (if some p ≠ _ then _ else _ : Except Fault (XMPPClient × List Str)) = _
  rw [hpasswd]
  by_cases heq : p = required
  · simp [heq]
    rfl
  · simp [heq]
    rfl

end Present

end Auth

end Stabber.Authentication
