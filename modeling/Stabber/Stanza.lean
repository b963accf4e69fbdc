import Stabber.XmlDocument

/-!
# Stanzas

The stanza tree, its accessors and its serialiser, as in `stanza.c`. Strings
are lists of characters; a null string or stanza is `none`. A function that
tests its argument for null takes an `Option`, and one that would dereference a
null pointer ends in a `Fault`.
-/

namespace Stabber.Stanza
open XmlDocument

inductive Fault where
  | nullDereference
  | danglingPointer
deriving Repr, DecidableEq

structure XMPPAttr where
  name : Str
  value : Str
deriving Repr, DecidableEq

/-- The parent pointer is not a field: it is the cursor of a parser that knows
the parents of an open stanza, and `StreamParser` has it as a pointer. -/
structure XMPPStanza where
  name : Str
  attrs : List XMPPAttr
  children : List XMPPStanza
  content : Option Str
deriving Repr

/-- The attributes arrive as names and values in turn. -/
def stanzaNew (name : Str) (attributes : List (Str × Str)) : XMPPStanza :=
  ⟨name, attributes.map fun a => ⟨a.1, a.2⟩, [], none⟩

def attrToString (attr : XMPPAttr) : Str :=
  " ".toList ++ attr.name ++ "=\"".toList ++ attr.value ++ "\"".toList

/-- The text between the start tag's last attribute and the end of the element,
for the two branches that write an end tag. -/
def closeWith (name inner : Str) : Str :=
  ">".toList ++ inner ++ "</".toList ++ name ++ ">".toList

mutual
/-- Names, values and content are copied verbatim, and a stanza with content
is written without its children. -/
def stanzaToString : XMPPStanza → Str
  | ⟨name, attrs, children, content⟩ =>
      "<".toList ++ name ++ attrs.flatMap attrToString ++
        match content, children with
        | some text, _ => closeWith name text
        | none, [] => "/>".toList
        | none, c :: cs => closeWith name (stanzaToString c ++ childrenToString cs)

def childrenToString : List XMPPStanza → Str
  | [] => []
  | c :: cs => stanzaToString c ++ childrenToString cs
end

def stanzaAddChild (parent child : XMPPStanza) : XMPPStanza :=
  { parent with children := parent.children ++ [child] }

def stanzaGetChildByNs (stanza : Option XMPPStanza) (ns : Str) : Option XMPPStanza :=
  stanza.bind fun s => s.children.find? fun child =>
    child.attrs.any fun attr => attr.name = "xmlns".toList && attr.value = ns

def stanzaGetChildByName (stanza : Option XMPPStanza) (name : Str) : Option XMPPStanza :=
  stanza.bind fun s => s.children.find? fun child => child.name = name

def stanzaGetAttr (stanza : XMPPStanza) (name : Str) : Option Str :=
  (stanza.attrs.find? fun attr => attr.name = name).map XMPPAttr.value

def stanzaGetId (stanza : Option XMPPStanza) : Option Str :=
  stanza.bind fun s => stanzaGetAttr s "id".toList

/-- The first attribute called `id` gets the value, or a new one does. -/
def setId (id : Str) : List XMPPAttr → List XMPPAttr
  | [] => [⟨"id".toList, id⟩]
  | attr :: attrs =>
      if attr.name = "id".toList then { attr with value := id } :: attrs
      else attr :: setId id attrs

/-- Both the stanza and the string to copy are dereferenced. -/
def stanzaSetId (stanza : Option XMPPStanza) (id : Option Str) : Except Fault XMPPStanza :=
  match stanza, id with
  | some s, some id => .ok { s with attrs := setId id s.attrs }
  | _, _ => .error .nullDereference

/-- An iq that is neither a result nor an error. -/
def isRequest (stanza : XMPPStanza) : Bool :=
  let type := stanzaGetAttr stanza "type".toList
  stanza.name = "iq".toList && type ≠ some "result".toList && type ≠ some "error".toList

def stanzaGetQueryRequest (stanza : XMPPStanza) : Option Str :=
  if isRequest stanza then
    (stanzaGetChildByName (some stanza) "query".toList).bind fun query =>
      stanzaGetAttr query "xmlns".toList
  else none

/-- The namespace of the first child. -/
def stanzaGetXmlns (stanza : XMPPStanza) : Option Str :=
  if isRequest stanza then
    stanza.children.head?.bind fun child => stanzaGetAttr child "xmlns".toList
  else none

@[simp] theorem stanzaAddChild_name (p c : XMPPStanza) : (stanzaAddChild p c).name = p.name := rfl
@[simp] theorem stanzaAddChild_attrs (p c : XMPPStanza) :
    (stanzaAddChild p c).attrs = p.attrs := rfl
@[simp] theorem stanzaAddChild_children (p c : XMPPStanza) :
    (stanzaAddChild p c).children = p.children ++ [c] := rfl
@[simp] theorem stanzaAddChild_content (p c : XMPPStanza) :
    (stanzaAddChild p c).content = p.content := rfl

/-- Induction with the hypothesis for every child. -/
@[elab_as_elim]
theorem XMPPStanza.induction {P : XMPPStanza → Prop}
    (mk : ∀ name attrs children content, (∀ c ∈ children, P c) →
      P ⟨name, attrs, children, content⟩) (s : XMPPStanza) : P s := by
  refine XMPPStanza.rec (motive_1 := P) (motive_2 := fun cs => ∀ c ∈ cs, P c) mk ?_ ?_ s
  · intro c hc
    simp at hc
  · intro c cs hc hcs d hd
    rcases List.mem_cons.mp hd with rfl | hd
    · exact hc
    · exact hcs d hd

end Stabber.Stanza
