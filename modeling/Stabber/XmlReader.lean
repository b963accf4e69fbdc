import Stabber.XmlDocument

/-!
# An incremental reader of XML 1.0

The reader consumes one character at a time and returns the tokens that the
character completes, or `none` where no well-formed document continues this way.
It covers documents in UTF-8 without a byte order mark and without a document type
declaration: elements, attributes, character data, character and predefined entity
references, CDATA sections, comments, processing instructions and the XML
declaration, with line ends and attribute values normalised. Names have the
characters of the fourth edition, as Expat has them, and prefixes have no meaning.
-/

namespace Stabber.XmlReader
open XmlDocument

/-! ## Character classes -/

def between (lo hi : ℕ) (c : Char) : Bool := lo ≤ c.toNat && c.toNat ≤ hi

def isChar (c : Char) : Bool :=
  c = '\t' || c = '\n' || c = '\r' || between 0x20 0xFFFD c || between 0x10000 0x10FFFF c

/-- Carriage returns are turned into line feeds before this test applies. -/
def isSpace (c : Char) : Bool := c = ' ' || c = '\t' || c = '\n'

/-- The letters beyond ASCII. -/
def letterRanges : List (ℕ × ℕ) :=
  [(0xC0, 0xD6), (0xD8, 0xF6), (0xF8, 0x131), (0x134, 0x13E), (0x141, 0x148), (0x14A, 0x17E),
    (0x180, 0x1C3), (0x1CD, 0x1F0), (0x1F4, 0x1F5), (0x1FA, 0x217), (0x250, 0x2A8), (0x2BB, 0x2C1),
    (0x386, 0x386), (0x388, 0x38A), (0x38C, 0x38C), (0x38E, 0x3A1), (0x3A3, 0x3CE), (0x3D0, 0x3D6),
    (0x3DA, 0x3DA), (0x3DC, 0x3DC), (0x3DE, 0x3DE), (0x3E0, 0x3E0), (0x3E2, 0x3F3), (0x401, 0x40C),
    (0x40E, 0x44F), (0x451, 0x45C), (0x45E, 0x481), (0x490, 0x4C4), (0x4C7, 0x4C8), (0x4CB, 0x4CC),
    (0x4D0, 0x4EB), (0x4EE, 0x4F5), (0x4F8, 0x4F9), (0x531, 0x556), (0x559, 0x559), (0x561, 0x586),
    (0x5D0, 0x5EA), (0x5F0, 0x5F2), (0x621, 0x63A), (0x641, 0x64A), (0x671, 0x6B7), (0x6BA, 0x6BE),
    (0x6C0, 0x6CE), (0x6D0, 0x6D3), (0x6D5, 0x6D5), (0x6E5, 0x6E6), (0x905, 0x939), (0x93D, 0x93D),
    (0x958, 0x961), (0x985, 0x98C), (0x98F, 0x990), (0x993, 0x9A8), (0x9AA, 0x9B0), (0x9B2, 0x9B2),
    (0x9B6, 0x9B9), (0x9DC, 0x9DD), (0x9DF, 0x9E1), (0x9F0, 0x9F1), (0xA05, 0xA0A), (0xA0F, 0xA10),
    (0xA13, 0xA28), (0xA2A, 0xA30), (0xA32, 0xA33), (0xA35, 0xA36), (0xA38, 0xA39), (0xA59, 0xA5C),
    (0xA5E, 0xA5E), (0xA72, 0xA74), (0xA85, 0xA8B), (0xA8D, 0xA8D), (0xA8F, 0xA91), (0xA93, 0xAA8),
    (0xAAA, 0xAB0), (0xAB2, 0xAB3), (0xAB5, 0xAB9), (0xABD, 0xABD), (0xAE0, 0xAE0), (0xB05, 0xB0C),
    (0xB0F, 0xB10), (0xB13, 0xB28), (0xB2A, 0xB30), (0xB32, 0xB33), (0xB36, 0xB39), (0xB3D, 0xB3D),
    (0xB5C, 0xB5D), (0xB5F, 0xB61), (0xB85, 0xB8A), (0xB8E, 0xB90), (0xB92, 0xB95), (0xB99, 0xB9A),
    (0xB9C, 0xB9C), (0xB9E, 0xB9F), (0xBA3, 0xBA4), (0xBA8, 0xBAA), (0xBAE, 0xBB5), (0xBB7, 0xBB9),
    (0xC05, 0xC0C), (0xC0E, 0xC10), (0xC12, 0xC28), (0xC2A, 0xC33), (0xC35, 0xC39), (0xC60, 0xC61),
    (0xC85, 0xC8C), (0xC8E, 0xC90), (0xC92, 0xCA8), (0xCAA, 0xCB3), (0xCB5, 0xCB9), (0xCDE, 0xCDE),
    (0xCE0, 0xCE1), (0xD05, 0xD0C), (0xD0E, 0xD10), (0xD12, 0xD28), (0xD2A, 0xD39), (0xD60, 0xD61),
    (0xE01, 0xE2E), (0xE30, 0xE30), (0xE32, 0xE33), (0xE40, 0xE45), (0xE81, 0xE82), (0xE84, 0xE84),
    (0xE87, 0xE88), (0xE8A, 0xE8A), (0xE8D, 0xE8D), (0xE94, 0xE97), (0xE99, 0xE9F), (0xEA1, 0xEA3),
    (0xEA5, 0xEA5), (0xEA7, 0xEA7), (0xEAA, 0xEAB), (0xEAD, 0xEAE), (0xEB0, 0xEB0), (0xEB2, 0xEB3),
    (0xEBD, 0xEBD), (0xEC0, 0xEC4), (0xF40, 0xF47), (0xF49, 0xF69), (0x10A0, 0x10C5),
    (0x10D0, 0x10F6), (0x1100, 0x1100), (0x1102, 0x1103), (0x1105, 0x1107), (0x1109, 0x1109),
    (0x110B, 0x110C), (0x110E, 0x1112), (0x113C, 0x113C), (0x113E, 0x113E), (0x1140, 0x1140),
    (0x114C, 0x114C), (0x114E, 0x114E), (0x1150, 0x1150), (0x1154, 0x1155), (0x1159, 0x1159),
    (0x115F, 0x1161), (0x1163, 0x1163), (0x1165, 0x1165), (0x1167, 0x1167), (0x1169, 0x1169),
    (0x116D, 0x116E), (0x1172, 0x1173), (0x1175, 0x1175), (0x119E, 0x119E), (0x11A8, 0x11A8),
    (0x11AB, 0x11AB), (0x11AE, 0x11AF), (0x11B7, 0x11B8), (0x11BA, 0x11BA), (0x11BC, 0x11C2),
    (0x11EB, 0x11EB), (0x11F0, 0x11F0), (0x11F9, 0x11F9), (0x1E00, 0x1E9B), (0x1EA0, 0x1EF9),
    (0x1F00, 0x1F15), (0x1F18, 0x1F1D), (0x1F20, 0x1F45), (0x1F48, 0x1F4D), (0x1F50, 0x1F57),
    (0x1F59, 0x1F59), (0x1F5B, 0x1F5B), (0x1F5D, 0x1F5D), (0x1F5F, 0x1F7D), (0x1F80, 0x1FB4),
    (0x1FB6, 0x1FBC), (0x1FBE, 0x1FBE), (0x1FC2, 0x1FC4), (0x1FC6, 0x1FCC), (0x1FD0, 0x1FD3),
    (0x1FD6, 0x1FDB), (0x1FE0, 0x1FEC), (0x1FF2, 0x1FF4), (0x1FF6, 0x1FFC), (0x2126, 0x2126),
    (0x212A, 0x212B), (0x212E, 0x212E), (0x2180, 0x2182), (0x3007, 0x3007), (0x3021, 0x3029),
    (0x3041, 0x3094), (0x30A1, 0x30FA), (0x3105, 0x312C), (0x4E00, 0x9FA5), (0xAC00, 0xD7A3)]

/-- Digits, combining characters and extenders beyond ASCII. -/
def combiningRanges : List (ℕ × ℕ) :=
  [(0xB7, 0xB7), (0x2D0, 0x2D1), (0x300, 0x345), (0x360, 0x361), (0x387, 0x387), (0x483, 0x486),
    (0x591, 0x5A1), (0x5A3, 0x5B9), (0x5BB, 0x5BD), (0x5BF, 0x5BF), (0x5C1, 0x5C2), (0x5C4, 0x5C4),
    (0x640, 0x640), (0x64B, 0x652), (0x660, 0x669), (0x670, 0x670), (0x6D6, 0x6E4), (0x6E7, 0x6E8),
    (0x6EA, 0x6ED), (0x6F0, 0x6F9), (0x901, 0x903), (0x93C, 0x93C), (0x93E, 0x94D), (0x951, 0x954),
    (0x962, 0x963), (0x966, 0x96F), (0x981, 0x983), (0x9BC, 0x9BC), (0x9BE, 0x9C4), (0x9C7, 0x9C8),
    (0x9CB, 0x9CD), (0x9D7, 0x9D7), (0x9E2, 0x9E3), (0x9E6, 0x9EF), (0xA02, 0xA02), (0xA3C, 0xA3C),
    (0xA3E, 0xA42), (0xA47, 0xA48), (0xA4B, 0xA4D), (0xA66, 0xA71), (0xA81, 0xA83), (0xABC, 0xABC),
    (0xABE, 0xAC5), (0xAC7, 0xAC9), (0xACB, 0xACD), (0xAE6, 0xAEF), (0xB01, 0xB03), (0xB3C, 0xB3C),
    (0xB3E, 0xB43), (0xB47, 0xB48), (0xB4B, 0xB4D), (0xB56, 0xB57), (0xB66, 0xB6F), (0xB82, 0xB83),
    (0xBBE, 0xBC2), (0xBC6, 0xBC8), (0xBCA, 0xBCD), (0xBD7, 0xBD7), (0xBE7, 0xBEF), (0xC01, 0xC03),
    (0xC3E, 0xC44), (0xC46, 0xC48), (0xC4A, 0xC4D), (0xC55, 0xC56), (0xC66, 0xC6F), (0xC82, 0xC83),
    (0xCBE, 0xCC4), (0xCC6, 0xCC8), (0xCCA, 0xCCD), (0xCD5, 0xCD6), (0xCE6, 0xCEF), (0xD02, 0xD03),
    (0xD3E, 0xD43), (0xD46, 0xD48), (0xD4A, 0xD4D), (0xD57, 0xD57), (0xD66, 0xD6F), (0xE31, 0xE31),
    (0xE34, 0xE3A), (0xE46, 0xE4E), (0xE50, 0xE59), (0xEB1, 0xEB1), (0xEB4, 0xEB9), (0xEBB, 0xEBC),
    (0xEC6, 0xEC6), (0xEC8, 0xECD), (0xED0, 0xED9), (0xF18, 0xF19), (0xF20, 0xF29), (0xF35, 0xF35),
    (0xF37, 0xF37), (0xF39, 0xF39), (0xF3E, 0xF3F), (0xF71, 0xF84), (0xF86, 0xF8B), (0xF90, 0xF95),
    (0xF97, 0xF97), (0xF99, 0xFAD), (0xFB1, 0xFB7), (0xFB9, 0xFB9), (0x20D0, 0x20DC),
    (0x20E1, 0x20E1), (0x3005, 0x3005), (0x302A, 0x302F), (0x3031, 0x3035), (0x3099, 0x309A),
    (0x309D, 0x309E), (0x30FC, 0x30FE)]

def inRanges (rs : List (ℕ × ℕ)) (c : Char) : Bool :=
  0x80 ≤ c.toNat && rs.any fun r => between r.1 r.2 c

def isNameStart (c : Char) : Bool :=
  c = ':' || between 0x41 0x5A c || c = '_' || between 0x61 0x7A c || inRanges letterRanges c

def isNameChar (c : Char) : Bool :=
  isNameStart c || c = '-' || c = '.' || between 0x30 0x39 c || inRanges combiningRanges c

def isName : Str → Bool
  | [] => false
  | c :: cs => isNameStart c && cs.all isNameChar

def predefined : List (Str × Char) :=
  [("lt".toList, '<'), ("gt".toList, '>'), ("amp".toList, '&'), ("apos".toList, '\''),
    ("quot".toList, '"')]

def digit (base : ℕ) (c : Char) : Option ℕ :=
  let d :=
    if between 0x30 0x39 c then c.toNat - 0x30
    else if between 0x61 0x66 c then c.toNat - 0x57
    else if between 0x41 0x46 c then c.toNat - 0x37
    else base
  if d < base then some d else none

def number (base : ℕ) (ds : Str) : Option ℕ :=
  ds.foldlM (fun n c => (digit base c).map fun d => base * n + d) 0

def charOfCode (n : ℕ) : Option Char :=
  if n.isValidChar ∧ isChar (Char.ofNat n) then some (Char.ofNat n) else none

/-- What a reference stands for, from the text between `&` and `;`. -/
def refChar : Str → Option Char
  | '#' :: 'x' :: ds => if ds = [] then none else (number 16 ds).bind charOfCode
  | '#' :: ds => if ds = [] then none else (number 10 ds).bind charOfCode
  | body => predefined.lookup body

/-- Whether some reference body begins this way. -/
def isRefPrefix : Str → Bool
  | '#' :: 'x' :: ds => ds.all fun c => (digit 16 c).isSome
  | '#' :: ds => ds.all fun c => (digit 10 c).isSome
  | body => predefined.any fun p => body.isPrefixOf p.1

/-! ## The XML declaration -/

/-- White space, `key = "value"`, and what follows it. -/
def pseudoAttr (key body : Str) : Option (Str × Str) := do
  guard (body.head?.any isSpace)
  let body := body.dropWhile isSpace
  guard (key.isPrefixOf body)
  let body := (body.drop key.length).dropWhile isSpace
  guard (body.head? = some '=')
  match body.tail.dropWhile isSpace with
  | [] => none
  | q :: body =>
      guard (q = '"' ∨ q = '\'')
      let value := body.takeWhile (· ≠ q)
      guard (value.length < body.length)
      some (value, body.drop (value.length + 1))

def isVersion : Str → Bool
  | '1' :: '.' :: ds => ds ≠ [] && ds.all fun c => (digit 10 c).isSome
  | _ => false

def afterStandalone (body : Str) : Str :=
  match pseudoAttr "standalone".toList body with
  | some (v, rest) => if v = "yes".toList ∨ v = "no".toList then rest else body
  | none => body

def afterEncoding (body : Str) : Str :=
  match pseudoAttr "encoding".toList body with
  | some (v, rest) => if v.map Char.toLower = "utf-8".toList then rest else body
  | none => body

/-- The text between `<?xml` and `?>`, for a document in UTF-8. -/
def isDeclaration (body : Str) : Bool :=
  match pseudoAttr "version".toList body with
  | some (v, rest) => isVersion v && (afterStandalone (afterEncoding rest)).all isSpace
  | none => false

/-! ## The reader -/

/-- The start tag being read: its name and the attributes read so far. -/
structure Tag where
  name : Str
  attrs : List (Str × Str)
deriving Repr, DecidableEq

inductive Mode where
  /-- Before or after the root element; `first` when nothing has been read yet. -/
  | outside (first : Bool)
  /-- Directly in an element, after this many closing brackets (two at most). -/
  | content (brackets : ℕ)
  | reference (body : Str)
  /-- After `<`. -/
  | opened (first : Bool)
  /-- After `<!` and the characters seen. -/
  | bang (seen : Str)
  | comment (dashes : ℕ)
  | cdata (brackets : ℕ)
  | target (first : Bool) (name : Str)
  | targetEnd (decl : Bool)
  | instruction (decl : Bool) (body : Str) (question : Bool)
  | startName (name : Str)
  /-- In a start tag, after white space. -/
  | inTag (tag : Tag)
  | attrName (tag : Tag) (attr : Str)
  | attrEq (tag : Tag) (attr : Str)
  | attrQuote (tag : Tag) (attr : Str)
  | attrValue (tag : Tag) (attr : Str) (quote : Char) (value : Str)
  | attrReference (tag : Tag) (attr : Str) (quote : Char) (value : Str) (body : Str)
  | afterValue (tag : Tag)
  /-- After the `/` of an empty-element tag. -/
  | emptyTag (tag : Tag)
  | endName (name : Str)
  | endTag (name : Str)
deriving Repr, DecidableEq

structure Reader where
  mode : Mode
  /-- The open elements, innermost first. -/
  stack : List Str
  /-- Whether the root element has been opened. -/
  seen : Bool
  /-- Whether the last character was a carriage return. -/
  cr : Bool
deriving Repr, DecidableEq

def Reader.init : Reader := ⟨.outside true, [], false, false⟩

/-- The root element is closed. -/
def Reader.closed (r : Reader) : Bool := r.seen && r.stack.isEmpty

/-- The text read so far is a whole document. -/
def Reader.complete (r : Reader) : Bool := r.closed && r.mode == .outside false

/-- Where reading goes on after a piece of markup. -/
def home (stack : List Str) : Mode := if stack = [] then .outside false else .content 0

abbrev Result := Option (Reader × List Token)

def Reader.go (r : Reader) (m : Mode) : Result := some ({ r with mode := m }, [])

def Reader.emit (r : Reader) (m : Mode) (ts : List Token) : Result :=
  some ({ r with mode := m }, ts)

def Reader.startTag (r : Reader) (t : Tag) : Result :=
  some (⟨.content 0, t.name :: r.stack, true, r.cr⟩, [.start t.name t.attrs])

def Reader.emptyElement (r : Reader) (t : Tag) : Result :=
  some (⟨home r.stack, r.stack, true, r.cr⟩, [.start t.name t.attrs, .stop t.name])

def Reader.endTag (r : Reader) (name : Str) : Result :=
  match r.stack with
  | n :: ns => if n = name then some (⟨home ns, ns, r.seen, r.cr⟩, [.stop name]) else none
  | [] => none

def Reader.inContent (r : Reader) (brackets : ℕ) (c : Char) : Result :=
  if c = '<' then r.go (.opened false)
  else if c = '&' then r.go (.reference [])
  else if c = '>' ∧ 2 ≤ brackets then none
  else r.emit (.content (if c = ']' then min 2 (brackets + 1) else 0)) [.char c]

def Reader.inMarkup (r : Reader) (first : Bool) (c : Char) : Result :=
  if c = '/' then if r.stack = [] then none else r.go (.endName [])
  else if c = '!' then r.go (.bang [])
  else if c = '?' then r.go (.target first [])
  else if isNameStart c then
    if r.stack = [] ∧ r.seen then none else r.go (.startName [c])
  else none

def Reader.inBang (r : Reader) (seen : Str) (c : Char) : Result :=
  let seen := seen ++ [c]
  if seen = "--".toList then r.go (.comment 0)
  else if seen = "-".toList then r.go (.bang seen)
  else if r.stack = [] then none
  else if seen = "[CDATA[".toList then r.go (.cdata 0)
  else if seen.isPrefixOf "[CDATA[".toList then r.go (.bang seen)
  else none

def Reader.inCdata (r : Reader) (brackets : ℕ) (c : Char) : Result :=
  if c = ']' then
    if brackets < 2 then r.go (.cdata (brackets + 1)) else r.emit (.cdata 2) [.char ']']
  else if c = '>' ∧ brackets = 2 then r.go (.content 0)
  else r.emit (.cdata 0) (List.replicate brackets (.char ']') ++ [.char c])

/-- The end of a processing instruction's target: whether it is the XML
declaration, which only the very first characters of a document can be. -/
def isDeclTarget (first : Bool) (name : Str) : Option Bool :=
  if name.map Char.toLower = "xml".toList then
    if first ∧ name = "xml".toList then some true else none
  else some false

def Reader.inTarget (r : Reader) (first : Bool) (name : Str) (c : Char) : Result :=
  if name = [] then if isNameStart c then r.go (.target first [c]) else none
  else if isNameChar c then r.go (.target first (name ++ [c]))
  else match isDeclTarget first name with
    | none => none
    | some decl =>
        if isSpace c then r.go (.instruction decl [c] false)
        else if c = '?' then r.go (.targetEnd decl)
        else none

def Reader.inInstruction (r : Reader) (decl : Bool) (body : Str) (question : Bool) (c : Char) :
    Result :=
  if c = '>' ∧ question then
    if decl ∧ !isDeclaration body then none else r.go (home r.stack)
  else
    let body := if question then body ++ ['?'] else body
    if c = '?' then r.go (.instruction decl body true)
    else r.go (.instruction decl (body ++ [c]) false)

/-- What may follow a name or a value in a start tag. -/
def Reader.tagEnd (r : Reader) (t : Tag) (c : Char) : Result :=
  if isSpace c then r.go (.inTag t)
  else if c = '>' then r.startTag t
  else if c = '/' then r.go (.emptyTag t)
  else none

def Reader.inTag (r : Reader) (t : Tag) (c : Char) : Result :=
  if isNameStart c then r.go (.attrName t [c]) else r.tagEnd t c

def Reader.inAttrName (r : Reader) (t : Tag) (attr : Str) (c : Char) : Result :=
  if isNameChar c then r.go (.attrName t (attr ++ [c]))
  else if c = '=' then r.go (.attrQuote t attr)
  else if isSpace c then r.go (.attrEq t attr)
  else none

def Reader.inAttrValue (r : Reader) (t : Tag) (attr : Str) (quote : Char) (value : Str)
    (c : Char) : Result :=
  if c = quote then
    if attr ∈ t.attrs.map Prod.fst then none
    else r.go (.afterValue ⟨t.name, t.attrs ++ [(attr, value)]⟩)
  else if c = '<' then none
  else if c = '&' then r.go (.attrReference t attr quote value [])
  else r.go (.attrValue t attr quote (value ++ [if isSpace c then ' ' else c]))

/-- One character of a reference, with what to do when it is complete. -/
def Reader.inReference (r : Reader) (body : Str) (c : Char) (more : Str → Mode)
    (done : Char → Result) : Result :=
  if c = ';' then (refChar body).bind done
  else if isRefPrefix (body ++ [c]) then r.go (more (body ++ [c]))
  else none

/-- One character, after line ends have been normalised. -/
def Reader.lex (r : Reader) (c : Char) : Result :=
  match r.mode with
  | .outside first =>
      if c = '<' then r.go (.opened first)
      else if isSpace c then r.go (.outside false)
      else none
  | .content brackets => r.inContent brackets c
  | .reference body =>
      r.inReference body c .reference fun d => r.emit (.content 0) [.char d]
  | .opened first => r.inMarkup first c
  | .bang seen => r.inBang seen c
  | .comment 0 => r.go (.comment (if c = '-' then 1 else 0))
  | .comment 1 => r.go (.comment (if c = '-' then 2 else 0))
  | .comment _ => if c = '>' then r.go (home r.stack) else none
  | .cdata brackets => r.inCdata brackets c
  | .target first name => r.inTarget first name c
  | .targetEnd decl => if c = '>' ∧ !decl then r.go (home r.stack) else none
  | .instruction decl body question => r.inInstruction decl body question c
  | .startName name =>
      if isNameChar c then r.go (.startName (name ++ [c])) else r.tagEnd ⟨name, []⟩ c
  | .inTag t => r.inTag t c
  | .attrName t attr => r.inAttrName t attr c
  | .attrEq t attr =>
      if c = '=' then r.go (.attrQuote t attr)
      else if isSpace c then r.go (.attrEq t attr)
      else none
  | .attrQuote t attr =>
      if c = '"' ∨ c = '\'' then r.go (.attrValue t attr c [])
      else if isSpace c then r.go (.attrQuote t attr)
      else none
  | .attrValue t attr quote value => r.inAttrValue t attr quote value c
  | .attrReference t attr quote value body =>
      r.inReference body c (.attrReference t attr quote value) fun d =>
        r.go (.attrValue t attr quote (value ++ [d]))
  | .afterValue t => r.tagEnd t c
  | .emptyTag t => if c = '>' then r.emptyElement t else none
  | .endName name =>
      if isNameStart c || (name ≠ [] && isNameChar c) then r.go (.endName (name ++ [c]))
      else if name = [] then none
      else if c = '>' then r.endTag name
      else if isSpace c then r.go (.endTag name)
      else none
  | .endTag name =>
      if c = '>' then r.endTag name
      else if isSpace c then r.go (.endTag name)
      else none

/-- Both a carriage return and a carriage return with a line feed read as one
line feed. -/
def Reader.step (r : Reader) (c : Char) : Result :=
  if !isChar c then none
  else if c = '\n' ∧ r.cr then some ({ r with cr := false }, [])
  else if c = '\r' then { r with cr := true }.lex '\n'
  else { r with cr := false }.lex c

def Reader.feed (r : Reader) : Str → Result
  | [] => some (r, [])
  | c :: cs => do
      let (r, ts) ← r.step c
      let (r, us) ← r.feed cs
      some (r, ts ++ us)

/-- The text is a whole document, and this is its tree. -/
def Denotes (text : Str) (d : Node) : Prop :=
  ∃ r, Reader.init.feed text = some (r, d.tokens) ∧ r.complete

/-- The tokens of the longest prefix that some document begins with. -/
def Reader.tokens (r : Reader) : Str → List Token
  | [] => []
  | c :: cs =>
      match r.step c with
      | none => []
      | some (r, ts) => ts ++ r.tokens cs

theorem feed_cons_eq_some {r u : Reader} {c : Char} {cs : Str} {ts : List Token}
    (h : r.feed (c :: cs) = some (u, ts)) :
    ∃ s us vs, r.step c = some (s, us) ∧ s.feed cs = some (u, vs) ∧ ts = us ++ vs := by
  simp only [Reader.feed, Option.bind_eq_bind, Option.bind_eq_some_iff, Option.some.injEq,
    Prod.mk.injEq, Prod.exists] at h
  obtain ⟨s, us, hstep, u', vs, hfeed, rfl, rfl⟩ := h
  exact ⟨s, us, vs, hstep, hfeed, rfl⟩

/-- What every step keeps holds at the end, and what every step returns has been
returned all along. -/
theorem feed_invariant {I : Reader → Prop} {Q : Token → Prop} {r u : Reader} {cs : Str}
    {ts : List Token} (hstep : ∀ s, ∀ c ∈ cs, I s → ∀ s' us, s.step c = some (s', us) →
      I s' ∧ ∀ t ∈ us, Q t) (hr : I r) (h : r.feed cs = some (u, ts)) :
    I u ∧ ∀ t ∈ ts, Q t := by
  induction cs generalizing r ts with
  | nil =>
      cases h
      exact ⟨hr, fun t ht => (List.not_mem_nil ht).elim⟩
  | cons c cs ih =>
      obtain ⟨s, us, vs, hone, hfeed, rfl⟩ := feed_cons_eq_some h
      obtain ⟨hs, hus⟩ := hstep r c List.mem_cons_self hr s us hone
      have hrest := ih (fun s' d hd => hstep s' d (List.mem_cons_of_mem c hd)) hs hfeed
      refine ⟨hrest.1, ?_⟩
      intro t ht
      rcases List.mem_append.mp ht with ht | ht
      · exact hus t ht
      · exact hrest.2 t ht

theorem feed_append {r s : Reader} {cs : Str} {ts : List Token} (ds : Str)
    (h : r.feed cs = some (s, ts)) :
    r.feed (cs ++ ds) = (s.feed ds).map fun p => (p.1, ts ++ p.2) := by
  induction cs generalizing r ts with
  | nil =>
      simp only [Reader.feed, Option.some.injEq, Prod.mk.injEq] at h
      obtain ⟨rfl, rfl⟩ := h
      simp
  | cons c cs ih =>
      obtain ⟨r', ts', us, hstep, hfeed, rfl⟩ := feed_cons_eq_some h
      simp only [List.cons_append, Reader.feed, hstep, Option.bind_eq_bind, Option.bind_some,
        ih hfeed]
      cases s.feed ds <;> simp

theorem feed_of_feed_append {r u : Reader} {cs ds : Str} {ts : List Token}
    (h : r.feed (cs ++ ds) = some (u, ts)) :
    ∃ s us vs, r.feed cs = some (s, us) ∧ s.feed ds = some (u, vs) ∧ ts = us ++ vs := by
  induction cs generalizing r ts with
  | nil => exact ⟨r, [], ts, rfl, h, rfl⟩
  | cons c cs ih =>
      simp only [List.cons_append, Reader.feed, Option.bind_eq_bind, Option.bind_eq_some_iff,
        Option.some.injEq, Prod.mk.injEq, Prod.exists] at h ⊢
      obtain ⟨r', ts', hstep, u', us', hfeed, rfl, rfl⟩ := h
      obtain ⟨s, us, vs, h₁, h₂, rfl⟩ := ih hfeed
      exact ⟨s, ts' ++ us, vs, ⟨r', ts', hstep, s, us, h₁, rfl, rfl⟩, h₂,
        (List.append_assoc ..).symm⟩

/-- Reading goes on where a prefix of the text has led. -/
theorem feed_rest {r s u : Reader} {cs ds : Str} {us ts : List Token}
    (hs : r.feed cs = some (s, us)) (h : r.feed (cs ++ ds) = some (u, ts)) :
    ∃ vs, s.feed ds = some (u, vs) ∧ ts = us ++ vs := by
  obtain ⟨s', us', vs, hs', hrest, rfl⟩ := feed_of_feed_append h
  rw [hs, Option.some.injEq, Prod.mk.injEq] at hs'
  obtain ⟨rfl, rfl⟩ := hs'
  exact ⟨vs, hrest, rfl⟩

theorem tokens_of_feed {r s : Reader} {cs : Str} {ts : List Token}
    (h : r.feed cs = some (s, ts)) : r.tokens cs = ts := by
  induction cs generalizing r ts with
  | nil =>
      simp only [Reader.feed, Option.some.injEq, Prod.mk.injEq] at h
      exact h.2
  | cons c cs ih =>
      obtain ⟨r', ts', us, hstep, hfeed, rfl⟩ := feed_cons_eq_some h
      simp only [Reader.tokens, hstep, ih hfeed]

end Stabber.XmlReader
