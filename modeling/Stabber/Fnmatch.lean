import Stabber.Utf8

/-!
# Pattern matching of file names

`fnmatch` with no flags, in the POSIX locale: a star matches any string, a
question mark any character, a bracket expression one character of a set, and a
backslash makes the next character ordinary. Slashes and leading periods are
not special. In this locale, which a program has until it sets another one, a
character is a byte.
-/

namespace Stabber.Fnmatch
open XmlDocument Utf8

inductive Item where
  | range (lo hi : Char)
  | class (name : Str)
deriving Repr, DecidableEq

inductive Piece where
  | literal (c : Char)
  | any
  | many
  | set (negated : Bool) (items : List Item)
deriving Repr, DecidableEq

/-- A character class with a name that there is. -/
def inClass (name : Str) (c : Char) : Option Bool :=
  let n := c.toNat
  let upper := 0x41 ≤ n && n ≤ 0x5A
  let lower := 0x61 ≤ n && n ≤ 0x7A
  let digit := 0x30 ≤ n && n ≤ 0x39
  let graph := 0x21 ≤ n && n ≤ 0x7E
  match String.ofList name with
  | "upper" => some upper
  | "lower" => some lower
  | "alpha" => some (upper || lower)
  | "digit" => some digit
  | "alnum" => some (upper || lower || digit)
  | "xdigit" => some (digit || (0x41 ≤ n && n ≤ 0x46) || (0x61 ≤ n && n ≤ 0x66))
  | "graph" => some graph
  | "print" => some (graph || n = 0x20)
  | "punct" => some (graph && !(upper || lower || digit))
  | "blank" => some (n = 0x20 || n = 0x09)
  | "space" => some (n = 0x20 || (0x09 ≤ n && n ≤ 0x0D))
  | "cntrl" => some (n < 0x20 || n = 0x7F)
  | _ => none

def Item.accepts (c : Char) : Item → Option Bool
  | .range lo hi => some (lo ≤ c && c ≤ hi)
  | .class name => inClass name c

/-- The items are looked at until one has the character. An unknown class among them ends
the matching. -/
def anyAccepts (c : Char) : List Item → Option Bool
  | [] => some false
  | item :: items => do
      if ← item.accepts c then some true else anyAccepts c items

def Piece.accepts (c : Char) : Piece → Bool
  | .literal d => c = d
  | .any => true
  | .many => false
  | .set negated items => anyAccepts c items = some !negated

/-- The text before `stop` and `]`, and what follows the bracket. -/
def upTo (stop : Char) : Str → Option (Str × Str)
  | [] => none
  | c :: cs =>
      if c = stop ∧ cs.head? = some ']' then some ([], cs.tail)
      else (upTo stop cs).map fun p => (c :: p.1, p.2)

/-- One character of a bracket expression, where a backslash quotes the next. It may be
written as a collating symbol. -/
def setChar : Str → Option (Char × Str)
  | '[' :: '.' :: c :: '.' :: ']' :: cs => some (c, cs)
  | '\\' :: c :: cs => some (c, cs)
  | c :: cs => some (c, cs)
  | [] => none

/-- A character or a range of characters. -/
def setRange (cs : Str) : Option (Item × Str) := do
  let (lo, rest) ← setChar cs
  if rest.head? = some '-' ∧ rest.tail.head? ≠ some ']' then
    let (hi, rest) ← setChar rest.tail
    some (.range lo hi, rest)
  else some (.range lo lo, rest)

def setItem : Str → Option (Item × Str)
  | '[' :: ':' :: rest =>
      match upTo ':' rest with
      | some (name, after) =>
          if name.all fun c => 'a' ≤ c && c ≤ 'z' then some (.class name, after)
          else setRange ('[' :: ':' :: rest)
      | none => setRange ('[' :: ':' :: rest)
  | '[' :: '=' :: c :: '=' :: ']' :: rest => some (.range c c, rest)
  | cs => setRange cs

/-- The rest of a bracket expression; a closing bracket that comes `first` is an
ordinary character. An expression without an end is none. -/
def setItems : ℕ → Bool → Str → Option (List Item × Str)
  | 0, _, _ => none
  | fuel + 1, first, cs =>
      if cs.head? = some ']' ∧ !first then some ([], cs.tail)
      else do
        let (item, rest) ← setItem cs
        let (items, rest) ← setItems fuel false rest
        some (item :: items, rest)

def setPiece (cs : Str) : Option (Piece × Str) :=
  let negated := cs.head? = some '!' || cs.head? = some '^'
  let rest := if negated then cs.tail else cs
  (setItems (rest.length + 1) true rest).map fun p => (.set negated p.1, p.2)

/-- The pieces of a pattern; a pattern that ends in a lone backslash has none. A
bracket that opens no bracket expression is an ordinary character. -/
def pieces : ℕ → Str → Option (List Piece)
  | _, [] => some []
  | 0, _ => none
  | fuel + 1, c :: cs =>
      match c with
      | '*' => (pieces fuel cs).map (.many :: ·)
      | '?' => (pieces fuel cs).map (.any :: ·)
      | '\\' =>
          match cs with
          | [] => none
          | d :: ds => (pieces fuel ds).map (.literal d :: ·)
      | '[' =>
          match setPiece cs with
          | some (p, rest) => (pieces fuel rest).map (p :: ·)
          | none => (pieces fuel cs).map (.literal '[' :: ·)
      | c => (pieces fuel cs).map (.literal c :: ·)

def matchPieces : List Piece → Str → Bool
  | [], s => s.isEmpty
  | .many :: ps, s => s.tails.any (matchPieces ps)
  | p :: ps, c :: s => p.accepts c && matchPieces ps s
  | _ :: _, [] => false

def matchChars (pattern string : Str) : Bool :=
  match pieces pattern.length pattern with
  | some ps => matchPieces ps string
  | none => false

/-- The bytes of a text, each as a character of its own. -/
def byteChars (s : Str) : Str := (utf8 s).map fun b => Char.ofNat b.toNat

/-- Whether the string matches the pattern, which is when the C function returns 0. -/
def fnmatch (pattern string : Str) : Bool := matchChars (byteChars pattern) (byteChars string)

example : fnmatch "[!a-c]x\\*".toList "dx*".toList = true := by decide
example : fnmatch "[[.-.]-_x][[:digit:]a]".toList "^7".toList = true := by decide
example : fnmatch "?".toList "é".toList = false := by decide

end Stabber.Fnmatch
