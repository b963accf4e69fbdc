import Stabber.Stanza
import Stabber.XmlReader
import Mathlib.Data.Int.Notation

/-!
# Parsing a stanza from text

`stanza_parse` and its three handlers, run on the events that Expat reports for
the text. Expat is a parameter: all that is used of it is that it reports the
events of a whole document in document order, cutting character data as it likes.
-/

namespace Stabber.StanzaParse
open XmlDocument XmlReader Stanza

/-- An Expat parser without namespaces that is given one text in a single,
non-final piece. -/
structure Expat where
  report : Str → List Event
  reports_document : ∀ text d, Denotes text d → Reports (report text) d.tokens

/-- The parser that reports every character on its own. -/
def Expat.reference : Expat where
  report text := (Reader.init.tokens text).map Token.event
  reports_document text d h := by
    obtain ⟨r, h, -⟩ := h
    rw [tokens_of_feed h]
    exact reports_map_event d.tokens

/-- A pointer into a tree under construction: the stanza pointed to and its
chain of parents, innermost first. An open stanza is not yet a child of its
parent. -/
structure Cursor where
  node : XMPPStanza
  above : List XMPPStanza
deriving Repr

structure ParseState where
  depth : ℤ
  curr_stanza : Option Cursor
deriving Repr

def startElement (s : ParseState) (element : Str) (attributes : List (Str × Str)) : ParseState :=
  let stanza := stanzaNew element attributes
  let parents := match s.curr_stanza with
    | some c => c.node :: c.above
    | none => []
  ⟨s.depth + 1, some (if s.depth = 0 then ⟨stanza, []⟩ else ⟨stanza, parents⟩)⟩

/-- The end of an element below the root adds the stanza to its parent; the end
of the root leaves the pointer on the root. -/
def endElement (s : ParseState) : Except Fault ParseState :=
  if s.depth - 1 > 0 then
    match s.curr_stanza with
    | some ⟨node, parent :: above⟩ =>
        .ok ⟨s.depth - 1, some ⟨stanzaAddChild parent node, above⟩⟩
    | _ => .error .nullDereference
  else .ok { s with depth := s.depth - 1 }

def appendContent (stanza : XMPPStanza) (text : Str) : XMPPStanza :=
  { stanza with content := some (stanza.content.getD [] ++ text) }

def handleData (s : ParseState) (text : Str) : Except Fault ParseState :=
  match s.curr_stanza with
  | some c => .ok { s with curr_stanza := some { c with node := appendContent c.node text } }
  | none => .error .nullDereference

def handle (s : ParseState) : Event → Except Fault ParseState
  | .start element attributes => .ok (startElement s element attributes)
  | .stop _ => endElement s
  | .data text => handleData s text

/-- The result is the stanza pointed to when the events end. -/
def stanzaParse (E : Expat) (text : Str) : Except Fault (Option XMPPStanza) := do
  let s ← deliver handle ⟨0, none⟩ (E.report text)
  return s.curr_stanza.map Cursor.node

/-! ## What a document becomes -/

def textOf (ks : List Node) : Str := ks.filterMap fun | .char c => some c | .elem .. => none

/-- Content is absent until the first piece of text arrives. -/
def addContent (content : Option Str) (text : Str) : Option Str :=
  if text = [] then content else some (content.getD [] ++ text)

def contentOf (ks : List Node) : Option Str := addContent none (textOf ks)

mutual
/-- The stanza that stands for an element: the text pieces lying directly in it
are joined, and the order between them and the child elements is lost. -/
def stanzaOf : Node → Option XMPPStanza
  | .elem n as ks => some ⟨n, as.map fun a => ⟨a.1, a.2⟩, stanzasOf ks, contentOf ks⟩
  | .char _ => none

def stanzasOf : List Node → List XMPPStanza
  | [] => []
  | k :: ks => (stanzaOf k).toList ++ stanzasOf ks
end

theorem stanzasOf_eq (ks : List Node) : stanzasOf ks = ks.filterMap stanzaOf := by
  induction ks with
  | nil => rfl
  | cons k ks ih =>
      rw [stanzasOf, ih]
      cases h : stanzaOf k <;> simp [h]

@[simp] theorem stanzasOf_append (ks ls : List Node) :
    stanzasOf (ks ++ ls) = stanzasOf ks ++ stanzasOf ls := by
  simp [stanzasOf_eq]

theorem addContent_append (content : Option Str) (s t : Str) :
    addContent (addContent content s) t = addContent content (s ++ t) := by
  by_cases hs : s = [] <;> by_cases ht : t = [] <;> simp [addContent, hs, ht]

/-- A stanza after everything in the forest has been reported inside it. -/
def fill (s : XMPPStanza) (ks : List Node) : XMPPStanza :=
  { s with children := s.children ++ stanzasOf ks, content := addContent s.content (textOf ks) }

theorem fill_nil (s : XMPPStanza) : fill s [] = s := by
  cases s
  simp [fill, stanzasOf, textOf, addContent]

theorem fill_cons (s : XMPPStanza) (k : Node) (ks : List Node) :
    fill (fill s [k]) ks = fill s (k :: ks) := by
  have hs : stanzasOf (k :: ks) = stanzasOf [k] ++ stanzasOf ks := stanzasOf_append [k] ks
  have ht : textOf (k :: ks) = textOf [k] ++ textOf ks := List.filterMap_append (l := [k])
  simp only [fill, hs, ht, List.append_assoc, addContent_append]

theorem fill_stanzaNew (n : Str) (as : List (Str × Str)) (ks : List Node) :
    stanzaOf (.elem n as ks) = some (fill (stanzaNew n as) ks) := by
  simp [stanzaOf, fill, stanzaNew, contentOf]

/-- Handlers that build the tree below an open element: in `inside k c` the
pointer is on `c`, `k` levels below that element. Elements outside `names` may do
something else. -/
structure Builds {σ : Type} (handle : σ → Event → Except Fault σ) (names : Str → Prop)
    (inside : ℕ → Cursor → σ) : Prop where
  start : ∀ k c n as, names n → handle (inside k c) (.start n as) =
    .ok (inside (k + 1) ⟨stanzaNew n as, c.node :: c.above⟩)
  stop : ∀ k node parent above n, handle (inside (k + 1) ⟨node, parent :: above⟩) (.stop n) =
    .ok (inside k ⟨stanzaAddChild parent node, above⟩)
  data : ∀ k c text, handle (inside k c) (.data text) =
    .ok (inside k { c with node := appendContent c.node text })

mutual
/-- The events of a complete node change nothing but the stanza that the pointer
is on. -/
theorem Builds.node {σ : Type} {handle : σ → Event → Except Fault σ} {names : Str → Prop}
    {inside : ℕ → Cursor → σ} (hb : Builds handle names inside) (k : ℕ) (s : XMPPStanza)
    (above : List XMPPStanza) : ∀ d : Node, d.Named names →
      deliver handle (inside k ⟨s, above⟩) (d.tokens.map Token.event) =
        .ok (inside k ⟨fill s [d], above⟩)
  | .elem n as ks, hn => by
      have hchild : stanzaAddChild s (fill (stanzaNew n as) ks) = fill s [.elem n as ks] := by
        simp [stanzaAddChild, fill, stanzasOf, fill_stanzaNew, textOf, addContent]
      have hstop := hb.stop k (fill (stanzaNew n as) ks) s above n
      rw [hchild] at hstop
      rw [Node.events_elem, deliver_cons _ _ (hb.start k ⟨s, above⟩ n as hn.1)]
      exact deliver_trans (hb.forest (k + 1) (stanzaNew n as) (s :: above) ks hn.2)
        (deliver_cons _ [] hstop)
  | .char c, _ => by
      have hfill : appendContent s [c] = fill s [.char c] := by
        simp [appendContent, fill, stanzasOf, stanzaOf, textOf, addContent]
      have hdata := hb.data k ⟨s, above⟩ [c]
      rw [hfill] at hdata
      exact deliver_cons _ [] hdata

theorem Builds.forest {σ : Type} {handle : σ → Event → Except Fault σ} {names : Str → Prop}
    {inside : ℕ → Cursor → σ} (hb : Builds handle names inside) (k : ℕ) (s : XMPPStanza)
    (above : List XMPPStanza) : ∀ ds : List Node, ForestNamed names ds →
      deliver handle (inside k ⟨s, above⟩) ((forestTokens ds).map Token.event) =
        .ok (inside k ⟨fill s ds, above⟩)
  | [], _ => by
      rw [fill_nil]
      rfl
  | d :: ds, hn => by
      rw [forestTokens, List.map_append, ← fill_cons]
      exact deliver_trans (hb.node k s above d hn.1) (hb.forest k (fill s [d]) above ds hn.2)
end

/-! ## `stanza_parse` on a document -/

theorem handleData_append (s : ParseState) (t u : Str) :
    handle s (.data (t ++ u)) = (handle s (.data t)).bind fun s => handle s (.data u) := by
  rcases s with ⟨depth, _ | c⟩
  · rfl
  · simp [handle, handleData, appendContent, Except.bind]

theorem handle_builds :
    Builds handle (fun _ => True) fun k c => ⟨(k : ℤ) + 1, some c⟩ := by
  constructor
  · intro k c n as _
    have hne : (k : ℤ) + 1 ≠ 0 := by omega
    simp [handle, startElement, hne]
  · intro k node parent above n
    have hpos : (0 : ℤ) < (k : ℤ) + 1 := by omega
    simp [handle, endElement, hpos]
  · intro k c text
    rfl

/-- After the events of a whole element the pointer is on it. -/
theorem deliver_document (n : Str) (as : List (Str × Str)) (ks : List Node) :
    deliver handle ⟨0, none⟩ ((Node.elem n as ks).tokens.map Token.event) =
      .ok ⟨0, some ⟨fill (stanzaNew n as) ks, []⟩⟩ := by
  have hinner := handle_builds.forest 0 (stanzaNew n as) [] ks (forestNamed_true ks)
  have hstop : handle ⟨1, some ⟨fill (stanzaNew n as) ks, []⟩⟩ (.stop n) =
      .ok ⟨0, some ⟨fill (stanzaNew n as) ks, []⟩⟩ := rfl
  rw [Node.events_elem]
  exact deliver_trans hinner (deliver_cons _ [] hstop)

/-- A text that is one whole document parses to the stanza of its root. -/
theorem stanzaParse_document (E : Expat) {text : Str} {n : Str} {as : List (Str × Str)}
    {ks : List Node} (h : Denotes text (.elem n as ks)) :
    stanzaParse E text = .ok (some (fill (stanzaNew n as) ks)) := by
  rw [stanzaParse, deliver_reports handleData_append _ (E.reports_document text _ h),
    deliver_document]
  rfl

end Stabber.StanzaParse
