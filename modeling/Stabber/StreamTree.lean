import Stabber.StanzaParse
import Stabber.StreamParser

/-!
# The stream parser on trees

The same handlers with stanzas as values: the current stanza is a cursor, and the
parser logs what it receives in place of the calls it makes. A run over a
document shows which stanzas have been received after every prefix of its events.
-/

namespace Stabber.StreamTree
open XmlDocument Stanza StanzaParse StreamParser

inductive Arrival (α : Type) where
  | header
  | stanza (s : α)
deriving Repr

namespace Arrival
variable {α β : Type}

def map (f : α → β) : Arrival α → Arrival β
  | .header => .header
  | .stanza s => .stanza (f s)

def received : Arrival α → Option α
  | .header => none
  | .stanza s => some s

/-- The calls of the parser on an arrival: the pointer it passes on, and the
stanza that the pointer shows. -/
def calls (pointer : α → β) (view : α → XMPPStanza) : Arrival α → List (Call β)
  | .header => [.streamStart]
  | .stanza s => .add (pointer s) :: dispatch (pointer s) (view s)

end Arrival

structure TreeParser where
  depth : ℤ
  curr_stanza : Option Cursor
  arrivals : List (Arrival XMPPStanza)
deriving Repr

namespace TreeParser

def init (s : TreeParser) : TreeParser := { s with depth := 0 }

/-- The parents of a stanza that starts now. -/
def parents (s : TreeParser) : List XMPPStanza :=
  if s.depth = 0 then []
  else match s.curr_stanza with
    | some c => c.node :: c.above
    | none => []

def isStreamName (n : Str) : Prop := n = "stream:stream".toList

instance (n : Str) : Decidable (isStreamName n) := inferInstanceAs (Decidable (n = _))

def header {α : Type} (element : Str) : List (Arrival α) :=
  if isStreamName element then [.header] else []

@[simp] theorem header_of_not {α : Type} {n : Str} (h : ¬ isStreamName n) :
    (header n : List (Arrival α)) = [] := if_neg h

theorem header_stream {α : Type} :
    (header "stream:stream".toList : List (Arrival α)) = [.header] := if_pos rfl

def startElement (s : TreeParser) (element : Str) (attributes : List (Str × Str)) : TreeParser :=
  ⟨s.depth + 1, some ⟨stanzaNew element attributes, s.parents⟩, s.arrivals ++ header element⟩

def cursorOn : List XMPPStanza → Option Cursor
  | [] => none
  | s :: above => some ⟨s, above⟩

def endElement (s : TreeParser) : Except Fault TreeParser :=
  if s.depth - 1 > 1 then
    match s.curr_stanza with
    | some ⟨node, parent :: above⟩ =>
        .ok { s with depth := s.depth - 1, curr_stanza := some ⟨stanzaAddChild parent node, above⟩ }
    | _ => .error .nullDereference
  else if s.depth - 1 = 1 then
    match s.curr_stanza with
    | some ⟨node, above⟩ =>
        .ok ⟨s.depth - 1, cursorOn above, s.arrivals ++ [.stanza node]⟩
    | none => .error .nullDereference
  else .ok { s with depth := s.depth - 1 }

def handleData (s : TreeParser) (text : Str) : Except Fault TreeParser :=
  if s.depth > 1 then
    match s.curr_stanza with
    | some c => .ok { s with curr_stanza := some { c with node := appendContent c.node text } }
    | none => .error .nullDereference
  else .ok s

def handle (s : TreeParser) : Event → Except Fault TreeParser
  | .start element attributes => .ok (startElement s element attributes)
  | .stop _ => endElement s
  | .data text => handleData s text

/-! ## Single events -/

theorem handle_cut (s : TreeParser) (t u : Str) :
    handle s (.data (t ++ u)) = (handle s (.data t)).bind fun s => handle s (.data u) := by
  unfold handle handleData
  by_cases hd : s.depth > 1
  · cases hc : s.curr_stanza with
    | none => simp [hd, Except.bind]
    | some c => simp [hd, Except.bind, appendContent]
  · simp [hd, Except.bind]

theorem handle_depth {s s' : TreeParser} (t : Token) (h : s.handle t.event = .ok s') :
    s'.depth = s.depth + t.level := by
  cases t with
  | start n as =>
      cases h
      rfl
  | stop n =>
      change s.endElement = .ok s' at h
      unfold endElement at h
      split_ifs at h with h₁ h₂
      · split at h
        · cases h
          rfl
        · cases h
      · split at h
        · cases h
          rfl
        · cases h
      · cases h
        rfl
  | char c =>
      change s.handleData [c] = .ok s' at h
      unfold handleData at h
      rw [Token.level, Int.add_zero]
      split_ifs at h
      · split at h
        · cases h
          rfl
        · cases h
      · cases h
        rfl

theorem deliver_depth {s s' : TreeParser} {ts : List Token}
    (h : deliver handle s (ts.map Token.event) = .ok s') : s'.depth = s.depth + level ts := by
  induction ts generalizing s with
  | nil =>
      cases h
      exact (Int.add_zero _).symm
  | cons t ts ih =>
      rw [List.map_cons, deliver] at h
      cases hs : s.handle t.event with
      | error f =>
          rw [hs] at h
          cases h
      | ok u =>
          rw [hs] at h
          rw [ih h, handle_depth t hs, level_cons, Int.add_assoc]

/-- What has arrived stays in the log. -/
theorem handle_arrivals {s s' : TreeParser} {e : Event} (h : s.handle e = .ok s') :
    s.arrivals <+: s'.arrivals := by
  cases e with
  | start n as =>
      cases h
      exact List.prefix_append _ _
  | stop n =>
      change s.endElement = .ok s' at h
      unfold endElement at h
      split_ifs at h with h₁ h₂
      · split at h
        · cases h
          exact List.prefix_rfl
        · cases h
      · split at h
        · cases h
          exact List.prefix_append _ _
        · cases h
      · cases h
        exact List.prefix_rfl
  | data t =>
      change s.handleData t = .ok s' at h
      unfold handleData at h
      split_ifs at h
      · split at h
        · cases h
          exact List.prefix_rfl
        · cases h
      · cases h
        exact List.prefix_rfl

theorem deliver_arrivals {s s' : TreeParser} {es : List Event}
    (h : deliver handle s es = .ok s') : s.arrivals <+: s'.arrivals := by
  induction es generalizing s with
  | nil =>
      cases h
      exact List.prefix_rfl
  | cons e es ih =>
      rw [deliver] at h
      cases hs : s.handle e with
      | error f =>
          rw [hs] at h
          cases h
      | ok t =>
          rw [hs] at h
          exact (handle_arrivals hs).trans (ih h)

/-! ## Stanzas -/

/-- Below the root's children the handlers build the tree and log nothing. -/
theorem handle_builds (log : List (Arrival XMPPStanza)) :
    Builds handle (fun n => ¬ isStreamName n) fun k c => ⟨(k : ℤ) + 2, some c, log⟩ := by
  constructor
  · intro k c n as hn
    have hne : (k : ℤ) + 2 ≠ 0 := by omega
    have hd : (k : ℤ) + 2 + 1 = ((k + 1 : ℕ) : ℤ) + 2 := by omega
    simp [handle, startElement, parents, hne, hn, hd]
  · intro k node parent above n
    have hd : ((k + 1 : ℕ) : ℤ) + 2 - 1 = (k : ℤ) + 2 := by omega
    have hpos : (k : ℤ) + 2 > 1 := by omega
    simp only [handle, endElement, hd]
    rw [if_pos hpos]
  · intro k c text
    have hpos : (k : ℤ) + 2 > 1 := by omega
    simp only [handle, handleData]
    rw [if_pos hpos]

/-- The state between two stanzas. -/
def between (root : XMPPStanza) (log : List (Arrival XMPPStanza)) : TreeParser :=
  ⟨1, some ⟨root, []⟩, log⟩

variable (root : XMPPStanza) (log : List (Arrival XMPPStanza))

theorem deliver_child (k : Node) (hk : k.Named fun n => ¬ isStreamName n) :
    deliver handle (between root log) (k.tokens.map Token.event) =
      .ok (between root (log ++ (stanzaOf k).toList.map .stanza)) := by
  cases k with
  | elem n as ks =>
      have hstart : handle (between root log) (.start n as) =
          .ok ⟨2, some ⟨stanzaNew n as, [root]⟩, log⟩ := by
        simp [handle, startElement, between, parents, hk.1]
      have hinner := (handle_builds log).forest 0 (stanzaNew n as) [root] ks hk.2
      have hstop : handle ⟨2, some ⟨fill (stanzaNew n as) ks, [root]⟩, log⟩ (.stop n) =
          .ok (between root (log ++ (stanzaOf (.elem n as ks)).toList.map .stanza)) := by
        rw [fill_stanzaNew]
        rfl
      rw [Node.events_elem, deliver_cons _ _ hstart]
      exact deliver_trans hinner (deliver_cons _ [] hstop)
  | char c =>
      change Except.ok (between root log) = _
      rw [show (stanzaOf (.char c)).toList.map Arrival.stanza = [] from rfl, List.append_nil]

/-- Inside a stanza that is not complete nothing arrives. -/
theorem deliver_partial (k : Node) (hk : k.Named fun n => ¬ isStreamName n) {us : List Token}
    (hu : us <+: k.tokens) (hlen : us.length < k.tokens.length) :
    ∃ s, deliver handle (between root log) (us.map Token.event) = .ok s ∧ s.arrivals = log := by
  cases k with
  | elem n as ks =>
      rcases List.prefix_cons_iff.mp hu with rfl | ⟨vs, rfl, hv⟩
      · exact ⟨_, rfl, rfl⟩
      · have hstart : handle (between root log) (.start n as) =
            .ok ⟨2, some ⟨stanzaNew n as, [root]⟩, log⟩ := by
          simp [handle, startElement, between, parents, hk.1]
        have hforest : vs <+: forestTokens ks := by
          apply List.prefix_of_prefix_length_le hv (List.prefix_append _ _)
          simp only [Node.tokens, List.length_cons, List.length_append, List.length_nil] at hlen
          omega
        obtain ⟨ws, hws⟩ := hforest
        have hinner := (handle_builds log).forest 0 (stanzaNew n as) [root] ks hk.2
        rw [← hws, List.map_append] at hinner
        obtain ⟨s, hs, hrest⟩ := deliver_of_append hinner
        refine ⟨s, ?_, ?_⟩
        · rw [List.map_cons]
          exact (deliver_cons _ _ hstart).trans hs
        · have hle : log <+: s.arrivals := deliver_arrivals hs
          have hge : s.arrivals <+: log := deliver_arrivals hrest
          exact hge.eq_of_length_le hle.length_le
  | char c =>
      have hnil : us = [] := by
        simp only [Node.tokens, List.length_cons, List.length_nil] at hlen
        exact List.length_eq_zero_iff.mp (by omega)
      subst hnil
      exact ⟨_, rfl, rfl⟩

end TreeParser

/-! ## A whole stream -/

/-- The nodes that lie completely within the first `n` tokens. -/
def closedWithin : List Node → ℕ → List Node
  | [], _ => []
  | k :: ks, n =>
      if k.tokens.length ≤ n then k :: closedWithin ks (n - k.tokens.length) else []

theorem closedWithin_all (ks : List Node) {n : ℕ} (h : (forestTokens ks).length ≤ n) :
    closedWithin ks n = ks := by
  induction ks generalizing n with
  | nil => rfl
  | cons k ks ih =>
      rw [forestTokens, List.length_append] at h
      rw [closedWithin, if_pos (by omega), ih (by omega)]

namespace TreeParser
variable (root : XMPPStanza) (log : List (Arrival XMPPStanza))

theorem deliver_children (ks : List Node) (hk : ForestNamed (fun n => ¬ isStreamName n) ks)
    {us : List Token} (hu : us <+: forestTokens ks) :
    ∃ s, deliver handle (between root log) (us.map Token.event) = .ok s ∧
      s.arrivals = log ++ (stanzasOf (closedWithin ks us.length)).map .stanza := by
  induction ks generalizing log us with
  | nil =>
      rw [List.prefix_nil.mp hu]
      exact ⟨_, rfl, (List.append_nil _).symm⟩
  | cons k ks ih =>
      rcases prefix_append_cases hu with ⟨hpart, hlen⟩ | ⟨vs, rfl, hv⟩
      · obtain ⟨s, hs, hlog⟩ := deliver_partial root log k hk.1 hpart hlen
        refine ⟨s, hs, ?_⟩
        rw [closedWithin, if_neg (by omega), hlog]
        exact (List.append_nil _).symm
      · obtain ⟨s, hs, hlog⟩ := ih (log ++ (stanzaOf k).toList.map .stanza) hk.2 hv
        refine ⟨s, ?_, ?_⟩
        · rw [List.map_append]
          exact deliver_trans (deliver_child root log k hk.1) hs
        · rw [closedWithin, if_pos (by simp), hlog, List.length_append, Nat.add_sub_cancel_left,
            stanzasOf, List.map_append, List.append_assoc]

theorem deliver_complete (ks : List Node) (hk : ForestNamed (fun n => ¬ isStreamName n) ks) :
    deliver handle (between root log) ((forestTokens ks).map Token.event) =
      .ok (between root (log ++ (stanzasOf ks).map .stanza)) := by
  induction ks generalizing log with
  | nil =>
      rw [stanzasOf, List.map_nil, List.append_nil]
      rfl
  | cons k ks ih =>
      rw [forestTokens, stanzasOf, List.map_append, List.map_append, ← List.append_assoc]
      exact deliver_trans (deliver_child root log k hk.1) (ih _ hk.2)

/-- The children of the root that a prefix of the stream's tokens has closed. -/
theorem deliver_stream (s : TreeParser) (hs : s.depth = 0) (as : List (Str × Str))
    (ks : List Node) (hk : ForestNamed (fun n => ¬ isStreamName n) ks) {us : List Token}
    (hu : us <+: forestTokens ks ++ [.stop "stream:stream".toList]) :
    ∃ s', deliver handle s (.start "stream:stream".toList as :: us.map Token.event) = .ok s' ∧
      s'.arrivals =
        s.arrivals ++ .header :: (stanzasOf (closedWithin ks us.length)).map .stanza := by
  have hstart : handle s (.start "stream:stream".toList as) =
      .ok (between (stanzaNew "stream:stream".toList as) (s.arrivals ++ [.header])) := by
    have hparents : s.parents = [] := if_pos hs
    rw [handle, startElement, header_stream, hparents, hs]
    rfl
  rw [deliver_cons _ _ hstart]
  rcases prefix_append_cases hu with ⟨hpart, _⟩ | ⟨vs, rfl, hv⟩
  · obtain ⟨s', hs', hlog⟩ := deliver_children _ _ ks hk hpart
    refine ⟨s', hs', ?_⟩
    rw [hlog, List.append_assoc]
    rfl
  · have hall := deliver_complete (stanzaNew "stream:stream".toList as)
      (s.arrivals ++ [.header]) ks hk
    rw [closedWithin_all ks (by simp), List.map_append]
    rw [List.append_assoc] at hall
    rcases List.prefix_cons_iff.mp hv with rfl | ⟨ws, rfl, hw⟩
    · exact ⟨_, deliver_trans hall rfl, rfl⟩
    · rw [List.prefix_nil.mp hw]
      exact ⟨_, deliver_trans hall rfl, rfl⟩

end TreeParser

end Stabber.StreamTree
