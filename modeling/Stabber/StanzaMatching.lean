import Stabber.Stanzas
import Stabber.TreeEmbedding

/-!
# The matcher decides tree embedding
-/

namespace Stabber.StanzaMatching
open XmlDocument Stanza Stanzas TreeEmbedding

/-- The comparison returns 0 exactly when one map sends all nodes of the template
into the received stanza, root to root and children to children of the image,
so that every node matches. -/
theorem stanzasEqual_iff_embedding (received template : XMPPStanza) :
    stanzasEqual received template = 0 ↔
      ∃ f, Embedding XMPPStanza.children XMPPStanza.children NodeMatches received template f :=
  local_iff_embedding (fun r t => stanzasEqual r t = 0)
    (fun _ step t => t.induction fun name attrs children content ih =>
      step ⟨name, attrs, children, content⟩ ih)
    stanzasEqual_eq_zero received template

end Stabber.StanzaMatching
