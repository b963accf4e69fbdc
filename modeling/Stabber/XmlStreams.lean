import Stabber.XmlClosing
import Stabber.XmlContext

/-!
# Streams of documents

A text that has opened its root element and written documents in it, one after the
other. What a reader makes of such a stream is the documents in order, with characters
between them at most, before the end tag of the root and with it.
-/

namespace Stabber.XmlStreams
open XmlDocument XmlReader XmlNesting XmlTree XmlContext XmlClosing

/-- The text opens an element, and these nodes are directly in it, with characters
around them at most. -/
def OpenStream (text root : Str) (ds : List Node) : Prop :=
  ∃ k cr as us, Reader.init.feed text = some (⟨.content k, [root], true, cr⟩, .start root as :: us) ∧
    innerTokens 0 us = forestTokens ds ∧ level us = 0

/-- The text closes the element as well. -/
def ClosedStream (text root : Str) (ds : List Node) : Prop :=
  ∃ r as us, Reader.init.feed text = some (r, .start root as :: (us ++ [.stop root])) ∧
    r.complete = true ∧ innerTokens 0 us = forestTokens ds

theorem OpenStream.document {text root t : Str} {ds : List Node} {d : Node}
    (h : OpenStream text root ds) (ht : Denotes t d) (hd : ¬ Declares t) :
    OpenStream (text ++ t) root (ds ++ [d]) := by
  obtain ⟨k, cr, as, us, hfeed, hinner, hlevel⟩ := h
  obtain ⟨k', cr', vs, hdoc, hvs, hzero⟩ := feed_document
    (s := ⟨.content k, [root], true, cr⟩) rfl (List.cons_ne_nil _ _) rfl ht hd
  refine ⟨k', cr', as, us ++ vs, ?_, ?_, ?_⟩
  · rw [feed_append t hfeed, hdoc]
    rfl
  · rw [inner_append, hinner, hlevel, Int.zero_add, hvs, forestTokens_append]
    exact congrArg (forestTokens ds ++ ·) (List.append_nil _).symm
  · rw [level_append, hlevel, hzero, Int.zero_add]

/-- A text, and the document that it is. -/
structure Spelled (t : Str) (d : Node) : Prop where
  denotes : Denotes t d
  undeclared : ¬ Declares t

theorem OpenStream.documents {text root : Str} {ds es : List Node} {texts : List Str}
    (h : OpenStream text root ds) (hall : List.Forall₂ Spelled texts es) :
    OpenStream (text ++ texts.flatten) root (ds ++ es) := by
  induction hall generalizing text ds with
  | nil =>
      rw [List.flatten_nil, List.append_nil, List.append_nil]
      exact h
  | @cons t d texts es ht _ ih =>
      have hnext := ih (h.document ht.denotes ht.undeclared)
      rw [List.append_assoc, List.append_assoc] at hnext
      rw [List.flatten_cons]
      exact hnext

theorem OpenStream.close {text root : Str} {ds : List Node} (h : OpenStream text root ds)
    (hroot : isName root = true) :
    ClosedStream (text ++ ("</".toList ++ root ++ ">".toList)) root ds := by
  obtain ⟨k, cr, as, us, hfeed, hinner, -⟩ := h
  refine ⟨⟨.outside false, [], true, false⟩, as, us, ?_, rfl, hinner⟩
  rw [feed_append _ hfeed, feed_rootEnd (r := ⟨.content k, [root], true, cr⟩) rfl rfl hroot]
  rfl

end Stabber.XmlStreams
