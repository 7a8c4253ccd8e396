import ScopedLabels.Text
import Std.Data.ExtTreeMap

/-!
# Labels — hierarchical identifiers

A `Label` is the list of its segments, and its `text` is the segments joined by the separator.
Everything that compares labels looks at the text alone: equality, order and hash are those of the
byte string, so a label stands for the equal plain text wherever one is expected. Two labels with
one text may still have different segments (`["a/b"]` and `["a", "b"]`).

`LabelSet` is a sorted collection of labels by text. The first label of a text stays; a later one
with the same text is not taken.
-/

namespace ScopedLabels

/-- The segments from the outermost scope to the innermost. -/
abbrev Path := List Text

/-- The segments joined by the separator. -/
def Path.text (path : Path) : Text :=
  Text.join Text.slash path

/-- A hierarchical identifier. -/
structure Label where
  /-- Its segments, outermost first. -/
  parts : Path
deriving DecidableEq

namespace Label

/-- The label whose only segment is `text`, taken verbatim. -/
def ofText (text : Text) : Label := ⟨[text]⟩

/-- The canonical text: the segments joined by the separator. -/
def text (label : Label) : Text :=
  label.parts.text

@[simp] theorem text_ofText (t : Text) : (ofText t).text = t :=
  Text.join_singleton Text.slash t

/-! ## Equality, order and hash

All three read the text only, also when one side is a plain text. -/

instance : BEq Label := ⟨fun a b => a.text == b.text⟩

instance : Ord Label := ⟨fun a b => compare a.text b.text⟩

instance : Hashable Label := ⟨fun a => hash a.text⟩

/-- Does the label equal a plain text? -/
def eqText (label : Label) (t : Text) : Bool :=
  label.text == t

/-- The order of the label against a plain text. -/
def compareText (label : Label) (t : Text) : Ordering :=
  compare label.text t

/-- Does a plain text equal the label? -/
def textEq (t : Text) (label : Label) : Bool :=
  t == label.text

/-- The order of a plain text against the label. -/
def textCompare (t : Text) (label : Label) : Ordering :=
  compare t label.text

/-- The labels without later repetitions, by equality of labels. -/
def distinct (labels : List Label) : List Label :=
  labels.eraseDups

end Label

/-! ## Sorted collections -/

/-- Labels sorted by text, at most one for each text. -/
structure LabelSet where
  byText : Std.ExtTreeMap Text Label := ∅

namespace LabelSet

/-- Take the label, unless one with the same text is there already. -/
def insert (set : LabelSet) (label : Label) : LabelSet :=
  ⟨set.byText.insertIfNew label.text label⟩

/-- Take the labels one after another. -/
def ofList (labels : List Label) : LabelSet :=
  labels.foldl insert {}

/-- The labels in ascending order of their texts. -/
def toList (set : LabelSet) : List Label :=
  set.byText.toList.map Prod.snd

/-- Is there a label with this label's text? -/
def contains (set : LabelSet) (label : Label) : Bool :=
  set.byText.contains label.text

end LabelSet

end ScopedLabels
