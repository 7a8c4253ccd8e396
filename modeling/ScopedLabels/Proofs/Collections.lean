import Std.Data.HashSet.Lemmas
import Std.Data.ExtTreeMap.Lemmas
import Std.Data.TreeSet.Lemmas
import ScopedLabels.Label.Basic

/-!
# Collections — labels in collections are their texts

Equality, order and hash of labels look at the text alone, so they fit together: labels that compare
as equal are equal, equal labels have one hash, and the order is a total order on texts, that of
unsigned bytes (`Text.compare_eq_lt`). That is what a sorted and a hashed collection need.

Taking labels one after another into a sorted collection keeps, for every text, the first label that
has it (`LabelSet.getElem?_ofList`). From this one fact come the members, the order in which they
are listed, and what is found. A hashed collection may list them otherwise, and is as large
(`Label.length_eq_of_texts`).
-/

namespace ScopedLabels

/-! ## The order of unsigned bytes -/

namespace Text

/-- The first text comes before the second: it is what the second begins with and shorter, or they
    have a beginning in common and then it has the smaller byte. -/
def Precedes (s t : Text) : Prop :=
  (∃ b rest, t = s ++ b :: rest) ∨
    ∃ common b c restS restT, s = common ++ b :: restS ∧ t = common ++ c :: restT ∧
      b.toNat < c.toNat

theorem nil_precedes (b : UInt8) (rest : Text) : Precedes [] (b :: rest) :=
  .inl ⟨b, rest, rfl⟩

/-- Nothing comes before the empty text. -/
theorem not_precedes_nil (s : Text) : ¬ Precedes s [] := by
  rintro (⟨b, rest, h⟩ | ⟨common, b, c, restS, restT, -, h, -⟩)
  · cases s <;> cases h
  · cases common <;> cases h

/-- The first bytes decide, unless they are the same. -/
theorem cons_precedes_cons {b c : UInt8} {s t : Text} :
    Precedes (b :: s) (c :: t) ↔ b.toNat < c.toNat ∨ b = c ∧ Precedes s t := by
  constructor
  · rintro (⟨d, rest, h⟩ | ⟨_ | ⟨d, common⟩, e, f, restS, restT, hs, ht, hlt⟩)
    · cases h
      exact .inr ⟨rfl, .inl ⟨d, rest, rfl⟩⟩
    · cases hs
      cases ht
      exact .inl hlt
    · cases hs
      cases ht
      exact .inr ⟨rfl, .inr ⟨common, e, f, restS, restT, rfl, rfl, hlt⟩⟩
  · rintro (hlt | ⟨rfl, ⟨d, rest, rfl⟩ | ⟨common, e, f, restS, restT, rfl, rfl, hlt⟩⟩)
    · exact .inr ⟨[], b, c, s, t, rfl, rfl, hlt⟩
    · exact .inl ⟨d, rest, rfl⟩
    · exact .inr ⟨b :: common, e, f, restS, restT, rfl, rfl, hlt⟩

/-- Texts are compared in the order of unsigned bytes. -/
theorem compare_eq_lt {s t : Text} : compare s t = .lt ↔ Precedes s t := by
  induction s generalizing t with
  | nil =>
      cases t with
      | nil =>
          constructor
          · intro h
            cases h
          · intro h
            exact absurd h (not_precedes_nil [])
      | cons c t =>
          constructor
          · intro _
            exact nil_precedes c t
          · intro _
            exact List.compare_nil_cons
  | cons b s ih =>
      cases t with
      | nil =>
          constructor
          · intro h
            cases h
          · intro h
            exact absurd h (not_precedes_nil (b :: s))
      | cons c t =>
          rw [List.compare_cons_cons, cons_precedes_cons, Ordering.then_eq_lt, Std.compare_eq_lt,
            UInt8.lt_iff_toNat_lt, Std.compare_eq_iff_eq, ih]

end Text

/-! ## Labels compare as their texts -/

namespace Label

theorem beq_iff {a b : Label} : (a == b) = true ↔ a.text = b.text := by
  show (a.text == b.text) = true ↔ _
  exact beq_iff_eq

theorem compare_eq_iff {a b : Label} : compare a b = .eq ↔ a.text = b.text := by
  show compare a.text b.text = .eq ↔ _
  exact Std.compare_eq_iff_eq

theorem compare_eq_lt {a b : Label} : compare a b = .lt ↔ a.text.Precedes b.text := by
  show compare a.text b.text = .lt ↔ _
  exact Text.compare_eq_lt

instance : Std.TransOrd Label where
  eq_swap {a b} := Std.OrientedOrd.eq_swap (a := a.text) (b := b.text)
  isLE_trans {a b c} := Std.TransOrd.isLE_trans (a := a.text) (b := b.text) (c := c.text)

instance : Std.LawfulBEqOrd Label where
  compare_eq_iff_beq := compare_eq_iff.trans beq_iff.symm

instance : EquivBEq Label where
  rfl := beq_iff.mpr rfl
  symm h := beq_iff.mpr (beq_iff.mp h).symm
  trans h₁ h₂ := beq_iff.mpr ((beq_iff.mp h₁).trans (beq_iff.mp h₂))

theorem hash_eq {a b : Label} (h : (a == b) = true) : hash a = hash b := by
  show hash a.text = hash b.text
  rw [beq_iff.mp h]

instance : LawfulHashable Label where
  hash_eq _ _ := hash_eq

/-! ### A plain text stands for its label -/

section Plain

variable (label : Label) (t : Text)

/-- A label is compared with a plain text as with the label of that text. -/
theorem eqText_eq : label.eqText t = (label == ofText t) := by
  show (label.text == t) = (label.text == (ofText t).text)
  rw [text_ofText]

theorem textEq_eq : textEq t label = (ofText t == label) := by
  show (t == label.text) = ((ofText t).text == label.text)
  rw [text_ofText]

/-- A label is ordered against a plain text as against the label of that text. -/
theorem compareText_eq : label.compareText t = compare label (ofText t) := by
  show compare label.text t = compare label.text (ofText t).text
  rw [text_ofText]

theorem textCompare_eq : textCompare t label = compare (ofText t) label := by
  show compare t label.text = compare (ofText t).text label.text
  rw [text_ofText]

end Plain

end Label

/-! ## The first label of a text -/

namespace LabelSet

/-- A text that is there already keeps its label. -/
theorem getElem?_insert (set : LabelSet) (label : Label) (t : Text) :
    (set.insert label).byText[t]? =
      set.byText[t]?.or (if label.text == t then some label else none) := by
  simp only [insert, Std.ExtTreeMap.getElem?_insertIfNew, Std.compare_eq_iff_eq, beq_iff_eq]
  cases hfound : set.byText[t]? with
  | none =>
      have hnew : t ∉ set.byText := by
        rw [Std.ExtTreeMap.mem_iff_isSome_getElem?, hfound]
        exact Bool.false_ne_true
      rw [Option.none_or]
      by_cases heq : label.text = t
      · rw [if_pos ⟨heq, heq ▸ hnew⟩, if_pos heq]
      · rw [if_neg fun h => heq h.1, if_neg heq]
  | some other =>
      rw [Option.some_or, if_neg]
      rintro ⟨rfl, hnew⟩
      rw [Std.ExtTreeMap.getElem?_eq_none hnew] at hfound
      cases hfound

/-- Labels that are taken one after another. -/
theorem getElem?_foldl (set : LabelSet) (labels : List Label) (t : Text) :
    (labels.foldl insert set).byText[t]? =
      set.byText[t]?.or (labels.find? fun label => label.text == t) := by
  induction labels generalizing set with
  | nil => exact Option.or_none.symm
  | cons label rest ih =>
      rw [List.foldl_cons, ih, getElem?_insert, Option.or_assoc, List.find?_cons]
      cases label.text == t <;> rfl

/-- A collection of labels has the first label of every text. -/
theorem getElem?_ofList (labels : List Label) (t : Text) :
    (ofList labels).byText[t]? = labels.find? fun label => label.text == t := by
  rw [ofList, getElem?_foldl, Std.ExtTreeMap.getElem?_empty, Option.none_or]

/-- The label under a text has that text. -/
theorem mem_byText {labels : List Label} {t : Text} {label : Label} :
    (t, label) ∈ (ofList labels).byText.toList ↔
      label.text = t ∧ labels.find? (fun other => other.text == label.text) = some label := by
  rw [Std.ExtTreeMap.mem_toList_iff_getElem?_eq_some, getElem?_ofList]
  constructor
  · intro hfound
    obtain rfl : label.text = t := by simpa using List.find?_some hfound
    exact ⟨rfl, hfound⟩
  · rintro ⟨rfl, hfound⟩
    exact hfound

/-- The labels that are listed are those that are found first. -/
theorem mem_toList_iff_find? {labels : List Label} {label : Label} :
    label ∈ (ofList labels).toList ↔
      labels.find? (fun other => other.text == label.text) = some label := by
  rw [toList, List.mem_map]
  constructor
  · rintro ⟨⟨t, _⟩, hmem, rfl⟩
    exact (mem_byText.mp hmem).2
  · intro hfound
    exact ⟨(label.text, label), mem_byText.mpr ⟨rfl, hfound⟩, rfl⟩

/-- A collection of labels has the labels with no other of their text in front. -/
theorem mem_toList {labels : List Label} {label : Label} :
    label ∈ (ofList labels).toList ↔ ∃ before after, labels = before ++ label :: after ∧
      ∀ other ∈ before, other.text ≠ label.text := by
  rw [mem_toList_iff_find?, List.find?_eq_some_iff_append]
  simp

/-- Labels are listed in ascending order. -/
theorem pairwise_toList (labels : List Label) :
    (ofList labels).toList.Pairwise fun a b => compare a b = .lt := by
  rw [toList, List.pairwise_map]
  have hordered := (ofList labels).byText.ordered_keys_toList
  refine hordered.imp_of_mem ?_
  rintro ⟨t, a⟩ ⟨u, b⟩ ha hb hlt
  obtain ⟨rfl, -⟩ := mem_byText.mp ha
  obtain ⟨rfl, -⟩ := mem_byText.mp hb
  exact hlt

/-- Every label has a label of its text in the collection. -/
theorem contains_ofList {labels : List Label} {query : Label} :
    (ofList labels).contains query = true ↔ ∃ label ∈ labels, label.text = query.text := by
  rw [contains, Std.ExtTreeMap.contains_iff_mem, Std.ExtTreeMap.mem_iff_isSome_getElem?,
    getElem?_ofList, List.find?_isSome]
  simp only [beq_iff_eq]

/-- A collection of labels has their texts and no others. -/
theorem text_mem_toList {labels : List Label} {t : Text} :
    t ∈ (ofList labels).toList.map Label.text ↔ t ∈ labels.map Label.text := by
  constructor
  · intro hmem
    obtain ⟨label, hlabel, rfl⟩ := List.mem_map.mp hmem
    obtain ⟨before, after, rfl, -⟩ := mem_toList.mp hlabel
    exact List.mem_map_of_mem (List.mem_append_right before List.mem_cons_self)
  · intro hmem
    obtain ⟨label, hlabel, rfl⟩ := List.mem_map.mp hmem
    have hsome : (labels.find? fun other => other.text == label.text).isSome = true :=
      List.find?_isSome.mpr ⟨label, hlabel, beq_self_eq_true label.text⟩
    obtain ⟨first, hfirst⟩ := Option.isSome_iff_exists.mp hsome
    have htext : first.text = label.text := by simpa using List.find?_some hfirst
    have hkept : (first.text, first) ∈ (ofList labels).byText.toList :=
      mem_byText.mpr ⟨rfl, htext ▸ hfirst⟩
    exact List.mem_map.mpr ⟨first, List.mem_map.mpr ⟨_, hkept, rfl⟩, htext⟩

end LabelSet

/-! ## How many there are -/

namespace Label

/-- Lists in which every text occurs once at most, and the same texts occur, are equally long. -/
theorem length_eq_of_texts {as bs : List Label} (has : (as.map text).Nodup)
    (hbs : (bs.map text).Nodup) (hsame : ∀ t, t ∈ as.map text ↔ t ∈ bs.map text) :
    as.length = bs.length := by
  have hperm := ((List.perm_ext_iff_of_nodup has hbs).mpr hsame).length_eq
  rwa [List.length_map, List.length_map] at hperm

/-- Labels of which no two are equal have different texts. -/
theorem nodup_of_pairwise {labels : List Label}
    (h : labels.Pairwise fun a b => (a == b) = false) : (labels.map text).Nodup := by
  rw [List.Nodup, List.pairwise_map]
  refine h.imp fun hne heq => ?_
  rw [beq_iff.mpr heq] at hne
  cases hne

/-- A list has a label if it has one of the same text. -/
theorem contains_iff {labels : List Label} {query : Label} :
    labels.contains query = true ↔ ∃ label ∈ labels, label.text = query.text := by
  rw [List.contains_iff_exists_mem_beq]
  exact exists_congr fun _ => and_congr_right fun _ => beq_iff.trans eq_comm

/-- A text is among those of some labels if the label of that text is among the labels. -/
theorem text_mem_iff {labels : List Label} {t : Text} :
    t ∈ labels.map text ↔ labels.contains (ofText t) = true := by
  rw [contains_iff, List.mem_map, text_ofText]

/-- A hashed collection has a label if it was filled with one of the same text. -/
theorem contains_hashSet {labels : List Label} {query : Label} :
    (Std.HashSet.ofList labels).contains query = true ↔
      ∃ label ∈ labels, label.text = query.text := by
  rw [Std.HashSet.contains_ofList, contains_iff]

/-- A hashed collection of labels has their texts and no others. -/
theorem text_mem_toList_hashSet {labels : List Label} {t : Text} :
    t ∈ (Std.HashSet.ofList labels).toList.map text ↔ t ∈ labels.map text := by
  rw [text_mem_iff, text_mem_iff, Std.HashSet.contains_toList, Std.HashSet.contains_ofList]

/-- The first label is kept, and those that are equal to it are removed. -/
theorem distinct_cons (label : Label) (rest : List Label) :
    distinct (label :: rest) = label :: distinct (rest.filter fun other => !(other == label)) :=
  List.eraseDups_cons

/-- Removing repetitions removes no text. -/
theorem text_mem_distinct {labels : List Label} {t : Text} :
    t ∈ (distinct labels).map text ↔ t ∈ labels.map text := by
  match labels with
  | [] => rfl
  | label :: rest =>
      rw [distinct_cons, List.map_cons, List.map_cons, List.mem_cons, List.mem_cons,
        text_mem_distinct]
      constructor
      · rintro (rfl | hmem)
        · exact .inl rfl
        · obtain ⟨other, hother, rfl⟩ := List.mem_map.mp hmem
          exact .inr (List.mem_map_of_mem (List.mem_filter.mp hother).1)
      · rintro (rfl | hmem)
        · exact .inl rfl
        · obtain ⟨other, hother, rfl⟩ := List.mem_map.mp hmem
          by_cases heq : (other == label) = true
          · exact .inl (beq_iff.mp heq)
          · exact .inr (List.mem_map_of_mem (List.mem_filter.mpr ⟨hother, by simp [heq]⟩))
termination_by labels.length
decreasing_by exact Nat.lt_succ_of_le (List.length_filter_le _ rest)

/-- Without repetitions every text occurs once, by recursion on what is left of the list. -/
theorem nodup_distinct (labels : List Label) : ((distinct labels).map text).Nodup := by
  match labels with
  | [] => exact List.nodup_nil
  | label :: rest =>
      rw [distinct_cons, List.map_cons, List.nodup_cons]
      refine ⟨?_, nodup_distinct _⟩
      -- what has the text of the label was removed before
      intro hmem
      obtain ⟨other, hother, htext⟩ := List.mem_map.mp (text_mem_distinct.mp hmem)
      have hne := (List.mem_filter.mp hother).2
      rw [beq_iff.mpr htext] at hne
      cases hne
termination_by labels.length
decreasing_by exact Nat.lt_succ_of_le (List.length_filter_le _ rest)

end Label

namespace LabelSet

/-- In a sorted collection every text occurs once. -/
theorem nodup_toList (labels : List Label) : ((ofList labels).toList.map Label.text).Nodup := by
  rw [List.Nodup, List.pairwise_map]
  refine (pairwise_toList labels).imp fun hlt heq => ?_
  rw [Label.compare_eq_iff.mpr heq] at hlt
  cases hlt

/-- A sorted and a hashed collection of the same labels are equally large. -/
theorem length_toList_eq_size (labels : List Label) :
    (ofList labels).toList.length = (Std.HashSet.ofList labels).size := by
  have hnodup := nodup_toList labels
  have hnodup' := Label.nodup_of_pairwise (Std.HashSet.distinct_toList (m := .ofList labels))
  rw [← Std.HashSet.length_toList]
  refine Label.length_eq_of_texts hnodup hnodup' ?_
  intro t
  rw [text_mem_toList, Label.text_mem_toList_hashSet]

/-- A sorted collection is as large as the list without repetitions. -/
theorem length_toList_eq_distinct (labels : List Label) :
    (ofList labels).toList.length = (Label.distinct labels).length := by
  refine Label.length_eq_of_texts (nodup_toList labels) (Label.nodup_distinct labels) ?_
  intro t
  rw [text_mem_toList, Label.text_mem_distinct]

/-! ## Labels as keys -/

/-- Labels that stand in ascending order are listed in one way only. -/
theorem eq_of_pairwise {as bs : List Label} (has : as.Pairwise fun a b => compare a b = .lt)
    (hbs : bs.Pairwise fun a b => compare a b = .lt) (hsame : ∀ label, label ∈ as ↔ label ∈ bs) :
    as = bs := by
  have hnodup : ∀ {labels : List Label},
      (labels.Pairwise fun a b => compare a b = .lt) → labels.Nodup := by
    intro labels h
    refine h.imp fun hlt heq => ?_
    rw [heq, Std.ReflOrd.compare_self] at hlt
    cases hlt
  have hperm : as.Perm bs := (List.perm_ext_iff_of_nodup (hnodup has) (hnodup hbs)).mpr hsame
  refine List.Perm.eq_of_pairwise ?_ has hbs hperm
  -- no two labels stand before each other
  intro a b _ _ hab hba
  rw [Std.OrientedOrd.eq_swap, hba] at hab
  cases hab

/-- A label is taken into a sorted collection if there is none with its text. -/
theorem mem_treeSet_insert (set : Std.TreeSet Label) (new label : Label) :
    label ∈ (set.insert new).toList ↔
      label ∈ set.toList ∨ label = new ∧ ∀ other ∈ set.toList, other.text ≠ new.text := by
  have hpresent : new ∈ set ↔ ∃ other ∈ set.toList, other.text = new.text := by
    rw [← Std.TreeSet.contains_iff_mem, ← Std.TreeSet.contains_toList, Label.contains_iff]
  rw [Std.TreeSet.toList_insert_perm.mem_iff]
  split
  · rename_i hmem
    obtain ⟨other, hother, htext⟩ := hpresent.mp hmem
    constructor
    · exact .inl
    · rintro (hold | ⟨-, hnone⟩)
      · exact hold
      · exact absurd htext (hnone other hother)
  · rename_i hmem
    have hnone : ∀ other ∈ set.toList, other.text ≠ new.text := by
      intro other hother htext
      exact hmem (hpresent.mpr ⟨other, hother, htext⟩)
    rw [List.mem_cons, or_comm, and_iff_left hnone]

/-- The labels in a sorted collection, and more that are taken one after another. -/
theorem mem_treeSet_foldl (set : Std.TreeSet Label) (labels : List Label) (label : Label) :
    label ∈ (labels.foldl Std.TreeSet.insert set).toList ↔ label ∈ set.toList ∨
      (∀ other ∈ set.toList, other.text ≠ label.text) ∧
        labels.find? (fun other => other.text == label.text) = some label := by
  induction labels generalizing set with
  | nil => simp
  | cons new rest ih =>
      rw [List.foldl_cons, ih, List.find?_cons]
      simp only [mem_treeSet_insert]
      -- the new label is the first of its text, or there is one already
      by_cases htext : new.text = label.text
      · rw [beq_iff_eq.mpr htext]
        grind
      · rw [beq_eq_false_iff_ne.mpr htext]
        grind

/-- The same labels are kept, in the same order, with the labels for keys. -/
theorem toList_eq_treeSet (labels : List Label) :
    (ofList labels).toList = (labels.foldl Std.TreeSet.insert (∅ : Std.TreeSet Label)).toList := by
  refine eq_of_pairwise (pairwise_toList labels) Std.TreeSet.ordered_toList fun label => ?_
  have hempty : (∅ : Std.TreeSet Label).toList = [] := rfl
  rw [mem_treeSet_foldl, mem_toList_iff_find?, hempty]
  simp

/-! ## Labels collect as texts -/

/-- **LABELS COLLECT AS TEXTS.** A sorted collection that is filled with labels one after another
    lists them in the order of unsigned bytes of their texts, has the texts of the labels and no
    others, and for every text the first label that has it. A hashed collection of the same labels
    is as large. What is found are the labels of those texts, whatever their segments.

    It rests on this: labels are in a total order, in which they are equal just if they are equal
    otherwise, and equal labels have one hash. A plain text stands for its label on either side. -/
theorem keeps_first_of_text (labels : List Label) :
    (ofList labels).toList = (labels.foldl Std.TreeSet.insert (∅ : Std.TreeSet Label)).toList ∧
    (ofList labels).toList.Pairwise (fun a b => a.text.Precedes b.text) ∧
    (∀ t, t ∈ (ofList labels).toList.map Label.text ↔ t ∈ labels.map Label.text) ∧
    (∀ label, label ∈ (ofList labels).toList ↔ ∃ before after, labels = before ++ label :: after ∧
      ∀ other ∈ before, other.text ≠ label.text) ∧
    (ofList labels).toList.length = (Std.HashSet.ofList labels).size ∧
    (ofList labels).toList.length = (Label.distinct labels).length ∧
    (∀ query,
      ((ofList labels).contains query = true ↔ ∃ label ∈ labels, label.text = query.text) ∧
      (Std.HashSet.ofList labels).contains query = (ofList labels).contains query) ∧
    (∀ a b c : Label,
      (compare a b = .lt ↔ a.text.Precedes b.text) ∧
      (compare a b = .eq ↔ (a == b) = true) ∧
      ((a == b) = true ↔ a.text = b.text) ∧
      compare b a = (compare a b).swap ∧
      ((compare a b).isLE = true → (compare b c).isLE = true → (compare a c).isLE = true) ∧
      ((a == b) = true → hash a = hash b)) ∧
    (∀ (a : Label) (t : Text),
      hash a = hash a.text ∧
      a.eqText t = (a == Label.ofText t) ∧
      Label.textEq t a = (Label.ofText t == a) ∧
      a.compareText t = compare a (Label.ofText t) ∧
      Label.textCompare t a = compare (Label.ofText t) a) := by
  have hsorted : (ofList labels).toList.Pairwise fun a b => a.text.Precedes b.text :=
    (pairwise_toList labels).imp Label.compare_eq_lt.mp
  refine ⟨toList_eq_treeSet labels, hsorted, ?texts, ?first, length_toList_eq_size labels,
    length_toList_eq_distinct labels, ?queries, ?order, ?plain⟩
  case texts =>
    intro t
    exact text_mem_toList
  case first =>
    intro label
    exact mem_toList
  case queries =>
    intro query
    refine ⟨contains_ofList, ?_⟩
    rw [Bool.eq_iff_iff, contains_ofList, Label.contains_hashSet]
  case order =>
    intro a b c
    exact ⟨Label.compare_eq_lt, Std.LawfulBEqOrd.compare_eq_iff_beq, Label.beq_iff,
      Std.OrientedOrd.eq_swap, Std.TransOrd.isLE_trans, Label.hash_eq⟩
  case plain =>
    intro a t
    exact ⟨rfl, a.eqText_eq t, a.textEq_eq t, a.compareText_eq t, a.textCompare_eq t⟩

/-- Two labels with one text, of which the first is kept. -/
theorem keeps_first_of_text_segments :
    let segments : Label := ⟨["a", "b"]⟩
    let plain := Label.ofText "a/b"
    let labels := [Label.ofText "b", segments, plain, Label.ofText "a"]
    segments ∈ (ofList labels).toList ∧ plain ∉ (ofList labels).toList ∧
      (Std.HashSet.ofList labels).size = 3 ∧ (ofList labels).contains plain = true ∧
      (compare (Label.ofText "a") (Label.ofText "b")).isLE = true ∧ hash segments = hash plain := by
  intro segments plain labels
  obtain ⟨-, -, -, hfirst, hsize, hdistinct, hcontains, hlaws, -⟩ := keeps_first_of_text labels
  refine ⟨(hfirst segments).mpr ⟨[Label.ofText "b"], _, rfl, by decide⟩, ?_, ?_, ?_, ?_, ?_⟩
  · intro hmem
    obtain ⟨before, after, hlabels, hbefore⟩ := (hfirst plain).mp hmem
    rcases before with _ | ⟨first, _ | ⟨second, rest⟩⟩
    · exact absurd (List.cons.inj hlabels).1 (by decide)
    · exact absurd (List.cons.inj (List.cons.inj hlabels).2).1 (by decide)
    · obtain ⟨rfl, -⟩ := List.cons.inj (List.cons.inj hlabels).2
      exact hbefore segments (by simp) (by decide)
  · rw [← hsize, hdistinct]
    decide +kernel
  · exact (hcontains plain).1.mpr ⟨segments, by simp [labels], by decide⟩
  · exact (hlaws _ segments _).2.2.2.2.1 (by decide) (by decide)
  · exact (hlaws segments plain plain).2.2.2.2.2 (by decide)

end LabelSet

end ScopedLabels
