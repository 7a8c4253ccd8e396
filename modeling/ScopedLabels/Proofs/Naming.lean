import ScopedLabels.Error
import ScopedLabels.Label.Basic

/-!
# Naming — what a text says about the number or the path it was made from

Two ways of making texts have to be reversible. A counter value is written in decimal, and two
values that are written alike are equal (`ofCount_injective`). A path is joined by the separator,
and two *proper* paths, which are those of at least one segment and with no separator inside a
segment, are equal when their texts are (`Path.Proper.eq_of_text_eq`).

Names that pass the check and decimal numbers are both free of the separator, so every path that
is built from such segments is proper. What holds of all paths is that a path in two parts is
written as the two with a separator between them (`Path.text_append`).
-/

namespace ScopedLabels

namespace Text

/-- Is the byte a decimal digit? -/
def isDigit (b : UInt8) : Bool :=
  0x30 ≤ b && b ≤ 0x39

/-- Does the text consist of decimal digits only? -/
def isNumeral (text : Text) : Bool :=
  text.all isDigit

/-! ## Decimal numbers -/

/-- The code of a decimal digit. -/
private theorem toNat_of_isDigit {c : Char} (h : c.isDigit = true) :
    48 ≤ c.toNat ∧ c.toNat ≤ 57 := by
  have hc : 48 ≤ c.val ∧ c.val ≤ 57 := by simpa [Char.isDigit] using h
  exact ⟨UInt32.le_iff_toNat_le.mp hc.1, UInt32.le_iff_toNat_le.mp hc.2⟩

/-- A decimal number is made of digits. -/
theorem isNumeral_ofNat (n : Nat) : (ofNat n).isNumeral = true := by
  rw [isNumeral, List.all_eq_true]
  intro b hb
  obtain ⟨c, hc, rfl⟩ := List.mem_map.mp hb
  obtain ⟨hlow, hhigh⟩ :=
    toNat_of_isDigit (Nat.isDigit_of_mem_toDigits (by decide) (by decide) hc)
  simp only [isDigit, Bool.and_eq_true, decide_eq_true_eq, UInt8.le_iff_toNat_le]
  have hsmall : c.toNat.toUInt8.toNat = c.toNat := by
    simp only [Nat.toUInt8, UInt8.toNat_ofNat']
    omega
  rw [hsmall]
  exact ⟨hlow, hhigh⟩

/-- The digits of a number can be read back from its text. -/
theorem chars_ofNat (n : Nat) :
    (ofNat n).map (fun b => Char.ofNat b.toNat) = Nat.toDigits 10 n := by
  rw [ofNat, List.map_map]
  refine (List.map_congr_left ?_).trans (List.map_id _)
  intro c hc
  obtain ⟨-, hhigh⟩ :=
    toNat_of_isDigit (Nat.isDigit_of_mem_toDigits (by decide) (by decide) hc)
  have hsmall : c.toNat.toUInt8.toNat = c.toNat := by
    simp only [Nat.toUInt8, UInt8.toNat_ofNat']
    omega
  show Char.ofNat c.toNat.toUInt8.toNat = c
  rw [hsmall, Char.ofNat_toNat]

/-- Numbers are told apart by their digits. -/
theorem ofNat_injective {m n : Nat} (h : ofNat m = ofNat n) : m = n := by
  have hdigits : Nat.toDigits 10 m = Nat.toDigits 10 n := by
    rw [← chars_ofNat, ← chars_ofNat, h]
  rw [← Nat.ofDigitChars_ten_toDigits (n := m), hdigits, Nat.ofDigitChars_ten_toDigits]

/-- Two counter values that are written alike are equal. -/
theorem ofCount_injective {m n : UInt64} (h : ofCount m = ofCount n) : m = n :=
  UInt64.toNat_inj.mp (ofNat_injective h)

theorem isNumeral_ofCount (n : UInt64) : (ofCount n).isNumeral = true :=
  isNumeral_ofNat n.toNat

/-- There is no separator among the digits. -/
theorem slash_not_mem_of_isNumeral {text : Text} (h : text.isNumeral = true) :
    slash ∉ text := by
  intro hmem
  have := List.all_eq_true.mp h slash hmem
  exact absurd this (by decide)

end Text

/-! ## Names -/

theorem ne_nil_of_requireName {options : Options} {name : Text}
    (h : requireName options name = .ok ()) : name ≠ [] := by
  rintro rfl
  cases h

/-- A text that is accepted as a name holds no separator. -/
theorem slash_not_mem_of_requireName {options : Options} {name : Text}
    (h : requireName options name = .ok ()) : Text.slash ∉ name := by
  intro hmem
  have hne : name ≠ [] := List.ne_nil_of_mem hmem
  have hfault : nameFault? options name = some (.slash name) := by
    rw [nameFault?, if_neg hne, if_pos hmem]
  rw [requireName, hfault] at h
  cases h

/-! ## Paths -/

namespace Path

/-- A path that can be told by its text: it has a segment, and no segment holds the separator. -/
structure Proper (path : Path) : Prop where
  ne_nil : path ≠ []
  slash_not_mem : ∀ segment ∈ path, Text.slash ∉ segment

/-- Cutting the text of a proper path at the separators gives the path back. -/
theorem Proper.splitOn_text {path : Path} (h : path.Proper) :
    path.text.splitOn Text.slash = path :=
  List.splitOn_intercalate Text.slash h.slash_not_mem h.ne_nil

/-- Proper paths with one text are one path. -/
theorem Proper.eq_of_text_eq {p q : Path} (hp : p.Proper) (hq : q.Proper)
    (h : p.text = q.text) : p = q := by
  rw [← hp.splitOn_text, ← hq.splitOn_text, h]

/-- One more segment without a separator keeps a path proper. -/
theorem Proper.append {parents : Path} (h : ∀ segment ∈ parents, Text.slash ∉ segment)
    {segment : Text} (hs : Text.slash ∉ segment) : Proper (parents ++ [segment]) := by
  refine ⟨by simp, ?_⟩
  intro s hmem
  rcases List.mem_append.mp hmem with hparent | hlast
  · exact h s hparent
  · rw [List.mem_singleton.mp hlast]
    exact hs

/-- The text of a path in two parts, neither of them empty, whatever is in their segments. -/
theorem text_append {base path : Path} (hbase : base ≠ []) (hpath : path ≠ []) :
    Path.text (base ++ path) = base.text ++ Text.slash :: path.text := by
  induction base with
  | nil => exact absurd rfl hbase
  | cons segment rest ih =>
      cases rest with
      | nil =>
          obtain ⟨next, others, rfl⟩ := List.exists_cons_of_ne_nil hpath
          rw [text, List.singleton_append, Text.join_cons_cons, text, Text.join_singleton, text]
      | cons next others =>
          have hrest := ih (List.cons_ne_nil next others)
          show Text.join Text.slash (segment :: next :: (others ++ path)) = _
          rw [Text.join_cons_cons, text, Text.join_cons_cons, List.append_assoc, List.cons_append]
          exact congrArg (segment ++ Text.slash :: ·) hrest

/-- One more segment makes a longer text. -/
theorem text_concat_ne {base : Path} (hbase : base ≠ []) (segment : Text) :
    Path.text (base ++ [segment]) ≠ base.text := by
  intro heq
  have hlength := congrArg List.length heq
  rw [text_append hbase (List.cons_ne_nil segment []), List.length_append,
    List.length_cons] at hlength
  omega

end Path

end ScopedLabels
