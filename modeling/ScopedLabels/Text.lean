/-!
# Text — byte strings

Names, labels, scripts and messages are **byte strings**: every byte may occur in them, the zero
byte and bytes that form no UTF-8 included. Nothing in the library looks at characters; the few
bytes that mean something (the separator, the end of a line, the blanks) are named here.

The one structural operation is `splitWhere`, which cuts a text at every byte of a class. Lines
and words are both read off it: `lines` cuts at the end-of-line byte, `words` cuts at blanks and
drops the empty pieces. `join` is its partner, and puts a separator between pieces.
-/

namespace ScopedLabels

/-- A byte string. `compare` on it is the lexicographic order of unsigned bytes. -/
abbrev Text := List UInt8

namespace Text

/-- The UTF-8 bytes of a string. -/
def ofString (s : String) : Text :=
  s.toList.flatMap String.utf8EncodeChar

instance : Coe String Text := ⟨ofString⟩

/-- The decimal digits of a number, most significant first. -/
def ofNat (n : Nat) : Text :=
  (Nat.toDigits 10 n).map fun c => c.toNat.toUInt8

/-- The decimal digits of a counter value. -/
def ofCount (n : UInt64) : Text :=
  ofNat n.toNat

/-! ## Bytes with a meaning -/

/-- The separator of label segments. -/
def slash : UInt8 := 0x2f

/-- The byte that strict naming refuses. -/
def underscore : UInt8 := 0x5f

/-- The byte that begins a comment line of a script. -/
def hash : UInt8 := 0x23

/-- The byte that begins a command-line option. -/
def dash : UInt8 := 0x2d

/-- The byte between a command-line option and its value. -/
def equals : UInt8 := 0x3d

/-- The byte between the members of a JSON object. -/
def comma : UInt8 := 0x2c

/-- The byte between the words of a line that is written out. -/
def space : UInt8 := 0x20

/-- The byte that ends a line. -/
def newline : UInt8 := 0x0a

/-- The blanks that separate words: space, and the five control bytes from tab to carriage
return. -/
def isBlank (b : UInt8) : Bool :=
  b = 0x20 || (0x09 ≤ b && b ≤ 0x0d)

/-! ## Cutting and joining -/

/-- Cut a text at every byte of the class `p`. There is always at least one piece: `n` cuts give
`n + 1` pieces, some of them possibly empty. -/
def splitWhere (p : UInt8 → Bool) (text : Text) : List Text :=
  text.foldr (fun b pieces => if p b then [] :: pieces else pieces.modifyHead (b :: ·)) [[]]

@[simp] theorem splitWhere_nil (p : UInt8 → Bool) : splitWhere p [] = [[]] := rfl

theorem splitWhere_cons (p : UInt8 → Bool) (b : UInt8) (text : Text) :
    splitWhere p (b :: text) =
      if p b then [] :: splitWhere p text else (splitWhere p text).modifyHead (b :: ·) := rfl

theorem splitWhere_ne_nil (p : UInt8 → Bool) (text : Text) : splitWhere p text ≠ [] := by
  induction text with
  | nil => simp
  | cons b text ih =>
    rw [splitWhere_cons]
    split
    · simp
    · cases h : splitWhere p text with
      | nil => exact absurd h ih
      | cons piece pieces => simp

/-- The lines of a text. A final end-of-line byte yields a last, empty line. -/
def lines (text : Text) : List Text :=
  text.splitWhere (· == newline)

/-- The words of a text: its maximal blank-free runs. -/
def words (text : Text) : List Text :=
  (text.splitWhere isBlank).filter fun piece => !piece.isEmpty

/-- The pieces with one separator byte between neighbours. -/
def join (separator : UInt8) (pieces : List Text) : Text :=
  [separator].intercalate pieces

@[simp] theorem join_nil (separator : UInt8) : join separator [] = [] := rfl

@[simp] theorem join_singleton (separator : UInt8) (piece : Text) :
    join separator [piece] = piece := by
  simp [join, List.intercalate]

theorem join_cons_cons (separator : UInt8) (piece next : Text) (rest : List Text) :
    join separator (piece :: next :: rest) =
      piece ++ separator :: join separator (next :: rest) := by
  simp [join, List.intercalate]

/-- Every line with the end-of-line byte after it. -/
def unlines (lines : List Text) : Text :=
  lines.flatMap (· ++ [newline])

/-- The part before the first zero byte. Messages are shown up to there. -/
def untilZero (text : Text) : Text :=
  text.takeWhile (· != 0)

end Text

end ScopedLabels
