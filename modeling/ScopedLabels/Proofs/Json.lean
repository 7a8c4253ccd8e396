import Mathlib.Data.List.TakeWhile
import ScopedLabels.Proofs.Naming

/-!
# Json — what a text says as JSON

`Json.Spells` is the grammar of JSON, over bytes: how a value, a member of an object, and what
stands between brackets or braces may be spelled. Numbers and the insides of strings are kept as
they are spelled, so nothing is lost by reading them. Strings are ASCII; everything else can be
escaped in them. A `Json.Document` is the spelling of a value with blanks around it.

A text is the spelling of one value at most (`Json.Document.unique`). `Json.read` finds that value:
it looks at the first byte to tell the kind, a number goes on for as long as its bytes can stand in
a number, and a string until the next quote that is not escaped. It does not ask whether numbers and
strings are spelled as they should be, since it is about texts of which that is known.
-/

namespace ScopedLabels

/-- A JSON value. Numbers and strings are as they are spelled. -/
inductive Json
  | null
  | bool (b : Bool)
  | number (literal : Text)
  | string (raw : Text)
  | array (items : List Json)
  | object (members : List (Text × Json))

namespace Json

/-! ## The grammar -/

/-- The byte around strings. -/
def quote : UInt8 := 0x22

/-- The byte that escapes the next one in a string. -/
def backslash : UInt8 := 0x5c

/-- The byte between the key and the value of a member. -/
def colon : UInt8 := 0x3a

/-- The byte that an array begins with. -/
def openBracket : UInt8 := 0x5b

/-- The byte that an array ends with. -/
def closeBracket : UInt8 := 0x5d

/-- The byte that an object begins with. -/
def openBrace : UInt8 := 0x7b

/-- The byte that an object ends with. -/
def closeBrace : UInt8 := 0x7d

/-- The blanks that may stand around values: space, tab, and the ends of lines. -/
def isSpace (b : UInt8) : Bool :=
  b = 0x20 || b = 0x09 || b = 0x0a || b = 0x0d

/-- A text of nothing but blanks. -/
def Blank (text : Text) : Prop :=
  ∀ b ∈ text, isSpace b = true

instance (text : Text) : Decidable (Blank text) :=
  inferInstanceAs (Decidable (∀ b ∈ text, _))

theorem blank_nil : Blank [] := by
  rintro _ ⟨⟩

/-- The values that are spelled as words. -/
def words : List (Text × Json) :=
  [("null", null), ("true", bool true), ("false", bool false)]

/-- The whole part of a number. It begins with zero only if it is zero. -/
def IsWhole (text : Text) : Prop :=
  text = [0x30] ∨ ∃ b rest, text = b :: rest ∧ 0x31 ≤ b ∧ b ≤ 0x39 ∧ Text.isNumeral rest = true

/-- One digit or more. -/
def IsDigits (text : Text) : Prop :=
  text ≠ [] ∧ Text.isNumeral text = true

/-- The fraction of a number, if it has one. -/
def IsFraction (text : Text) : Prop :=
  text = [] ∨ ∃ digits, text = 0x2e :: digits ∧ IsDigits digits

/-- The exponent of a number, if it has one. -/
def IsExponent (text : Text) : Prop :=
  text = [] ∨ ∃ mark sign digits, text = mark :: (sign ++ digits) ∧ (mark = 0x65 ∨ mark = 0x45) ∧
    (sign = [] ∨ sign = [0x2b] ∨ sign = [Text.dash]) ∧ IsDigits digits

/-- The spelling of a number. -/
def IsNumber (literal : Text) : Prop :=
  ∃ sign whole fraction exponent, literal = sign ++ (whole ++ (fraction ++ exponent)) ∧
    (sign = [] ∨ sign = [Text.dash]) ∧ IsWhole whole ∧ IsFraction fraction ∧ IsExponent exponent

/-- A hexadecimal digit. -/
def isHexDigit (b : UInt8) : Bool :=
  Text.isDigit b || (0x41 ≤ b && b ≤ 0x46) || (0x61 ≤ b && b ≤ 0x66)

/-- The inside of a string. -/
inductive Chars : Text → Prop
  | nil : Chars []
  | plain {b : UInt8} {rest : Text} (hlow : 0x20 ≤ b) (hascii : b < 0x80) (hquote : b ≠ quote)
      (hescape : b ≠ backslash) (hrest : Chars rest) : Chars (b :: rest)
  | escape {b : UInt8} {rest : Text} (hb : b ∈ Text.ofString "\"\\/bfnrt") (hrest : Chars rest) :
      Chars (backslash :: b :: rest)
  | unicode {digits rest : Text} (hlength : digits.length = 4)
      (hdigits : digits.all isHexDigit = true) (hrest : Chars rest) :
      Chars (backslash :: 0x75 :: (digits ++ rest))

/-- What a part of a text may be the spelling of. -/
inductive Phrase
  | value (v : Json)
  | member (key : Text) (v : Json)
  /-- What stands between brackets, if there is anything. -/
  | items (vs : List Json)
  /-- What stands between braces, if there is anything. -/
  | members (ms : List (Text × Json))

/-- The grammar of JSON. -/
inductive Spells : Phrase → Text → Prop
  | word {word : Text} {v : Json} (hword : (word, v) ∈ words) : Spells (.value v) word
  | number {literal : Text} (hnumber : IsNumber literal) : Spells (.value (.number literal)) literal
  | string {raw : Text} (hchars : Chars raw) :
      Spells (.value (.string raw)) (quote :: (raw ++ [quote]))
  | emptyArray {blank : Text} (hblank : Blank blank) :
      Spells (.value (.array [])) (openBracket :: (blank ++ [closeBracket]))
  | array {vs : List Json} {text : Text} (hitems : Spells (.items vs) text) :
      Spells (.value (.array vs)) (openBracket :: (text ++ [closeBracket]))
  | emptyObject {blank : Text} (hblank : Blank blank) :
      Spells (.value (.object [])) (openBrace :: (blank ++ [closeBrace]))
  | object {ms : List (Text × Json)} {text : Text} (hmembers : Spells (.members ms) text) :
      Spells (.value (.object ms)) (openBrace :: (text ++ [closeBrace]))
  | member {key before after text : Text} {v : Json} (hchars : Chars key) (hbefore : Blank before)
      (hafter : Blank after) (hvalue : Spells (.value v) text) :
      Spells (.member key v) (quote :: (key ++ quote :: (before ++ colon :: (after ++ text))))
  | lastItem {before after text : Text} {v : Json} (hbefore : Blank before) (hafter : Blank after)
      (hvalue : Spells (.value v) text) : Spells (.items [v]) (before ++ (text ++ after))
  | moreItems {before after text more : Text} {v : Json} {vs : List Json} (hbefore : Blank before)
      (hafter : Blank after) (hvalue : Spells (.value v) text) (hmore : Spells (.items vs) more) :
      Spells (.items (v :: vs)) (before ++ (text ++ (after ++ Text.comma :: more)))
  | lastMember {before after text key : Text} {v : Json} (hbefore : Blank before)
      (hafter : Blank after) (hmember : Spells (.member key v) text) :
      Spells (.members [(key, v)]) (before ++ (text ++ after))
  | moreMembers {before after text more key : Text} {v : Json} {ms : List (Text × Json)}
      (hbefore : Blank before) (hafter : Blank after) (hmember : Spells (.member key v) text)
      (hmore : Spells (.members ms) more) :
      Spells (.members ((key, v) :: ms)) (before ++ (text ++ (after ++ Text.comma :: more)))

/-- The text is the spelling of the value, with blanks around it. -/
def Document (v : Json) (text : Text) : Prop :=
  ∃ before spelling after, text = before ++ (spelling ++ after) ∧ Blank before ∧ Blank after ∧
    Spells (.value v) spelling

/-! ## Reading -/

/-- Leave out the blanks in front. -/
def skip (text : Text) : Text :=
  text.dropWhile isSpace

/-- The bytes that can stand in a number. -/
def isNumberByte (b : UInt8) : Bool :=
  Text.isDigit b || b = 0x2b || b = Text.dash || b = 0x2e || b = 0x65 || b = 0x45

/-- Read up to the quote that ends a string. -/
def readString : Text → Option (Text × Text)
  | [] => none
  | b :: rest =>
    if b = quote then some ([], rest)
    else if b = backslash then
      match rest with
      | [] => none
      | c :: rest => (readString rest).map fun read => (b :: c :: read.1, read.2)
    else (readString rest).map fun read => (b :: read.1, read.2)

/-- Read what stands up to a closing byte, with commas in between. -/
def readList {α : Type} (readOne : Text → Option (α × Text)) (close : UInt8) :
    Nat → Text → Option (List α × Text)
  | 0, _ => none
  | fuel + 1, text => do
    let (a, rest) ← readOne (skip text)
    match skip rest with
    | [] => none
    | b :: rest =>
      if b = close then return ([a], rest)
      else if b = Text.comma then
        let (others, rest) ← readList readOne close fuel rest
        return (a :: others, rest)
      else none

/-- Read what stands up to a closing byte. There may be nothing. -/
def readEnclosed {α : Type} (readOne : Text → Option (α × Text)) (close : UInt8) (fuel : Nat)
    (text : Text) : Option (List α × Text) :=
  match skip text with
  | [] => none
  | b :: rest => if b = close then some ([], rest) else readList readOne close fuel text

/-- Read a key and a value. -/
def readMember (readValue : Text → Option (Json × Text)) :
    Text → Option ((Text × Json) × Text)
  | [] => none
  | b :: rest =>
    if b = quote then do
      let (key, rest) ← readString rest
      match skip rest with
      | [] => none
      | c :: rest =>
        if c = colon then
          let (v, rest) ← readValue (skip rest)
          return ((key, v), rest)
        else none
    else none

/-- Read a value that is spelled as a word. -/
def readWord (text : Text) : Option (Json × Text) :=
  words.findSome? fun (word, v) =>
    if word.isPrefixOf text then some (v, text.drop word.length) else none

/-- Read a value, and what comes after it. The text is no longer than the fuel. -/
def readValue : Nat → Text → Option (Json × Text)
  | 0, _ => none
  | _, [] => none
  | fuel + 1, b :: rest =>
    if b = quote then (readString rest).map fun read => (.string read.1, read.2)
    else if b = openBracket then
      (readEnclosed (readValue fuel) closeBracket fuel rest).map fun read => (.array read.1, read.2)
    else if b = openBrace then
      (readEnclosed (readMember (readValue fuel)) closeBrace fuel rest).map
        fun read => (.object read.1, read.2)
    else if isNumberByte b then
      some (.number ((b :: rest).takeWhile isNumberByte), (b :: rest).dropWhile isNumberByte)
    else readWord (b :: rest)

/-- Read a document. -/
def read (text : Text) : Option Json := do
  let (v, rest) ← readValue text.length (skip text)
  if skip rest = [] then return v else none

/-! ## Bytes -/

/-- The bytes that a value or a member can begin with. -/
def isStart (b : UInt8) : Bool :=
  b = quote || b = openBracket || b = openBrace || Text.isDigit b || b = Text.dash || b = 0x6e ||
    b = 0x74 || b = 0x66

theorem isDigit_iff (b : UInt8) : Text.isDigit b = true ↔ 48 ≤ b.toNat ∧ b.toNat ≤ 57 := by
  simp [Text.isDigit, UInt8.le_iff_toNat_le]

/-- Every digit but zero is a digit. -/
theorem isDigit_of_between {b : UInt8} (hlow : 0x31 ≤ b) (hhigh : b ≤ 0x39) :
    Text.isDigit b = true := by
  rw [isDigit_iff]
  rw [UInt8.le_iff_toNat_le] at hlow hhigh
  exact ⟨Nat.le_of_succ_le hlow, hhigh⟩

/-- What a value begins with is no blank, and closes nothing. -/
theorem isStart_apart {b : UInt8} (h : isStart b = true) :
    isSpace b = false ∧ b ≠ closeBracket ∧ b ≠ closeBrace := by
  simp only [isStart, Bool.or_eq_true, decide_eq_true_eq, isDigit_iff] at h
  rcases h with ((((((rfl | rfl) | rfl) | hdigit) | rfl) | rfl) | rfl) | rfl
  · decide
  · decide
  · decide
  · have hne : ∀ c : UInt8, c.toNat < 48 ∨ 57 < c.toNat → b ≠ c := by
      rintro c hc rfl
      omega
    refine ⟨?_, hne _ (by decide), hne _ (by decide)⟩
    simp [isSpace, hne 0x20 (by decide), hne 0x09 (by decide), hne 0x0a (by decide),
      hne 0x0d (by decide)]
  · decide
  · decide
  · decide
  · decide

/-- A number does not go on with what comes next. -/
def Ends (rest : Text) : Prop :=
  ∀ b ∈ rest.head?, isNumberByte b = false

theorem isNumberByte_of_isSpace {b : UInt8} (h : isSpace b = true) : isNumberByte b = false := by
  simp only [isSpace, Bool.or_eq_true, decide_eq_true_eq] at h
  rcases h with ((rfl | rfl) | rfl) | rfl <;> decide

/-- A number does not go on with blanks. -/
theorem Blank.ends_self {blank : Text} (h : Blank blank) : Ends blank := by
  intro b hb
  have hmem : b ∈ blank := List.mem_of_mem_head? hb
  exact isNumberByte_of_isSpace (h b hmem)

/-- Blanks and then a byte that is in no number. -/
theorem Blank.ends {blank : Text} (h : Blank blank) {b : UInt8} (hb : isNumberByte b = false)
    (rest : Text) : Ends (blank ++ b :: rest) := by
  cases blank with
  | nil =>
      rintro _ ⟨⟩
      exact hb
  | cons c others =>
      rintro _ ⟨⟩
      exact isNumberByte_of_isSpace (h c List.mem_cons_self)

/-- Blanks in front are left out. -/
theorem Blank.skip_append {blank : Text} (h : Blank blank) (rest : Text) :
    skip (blank ++ rest) = skip rest :=
  List.dropWhile_append_of_pos h

theorem skip_cons {b : UInt8} (h : isSpace b = false) (rest : Text) :
    skip (b :: rest) = b :: rest :=
  List.dropWhile_cons_of_neg (by simp [h])

/-! ## Numbers and strings -/

theorem isNumberByte_of_isNumeral {text : Text} (h : Text.isNumeral text = true) :
    ∀ b ∈ text, isNumberByte b = true := by
  intro b hb
  simp [isNumberByte, List.all_eq_true.mp h b hb]

/-- All bytes of a number can stand in one. -/
theorem IsNumber.all {literal : Text} (h : IsNumber literal) :
    ∀ b ∈ literal, isNumberByte b = true := by
  obtain ⟨sign, whole, fraction, exponent, rfl, hsign, hwhole, hfraction, hexponent⟩ := h
  intro b hb
  simp only [List.mem_append] at hb
  rcases hb with hb | hb | hb | hb
  · rcases hsign with rfl | rfl
    · cases hb
    · rw [List.mem_singleton.mp hb]
      decide
  · rcases hwhole with rfl | ⟨c, rest, rfl, hlow, hhigh, hrest⟩
    · rw [List.mem_singleton.mp hb]
      decide
    · rcases List.mem_cons.mp hb with rfl | hb
      · simp [isNumberByte, isDigit_of_between hlow hhigh]
      · exact isNumberByte_of_isNumeral hrest b hb
  · rcases hfraction with rfl | ⟨digits, rfl, -, hdigits⟩
    · cases hb
    · rcases List.mem_cons.mp hb with rfl | hb
      · decide
      · exact isNumberByte_of_isNumeral hdigits b hb
  · rcases hexponent with rfl | ⟨mark, sign, digits, rfl, hmark, hsign, -, hdigits⟩
    · cases hb
    · rcases List.mem_cons.mp hb with rfl | hb
      · rcases hmark with rfl | rfl <;> decide
      · rcases List.mem_append.mp hb with hb | hb
        · rcases hsign with rfl | rfl | rfl
          · cases hb
          · rw [List.mem_singleton.mp hb]
            decide
          · rw [List.mem_singleton.mp hb]
            decide
        · exact isNumberByte_of_isNumeral hdigits b hb

/-- A number begins with a sign or a digit. -/
theorem IsNumber.head {literal : Text} (h : IsNumber literal) :
    ∃ b rest, literal = b :: rest ∧ (b = Text.dash ∨ Text.isDigit b = true) := by
  obtain ⟨sign, whole, fraction, exponent, rfl, hsign, hwhole, -, -⟩ := h
  rcases hsign with rfl | rfl
  · rcases hwhole with rfl | ⟨b, rest, rfl, hlow, hhigh, -⟩
    · exact ⟨_, _, rfl, .inr (by decide)⟩
    · exact ⟨_, _, rfl, .inr (isDigit_of_between hlow hhigh)⟩
  · exact ⟨_, _, rfl, .inl rfl⟩

/-- A number goes on for as long as it can. -/
theorem takeWhile_number {literal rest : Text} (h : IsNumber literal) (hends : Ends rest) :
    (literal ++ rest).takeWhile isNumberByte = literal ∧
      (literal ++ rest).dropWhile isNumberByte = rest := by
  rw [List.takeWhile_append_of_pos h.all, List.dropWhile_append_of_pos h.all]
  cases rest with
  | nil => exact ⟨List.append_nil literal, rfl⟩
  | cons b rest =>
      have hb : ¬ isNumberByte b = true := by simp [hends b rfl]
      rw [List.takeWhile_cons_of_neg hb, List.dropWhile_cons_of_neg hb, List.append_nil]
      exact ⟨rfl, rfl⟩

theorem readString_plain {b : UInt8} (hquote : b ≠ quote) (hescape : b ≠ backslash) (rest : Text) :
    readString (b :: rest) = (readString rest).map fun read => (b :: read.1, read.2) := by
  rw [readString.eq_def]
  exact (if_neg hquote).trans (if_neg hescape)

/-- The byte after the escape is read as it is, also if it is the quote. -/
theorem readString_escape (b : UInt8) (rest : Text) :
    readString (backslash :: b :: rest) =
      (readString rest).map fun read => (backslash :: b :: read.1, read.2) := by
  rw [readString, if_neg (by decide), if_pos rfl]

/-- A hexadecimal digit is neither the quote nor the escape. -/
theorem isHexDigit_apart {b : UInt8} (h : isHexDigit b = true) : b ≠ quote ∧ b ≠ backslash := by
  constructor
  · rintro rfl
    exact absurd h (by decide)
  · rintro rfl
    exact absurd h (by decide)

/-- Hexadecimal digits are read as they are, however many there are. -/
theorem readString_hex {digits : Text} (h : digits.all isHexDigit = true) (rest : Text) :
    readString (digits ++ rest) = (readString rest).map fun read => (digits ++ read.1, read.2) := by
  induction digits with
  | nil =>
      rw [List.nil_append]
      cases readString rest <;> rfl
  | cons b others ih =>
      rw [List.all_cons, Bool.and_eq_true] at h
      obtain ⟨hb, hothers⟩ := h
      obtain ⟨hquote, hescape⟩ := isHexDigit_apart hb
      rw [List.cons_append, readString_plain hquote hescape, ih hothers, Option.map_map]
      rfl

/-- The inside of a string ends at the first quote that is not escaped. -/
theorem Chars.read {raw : Text} (h : Chars raw) (rest : Text) :
    readString (raw ++ quote :: rest) = some (raw, rest) := by
  induction h with
  | nil =>
      rw [List.nil_append, readString.eq_def]
      exact if_pos rfl
  | plain hlow hascii hquote hescape hrest ih =>
      rw [List.cons_append, readString_plain hquote hescape, ih]
      rfl
  | escape hb hrest ih =>
      rw [List.cons_append, List.cons_append, readString_escape, ih]
      rfl
  | unicode hlength hdigits hrest ih =>
      rw [List.cons_append, List.cons_append, readString_escape, List.append_assoc,
        readString_hex hdigits, ih]
      rfl

/-! ## There is one reading -/

/-- What a phrase begins with, behind blanks if it is a list. -/
def Phrase.Starts : Phrase → Text → Prop
  | .value _, text | .member _ _, text => ∃ b rest, text = b :: rest ∧ isStart b = true
  | .items _, text | .members _, text =>
    ∃ blank b rest, text = blank ++ b :: rest ∧ Blank blank ∧ isStart b = true

/-- A phrase begins with what phrases of its kind can begin with. -/
theorem Spells.starts {phrase : Phrase} {text : Text} (h : Spells phrase text) :
    phrase.Starts text := by
  have hlist : ∀ {before text : Text} (after : Text), Blank before →
      (∃ b rest, text = b :: rest ∧ isStart b = true) →
      ∃ blank b rest, before ++ (text ++ after) = blank ++ b :: rest ∧ Blank blank ∧
        isStart b = true := by
    rintro before _ after hbefore ⟨b, rest, rfl, hb⟩
    exact ⟨before, b, rest ++ after, rfl, hbefore, hb⟩
  -- a list starts as its first element does, behind the blanks in front of that
  induction h with
  | word hword =>
      simp only [words, List.mem_cons, Prod.mk.injEq, List.not_mem_nil, or_false] at hword
      rcases hword with ⟨rfl, -⟩ | ⟨rfl, -⟩ | ⟨rfl, -⟩ <;> exact ⟨_, _, rfl, by decide⟩
  | number hnumber =>
      obtain ⟨b, rest, rfl, hb⟩ := hnumber.head
      refine ⟨b, rest, rfl, ?_⟩
      rcases hb with rfl | hb
      · decide
      · simp [isStart, hb]
  | string | member => exact ⟨_, _, rfl, by decide⟩
  | emptyArray | array => exact ⟨_, _, rfl, by decide⟩
  | emptyObject | object => exact ⟨_, _, rfl, by decide⟩
  | lastItem hbefore hafter hvalue ih => exact hlist _ hbefore ih
  | moreItems hbefore hafter hvalue hmore ih _ => exact hlist _ hbefore ih
  | lastMember hbefore hafter hmember ih => exact hlist _ hbefore ih
  | moreMembers hbefore hafter hmember hmore ih _ => exact hlist _ hbefore ih

/-- No phrase is spelled as nothing. -/
theorem Spells.length_pos {phrase : Phrase} {text : Text} (h : Spells phrase text) :
    0 < text.length := by
  have hstarts := h.starts
  cases phrase with
  | value | member =>
      obtain ⟨b, rest, rfl, -⟩ := hstarts
      exact Nat.succ_pos _
  | items | members =>
      obtain ⟨blank, b, rest, rfl, -, -⟩ := hstarts
      rw [List.length_append, List.length_cons]
      omega

section Lists

variable {α : Type} {readOne : Text → Option (α × Text)} {close : UInt8} {a : α}
  {before text after : Text} (hbefore : Blank before) (hafter : Blank after)
  (hstarts : ∃ b rest, text = b :: rest ∧ isStart b = true)
  (hone : ∀ rest, Ends rest → readOne (text ++ rest) = some (a, rest))
include hbefore hafter hstarts hone

/-- Reading one element, and the blanks behind it, up to a byte that goes on with neither. -/
theorem readOne_apply {b : UInt8} (hspace : isSpace b = false) (hb : isNumberByte b = false)
    (rest : Text) :
    ∃ blank, readOne (skip (before ++ (text ++ (after ++ b :: rest)))) = some (a, blank) ∧
      skip blank = b :: rest := by
  refine ⟨after ++ b :: rest, ?_, ?_⟩
  · obtain ⟨c, others, rfl, hc⟩ := hstarts
    rw [hbefore.skip_append, List.cons_append, skip_cons (isStart_apart hc).1, ← List.cons_append]
    exact hone _ (hafter.ends hb rest)
  · rw [hafter.skip_append, skip_cons hspace]

/-- The last element is followed by the closing byte. -/
theorem readList_last (hspace : isSpace close = false) (hclose : isNumberByte close = false)
    (fuel : Nat) (rest : Text) :
    readList readOne close (fuel + 1) (before ++ (text ++ (after ++ close :: rest))) =
      some ([a], rest) := by
  obtain ⟨blank, hread, hskip⟩ := readOne_apply hbefore hafter hstarts hone hspace hclose rest
  simp only [readList, hread, hskip, Option.bind_eq_bind, Option.bind_some, if_pos]
  rfl

/-- An element that is followed by a comma is followed by others. -/
theorem readList_more (hcomma : Text.comma ≠ close) {fuel : Nat} {more rest : Text}
    {others : List α} (hmore : readList readOne close fuel more = some (others, rest)) :
    readList readOne close (fuel + 1) (before ++ (text ++ (after ++ Text.comma :: more))) =
      some (a :: others, rest) := by
  have hspace : isSpace Text.comma = false := by decide
  have hends : isNumberByte Text.comma = false := by decide
  obtain ⟨blank, hread, hskip⟩ := readOne_apply hbefore hafter hstarts hone hspace hends more
  simp only [readList, hread, hskip, Option.bind_eq_bind, Option.bind_some, if_neg hcomma, if_pos,
    hmore]
  rfl

end Lists

/-- What reading makes of a phrase, whatever comes after it. -/
def Phrase.Reads : Phrase → Text → Prop
  | .value v, text => ∀ fuel rest, text.length ≤ fuel → Ends rest →
    readValue fuel (text ++ rest) = some (v, rest)
  | .member key v, text => ∀ fuel rest, text.length ≤ fuel → Ends rest →
    readMember (readValue fuel) (text ++ rest) = some ((key, v), rest)
  | .items vs, text => ∀ fuel steps rest, text.length ≤ fuel → text.length ≤ steps →
    readList (readValue fuel) closeBracket steps (text ++ closeBracket :: rest) = some (vs, rest)
  | .members ms, text => ∀ fuel steps rest, text.length ≤ fuel → text.length ≤ steps →
    readList (readMember (readValue fuel)) closeBrace steps (text ++ closeBrace :: rest) =
      some (ms, rest)

/-- Nothing stands up to the closing byte. -/
theorem readEnclosed_blank {α : Type} (readOne : Text → Option (α × Text)) {close : UInt8}
    (hspace : isSpace close = false) (fuel : Nat) {blank : Text} (hblank : Blank blank)
    (rest : Text) : readEnclosed readOne close fuel (blank ++ close :: rest) = some ([], rest) := by
  rw [readEnclosed, hblank.skip_append, skip_cons hspace]
  exact if_pos rfl

/-- Something stands up to the closing byte. -/
theorem readEnclosed_list {α : Type} {readOne : Text → Option (α × Text)} {close : UInt8}
    {fuel : Nat} {text rest : Text} {read : List α × Text}
    (hstarts : ∃ blank b rest, text = blank ++ b :: rest ∧ Blank blank ∧ isStart b = true)
    (hclose : ∀ b, isStart b = true → b ≠ close)
    (hread : readList readOne close fuel (text ++ rest) = some read) :
    readEnclosed readOne close fuel (text ++ rest) = some read := by
  obtain ⟨blank, b, others, rfl, hblank, hb⟩ := hstarts
  rw [← hread, readEnclosed, List.append_assoc, hblank.skip_append, List.cons_append,
    skip_cons (isStart_apart hb).1]
  exact if_neg (hclose b hb)

section Values

variable (fuel : Nat) (rest : Text)

/-- A string is read as its inside. -/
theorem readValue_string {raw : Text} (h : Chars raw) :
    readValue (fuel + 1) (quote :: (raw ++ quote :: rest)) = some (.string raw, rest) := by
  rw [readValue, if_pos rfl, h.read]
  rfl

/-- An array is read as what stands between its brackets. -/
theorem readValue_array {fuel : Nat} {text rest : Text} {vs : List Json}
    (h : readEnclosed (readValue fuel) closeBracket fuel text = some (vs, rest)) :
    readValue (fuel + 1) (openBracket :: text) = some (.array vs, rest) := by
  rw [readValue, if_neg (by decide), if_pos rfl, h]
  rfl

/-- An object is read as what stands between its braces. -/
theorem readValue_object {fuel : Nat} {text rest : Text} {ms : List (Text × Json)}
    (h : readEnclosed (readMember (readValue fuel)) closeBrace fuel text = some (ms, rest)) :
    readValue (fuel + 1) (openBrace :: text) = some (.object ms, rest) := by
  rw [readValue, if_neg (by decide), if_neg (by decide), if_pos rfl, h]
  rfl

/-- A number is read as it is spelled, up to where it ends. -/
theorem readValue_number {literal : Text} (h : IsNumber literal) (hends : Ends rest) :
    readValue (fuel + 1) (literal ++ rest) = some (.number literal, rest) := by
  obtain ⟨htake, hdrop⟩ := takeWhile_number h hends
  obtain ⟨b, others, rfl, -⟩ := h.head
  have hb : isNumberByte b = true := h.all b List.mem_cons_self
  have hne : ∀ c, isNumberByte c = false → b ≠ c := by
    rintro c hc rfl
    rw [hb] at hc
    cases hc
  rw [List.cons_append] at htake hdrop ⊢
  rw [readValue, if_neg (hne _ (by decide)), if_neg (hne _ (by decide)), if_neg (hne _ (by decide)),
    if_pos hb, htake, hdrop]

theorem readValue_word {word : Text} {v : Json} (h : (word, v) ∈ words) :
    readValue (fuel + 1) (word ++ rest) = some (v, rest) := by
  simp only [words, List.mem_cons, Prod.mk.injEq, List.not_mem_nil, or_false] at h
  rcases h with ⟨rfl, rfl⟩ | ⟨rfl, rfl⟩ | ⟨rfl, rfl⟩ <;> rfl

end Values

/-- A member is read as its key and its value. -/
theorem readMember_apply {readValue : Text → Option (Json × Text)}
    {key before after text rest : Text} {v : Json} (hchars : Chars key)
    (hbefore : Blank before) (hafter : Blank after)
    (hstarts : ∃ b rest, text = b :: rest ∧ isStart b = true)
    (hvalue : readValue (text ++ rest) = some (v, rest)) :
    readMember readValue
        (quote :: (key ++ quote :: (before ++ colon :: (after ++ (text ++ rest))))) =
      some ((key, v), rest) := by
  have hcolon : isSpace colon = false := by decide
  have hskip : skip (after ++ (text ++ rest)) = text ++ rest := by
    obtain ⟨b, others, rfl, hb⟩ := hstarts
    rw [hafter.skip_append, List.cons_append, skip_cons (isStart_apart hb).1]
  have hread : skip (before ++ colon :: (after ++ (text ++ rest))) =
      colon :: (after ++ (text ++ rest)) := by
    rw [hbefore.skip_append, skip_cons hcolon]
  simp only [readMember, hchars.read, if_true, Option.pure_def, Option.bind_eq_bind,
    Option.bind_some, hread, hskip, hvalue]

/-- Every phrase is read as what it is the spelling of. -/
theorem Spells.reads {phrase : Phrase} {text : Text} (h : Spells phrase text) :
    phrase.Reads text := by
  -- by induction on the spelling; the fuel that is left always covers what is left to read
  induction h with
  | word hword =>
      intro fuel rest hfuel hends
      obtain ⟨fuel, rfl⟩ :=
        Nat.exists_eq_add_of_le' (Nat.le_trans (Spells.word hword).length_pos hfuel)
      exact readValue_word fuel rest hword
  | number hnumber =>
      intro fuel rest hfuel hends
      obtain ⟨fuel, rfl⟩ :=
        Nat.exists_eq_add_of_le' (Nat.le_trans (Spells.number hnumber).length_pos hfuel)
      exact readValue_number fuel rest hnumber hends
  | string hchars =>
      intro fuel rest hfuel hends
      obtain ⟨fuel, rfl⟩ := Nat.exists_eq_add_of_le' hfuel
      rw [List.cons_append, List.append_assoc]
      exact readValue_string _ rest hchars
  | emptyArray hblank =>
      intro fuel rest hfuel hends
      obtain ⟨fuel, rfl⟩ := Nat.exists_eq_add_of_le' hfuel
      rw [List.cons_append, List.append_assoc]
      exact readValue_array (readEnclosed_blank _ (by decide) _ hblank rest)
  | @array vs text hitems ih =>
      intro fuel rest hfuel hends
      obtain ⟨fuel, rfl⟩ := Nat.exists_eq_add_of_le' hfuel
      have hlength : text.length ≤ fuel + (text ++ [closeBracket]).length := by
        rw [List.length_append]
        omega
      have hclose : ∀ b, isStart b = true → b ≠ closeBracket := by
        intro b hb
        exact (isStart_apart hb).2.1
      have hread := ih _ _ rest hlength hlength
      rw [List.cons_append, List.append_assoc]
      exact readValue_array (readEnclosed_list hitems.starts hclose hread)
  | emptyObject hblank =>
      intro fuel rest hfuel hends
      obtain ⟨fuel, rfl⟩ := Nat.exists_eq_add_of_le' hfuel
      rw [List.cons_append, List.append_assoc]
      exact readValue_object (readEnclosed_blank _ (by decide) _ hblank rest)
  | @object ms text hmembers ih =>
      intro fuel rest hfuel hends
      obtain ⟨fuel, rfl⟩ := Nat.exists_eq_add_of_le' hfuel
      have hlength : text.length ≤ fuel + (text ++ [closeBrace]).length := by
        rw [List.length_append]
        omega
      have hclose : ∀ b, isStart b = true → b ≠ closeBrace := by
        intro b hb
        exact (isStart_apart hb).2.2
      have hread := ih _ _ rest hlength hlength
      rw [List.cons_append, List.append_assoc]
      exact readValue_object (readEnclosed_list hmembers.starts hclose hread)
  | member hchars hbefore hafter hvalue ih =>
      intro fuel rest hfuel hends
      simp only [List.cons_append, List.append_assoc, List.length_cons, List.length_append]
        at hfuel ⊢
      have hread := ih fuel rest (by omega) hends
      exact readMember_apply hchars hbefore hafter hvalue.starts hread
  | lastItem hbefore hafter hvalue ih =>
      intro fuel steps rest hfuel hsteps
      -- one step is left for the last element, since it is not empty
      have hpos := hvalue.length_pos
      simp only [List.append_assoc, List.length_append] at hfuel hsteps ⊢
      obtain ⟨steps, rfl⟩ := Nat.exists_eq_add_of_le' (show 1 ≤ steps by omega)
      have hone := fun rest hends => ih fuel rest (by omega) hends
      exact readList_last hbefore hafter hvalue.starts hone (by decide) (by decide) steps rest
  | moreItems hbefore hafter hvalue hmore ih ihmore =>
      intro fuel steps rest hfuel hsteps
      simp only [List.cons_append, List.append_assoc, List.length_cons, List.length_append]
        at hfuel hsteps ⊢
      obtain ⟨steps, rfl⟩ := Nat.exists_eq_add_of_le' (show 1 ≤ steps by omega)
      have hone := fun rest hends => ih fuel rest (by omega) hends
      have hothers := ihmore fuel steps rest (by omega) (by omega)
      exact readList_more hbefore hafter hvalue.starts hone (by decide) hothers
  | lastMember hbefore hafter hmember ih =>
      intro fuel steps rest hfuel hsteps
      -- one step is left for the last element, since it is not empty
      have hpos := hmember.length_pos
      simp only [List.append_assoc, List.length_append] at hfuel hsteps ⊢
      obtain ⟨steps, rfl⟩ := Nat.exists_eq_add_of_le' (show 1 ≤ steps by omega)
      have hone := fun rest hends => ih fuel rest (by omega) hends
      exact readList_last hbefore hafter hmember.starts hone (by decide) (by decide) steps rest
  | moreMembers hbefore hafter hmember hmore ih ihmore =>
      intro fuel steps rest hfuel hsteps
      simp only [List.cons_append, List.append_assoc, List.length_cons, List.length_append]
        at hfuel hsteps ⊢
      obtain ⟨steps, rfl⟩ := Nat.exists_eq_add_of_le' (show 1 ≤ steps by omega)
      have hone := fun rest hends => ih fuel rest (by omega) hends
      have hothers := ihmore fuel steps rest (by omega) (by omega)
      exact readList_more hbefore hafter hmember.starts hone (by decide) hothers

/-- A document is read as what it is a document of. -/
theorem Document.read {v : Json} {text : Text} (h : Document v text) : Json.read text = some v := by
  obtain ⟨before, spelling, after, rfl, hbefore, hafter, hspelling⟩ := h
  have hskip : skip (before ++ (spelling ++ after)) = spelling ++ after := by
    obtain ⟨b, rest, rfl, hb⟩ := hspelling.starts
    rw [hbefore.skip_append, List.cons_append, skip_cons (isStart_apart hb).1]
  have hvalue := hspelling.reads (before ++ (spelling ++ after)).length after
    (by simp only [List.length_append]; omega) hafter.ends_self
  have hrest : skip after = [] := List.dropWhile_eq_nil_iff.2 hafter
  simp only [Json.read, hskip, hvalue, hrest, if_true, Option.pure_def, Option.bind_eq_bind,
    Option.bind_some]

/-- A text is a document of one value at most. -/
theorem Document.unique {v w : Json} {text : Text} (hv : Document v text) (hw : Document w text) :
    v = w := by
  have hread : some v = some w := by
    rw [← hv.read, hw.read]
  exact Option.some.inj hread

end Json

end ScopedLabels
