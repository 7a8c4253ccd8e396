import Mathlib.Logic.Relation
import ScopedLabels.Proofs.Grammar

/-!
# Layout — what of a script its reader does not look at

A script is read line by line, and nothing of a line is looked at but its words. Both follow from
one fact about cutting (`Text.splitWhere_append_cons`): a byte of the class separates what is before
it from what is after it. Used for ends of lines it says that the lines of two texts, one below the
other, are those of the first and then those of the second. Used for blanks it says that the words
on both sides of a blank do not depend on each other, and so not on how many blanks there are.

So scripts compose: what is read from two of them, one below the other, is what is read from the
first and then what is read from the second, which stands further down (`parse_append_cons`). And a
line may be laid out in other ways. `Relaid` lists the ways to change it, and no such change of any
lines changes what is read (`parse_join_alike`).
-/

namespace ScopedLabels

namespace Text

/-! ## Lines -/

/-- A byte of the class separates what is before it from what is after it. -/
theorem splitWhere_append_cons {p : UInt8 → Bool} {b : UInt8} (hb : p b = true)
    (left right : Text) :
    splitWhere p (left ++ b :: right) = splitWhere p left ++ splitWhere p right := by
  induction left with
  | nil =>
      rw [List.nil_append, splitWhere_cons, if_pos hb]
      rfl
  | cons c left ih =>
      rw [List.cons_append, splitWhere_cons, splitWhere_cons, ih]
      split
      · rfl
      · -- the first piece of all is the first piece on the left
        cases hleft : splitWhere p left with
        | nil => exact absurd hleft (splitWhere_ne_nil p left)
        | cons piece pieces => rfl

/-- The lines of two texts, one below the other. -/
theorem lines_append_cons (before after : Text) :
    lines (before ++ newline :: after) = lines before ++ lines after :=
  splitWhere_append_cons (by simp) before after

/-- There is one line more than there are ends of lines. -/
theorem length_lines (text : Text) : text.lines.length = text.count newline + 1 := by
  induction text with
  | nil => rfl
  | cons b text ih =>
      rw [lines_cons]
      by_cases h : b = newline
      · rw [if_pos h, List.length_cons, ih, h, List.count_cons_self]
      · rw [if_neg h, List.length_modifyHead, ih, List.count_cons_of_ne h]

/-! ## Words -/

/-- The words on both sides of a blank. -/
theorem words_append_cons {b : UInt8} (hb : isBlank b = true) (left right : Text) :
    words (left ++ b :: right) = words left ++ words right := by
  rw [words, splitWhere_append_cons hb, List.filter_append]
  rfl

/-- A gap is a run of blanks within a line. -/
def Gap (gap : Text) : Prop :=
  ∀ b ∈ gap, isBlank b = true ∧ b ≠ newline

instance (gap : Text) : Decidable gap.Gap :=
  inferInstanceAs (Decidable (∀ b ∈ gap, _))

theorem Gap.blank {gap : Text} (h : Gap gap) : ∀ b ∈ gap, isBlank b = true := by
  intro b hb
  exact (h b hb).1

theorem Gap.newline_not_mem {gap : Text} (h : Gap gap) : newline ∉ gap := by
  intro hmem
  exact (h newline hmem).2 rfl

/-- The words on both sides of a gap. -/
theorem words_append_gap {gap : Text} (hgap : Gap gap) (hne : gap ≠ []) (left right : Text) :
    words (left ++ gap ++ right) = words left ++ words right := by
  cases gap with
  | nil => exact absurd rfl hne
  | cons b gap =>
      have hb : isBlank b = true := hgap.blank b List.mem_cons_self
      have hrest : ∀ c ∈ gap, isBlank c = true :=
        fun c hc => hgap.blank c (List.mem_cons_of_mem b hc)
      rw [List.append_assoc, List.cons_append, words_append_cons hb, words_append_blank hrest]

/-- A gap at the end of a line belongs to no word. -/
theorem words_gap {gap : Text} (hgap : Gap gap) (line : Text) :
    words (line ++ gap) = words line := by
  by_cases hne : gap = []
  · rw [hne, List.append_nil]
  · have hwords := words_append_gap hgap hne line []
    rwa [List.append_nil, show words [] = [] from rfl, List.append_nil] at hwords

/-! ## Carriage returns -/

/-- The blank that some systems put before the end of a line. -/
def carriageReturn : UInt8 := 0x0d

/-- The text with a carriage return before every end of a line. -/
def withReturns (text : Text) : Text :=
  text.flatMap fun b => if b = newline then [carriageReturn, newline] else [b]

/-- The line is the same, or has a carriage return at its end. -/
def Returned (line other : Text) : Prop :=
  other = line ∨ other = line ++ [carriageReturn]

/-- A byte in front of the first line of both texts. -/
theorem forall₂_returned_modifyHead {lines others : List Text}
    (h : List.Forall₂ Returned lines others) (b : UInt8) :
    List.Forall₂ Returned (lines.modifyHead (b :: ·)) (others.modifyHead (b :: ·)) := by
  cases h with
  | nil => exact .nil
  | cons hline hlines =>
      refine .cons ?_ hlines
      rcases hline with rfl | rfl
      · exact .inl rfl
      · exact .inr rfl

/-- With a carriage return before every newline, each line but the last ends with one. -/
theorem lines_withReturns (text : Text) :
    List.Forall₂ Returned text.lines text.withReturns.lines := by
  induction text with
  | nil => exact .cons (.inl rfl) .nil
  | cons b text ih =>
      by_cases h : b = newline
      · have hfront : withReturns (b :: text) =
            [carriageReturn] ++ newline :: withReturns text := by
          rw [withReturns, List.flatMap_cons, if_pos h]
          rfl
        rw [hfront, lines_append_cons, lines_cons, if_pos h]
        exact .cons (.inr rfl) ih
      · have hfront : withReturns (b :: text) = b :: withReturns text := by
          rw [withReturns, List.flatMap_cons, if_neg h]
          rfl
        rw [hfront, lines_cons, lines_cons, if_neg h, if_neg h]
        exact forall₂_returned_modifyHead ih b

end Text

namespace Script

/-! ## One script below another -/

/-- What is read from lines that stand `n` lines further down. -/
def lowered (n : Nat) : Except Fault (List Command) → Except Fault (List Command)
  | .error fault => .error { fault with line := fault.line + n }
  | .ok commands => .ok (commands.map fun command => { command with line := command.line + n })

/-- A line further down is read alike, with the number moved. -/
theorem parseLine_lowered (number n : Nat) (words : List Text) :
    parseLine (number + n) words = match parseLine number words with
      | .error fault => .error { fault with line := fault.line + n }
      | .ok command? =>
        .ok (command?.map fun command => { command with line := command.line + n }) := by
  cases words with
  | nil => rfl
  | cons first arguments =>
      rw [parseLine, parseLine]
      split
      · rfl
      · cases Keyword.ofName? first with
        | none => rfl
        | some keyword =>
            simp only
            split <;> rfl

/-- Lines further down are read alike, with all numbers moved. -/
theorem parseLines_lowered (number n : Nat) (lines : List Text) :
    parseLines (number + n) lines = lowered n (parseLines number lines) := by
  induction lines generalizing number with
  | nil => rfl
  | cons line rest ih =>
      have hrest := ih (number + 1)
      rw [Nat.add_right_comm] at hrest
      rw [parseLines_cons, parseLines_cons, parseLine_lowered, hrest]
      cases parseLine number line.words with
      | error fault => rfl
      | ok command? =>
          cases command? with
          | none => rfl
          | some command => cases parseLines (number + 1) rest <;> rfl

/-- Lines are read one after the other, up to the first that is wrong. -/
theorem parseLines_append (number : Nat) (lines more : List Text) :
    parseLines number (lines ++ more) = match parseLines number lines with
      | .error fault => .error fault
      | .ok commands => (parseLines (number + lines.length) more).map (commands ++ ·) := by
  induction lines generalizing number with
  | nil =>
      show parseLines number more = (parseLines number more).map id
      cases parseLines number more <;> rfl
  | cons line rest ih =>
      have hnumber : number + 1 + rest.length = number + (line :: rest).length := by
        rw [List.length_cons]
        omega
      rw [List.cons_append, parseLines_cons, parseLines_cons, ih (number + 1), hnumber]
      cases parseLine number line.words with
      | error fault => rfl
      | ok command? =>
          cases command? with
          | none => rfl
          | some command =>
              cases parseLines (number + 1) rest with
              | error fault => rfl
              | ok commands => cases parseLines (number + (line :: rest).length) more <;> rfl

/-- What is read from two scripts, one below the other. -/
theorem parse_append_cons (before after : Text) :
    parse (before ++ Text.newline :: after) = match parse before with
      | .error fault => .error fault
      | .ok commands =>
        (lowered (before.count Text.newline + 1) (parse after)).map (commands ++ ·) := by
  rw [parse_eq, Text.lines_append_cons, parseLines_append, parseLines_lowered, Text.length_lines]
  rfl

/-! ## Lines laid out in other ways -/

/-- Changes of a line that leave it as it is for the reader. -/
inductive Relaid : Text → Text → Prop
  /-- There are more blanks before the first word. -/
  | front {gap : Text} (hgap : gap.Gap) (line : Text) : Relaid line (gap ++ line)
  /-- There are more blanks after the last word. -/
  | back {gap : Text} (hgap : gap.Gap) (line : Text) : Relaid line (line ++ gap)
  /-- There are other blanks between words. -/
  | between {gap other : Text} (hgap : gap.Gap) (hother : other.Gap) (hne : gap ≠ [])
      (hone : other ≠ []) (left right : Text) :
      Relaid (left ++ gap ++ right) (left ++ other ++ right)
  /-- A comment goes. -/
  | comment {line first : Text} {rest : List Text} (hspells : line.Spells (first :: rest))
      (hhash : first.head? = some Text.hash) (hline : Text.newline ∉ line) : Relaid line []

/-- A line that is laid out anew has the same words, or is a comment still. -/
theorem Relaid.parseLine_eq {line other : Text} (h : Relaid line other) (number : Nat) :
    parseLine number other.words = parseLine number line.words := by
  cases h with
  | front hgap => rw [Text.words_append_blank hgap.blank]
  | back hgap => rw [Text.words_gap hgap]
  | between hgap hother hne hone left right =>
      rw [Text.words_append_gap hgap hne, Text.words_append_gap hother hone]
  | comment hspells hhash hline =>
      rw [hspells.words_eq, parseLine, if_pos hhash]
      rfl

/-- A line stays one line. -/
theorem Relaid.newline_mem_iff {line other : Text} (h : Relaid line other) :
    Text.newline ∈ other ↔ Text.newline ∈ line := by
  cases h with
  | front hgap => simp [hgap.newline_not_mem]
  | back hgap => simp [hgap.newline_not_mem]
  | between hgap hother => simp [hgap.newline_not_mem, hother.newline_not_mem]
  | comment hspells hhash hline => simp [hline]

/-- A line laid out in any other way: as many changes as one likes, made or taken back. -/
abbrev LaidAlike : Text → Text → Prop :=
  Relation.EqvGen Relaid

/-- What no single change alters is the same for lines that are alike. -/
theorem LaidAlike.congr {α : Sort*} {f : Text → α} {line other : Text} (h : LaidAlike line other)
    (hf : ∀ {line other : Text}, Relaid line other → f other = f line) : f other = f line := by
  induction h with
  | rel line other h => exact hf h
  | refl line => rfl
  | symm line other _ ih => exact ih.symm
  | trans line other last _ _ ih ih' => exact ih'.trans ih

section LaidAlike

variable {lines others : List Text} (h : List.Forall₂ LaidAlike lines others)
include h

/-- Lines that are laid out alike are read alike. -/
theorem parseLines_alike (number : Nat) : parseLines number others = parseLines number lines := by
  induction h generalizing number with
  | nil => rfl
  | @cons line other lines others hline hlines ih =>
      have hread : parseLine number other.words = parseLine number line.words :=
        hline.congr fun hrelaid => hrelaid.parseLine_eq number
      rw [parseLines_cons, parseLines_cons, hread, ih]

/-- Laying out a line anew does not break it. -/
theorem unbroken_alike (hunbroken : ∀ line ∈ lines, Text.newline ∉ line) :
    ∀ other ∈ others, Text.newline ∉ other := by
  induction h with
  | nil => exact nofun
  | @cons line first lines others hline hlines ih =>
      rintro other (_ | ⟨_, hother⟩)
      · have hsame : (Text.newline ∈ first) = (Text.newline ∈ line) :=
          hline.congr fun hrelaid => propext hrelaid.newline_mem_iff
        rw [hsame]
        exact hunbroken line List.mem_cons_self
      · exact ih (fun line hline => hunbroken line (List.mem_cons_of_mem _ hline)) other hother

end LaidAlike

/-- Lines that are laid out in another way are the lines of a text, and what is read from it is the
    same. -/
theorem parse_join_alike {text : Text} {lines : List Text}
    (h : List.Forall₂ LaidAlike text.lines lines) :
    (Text.join Text.newline lines).lines = lines ∧
      parse (Text.join Text.newline lines) = parse text := by
  obtain ⟨hne, hunbroken, -⟩ := Text.hasLines_lines text
  have hsame : (Text.join Text.newline lines).lines = lines := by
    refine Text.hasLines_iff.mp ⟨?_, unbroken_alike h hunbroken, rfl⟩
    rintro rfl
    exact hne (List.forall₂_nil_right_iff.mp h)
  refine ⟨hsame, ?_⟩
  rw [parse_eq, hsame, parse_eq]
  exact parseLines_alike h 1

theorem alike_of_returned {line other : Text} (h : Text.Returned line other) :
    LaidAlike line other := by
  rcases h with rfl | rfl
  · exact .refl _
  · exact .rel _ _ (.back (by decide +kernel) line)

/-- Carriage returns before the newlines are blanks at the ends of the lines. -/
theorem parse_withReturns (text : Text) : parse text.withReturns = parse text := by
  have halike := (Text.lines_withReturns text).imp fun _ _ => alike_of_returned
  have hparse := (parse_join_alike halike).2
  rwa [(Text.hasLines_lines text.withReturns).joined] at hparse

/-- Of two scripts, one below the other, first the first is read. If it is right the second is read,
    and whatever is found there, commands or what is wrong, stands as many lines further down as the
    first has. And no line needs to be laid out as it is: blanks at its ends may come and go, blanks
    between words may be others and more or fewer, and a comment may be left out. However many lines
    are laid out in other ways, they are the lines of a text, and what is read from it is the same.
    So it does not matter either whether lines end with a carriage return. -/
theorem parse_layout :
    (∀ before after : Text,
      parse (before ++ Text.newline :: after) = match parse before with
        | .error fault => .error fault
        | .ok commands =>
          (lowered (before.count Text.newline + 1) (parse after)).map (commands ++ ·)) ∧
    (∀ (text : Text) (lines : List Text), List.Forall₂ LaidAlike text.lines lines →
      (Text.join Text.newline lines).lines = lines ∧
        parse (Text.join Text.newline lines) = parse text) ∧
    ∀ text : Text, parse text.withReturns = parse text := by
  refine ⟨?appended, ?relaid, ?returns⟩
  case appended =>
    intro before after
    exact parse_append_cons before after
  case relaid =>
    intro text lines halike
    exact parse_join_alike halike
  case returns =>
    intro text
    exact parse_withReturns text

/-- Before the keyword a tab goes, the two spaces after it become one, and after the argument comes
    a carriage return. A comment goes, and the last line ends with a form feed. -/
theorem parse_layout_tidied :
    parse "scope a\r\n\nlabel\x0c" = parse "\tscope  a\n # b\nlabel" := by
  have hscope : LaidAlike "\tscope  a" "scope a\r" := by
    have hfront : LaidAlike (("\t" : Text) ++ ("scope  a" : Text)) "scope  a" :=
      .symm _ _ (.rel _ _ (.front (by decide +kernel) _))
    have hbetween : LaidAlike (("scope" : Text) ++ ("  " : Text) ++ ("a" : Text))
        (("scope" : Text) ++ (" " : Text) ++ ("a" : Text)) :=
      .rel _ _ (.between (by decide +kernel) (by decide +kernel) (by decide) (by decide) _ _)
    have hback : LaidAlike "scope a" (("scope a" : Text) ++ [Text.carriageReturn]) :=
      .rel _ _ (.back (by decide +kernel) _)
    exact (hfront.trans _ _ _ hbetween).trans _ _ _ hback
  have hspells : Text.Spells " # b" ["#", "b"] := Text.spells_iff.mpr (by decide +kernel)
  have hcomment : LaidAlike " # b" [] := .rel _ _ (.comment hspells rfl (by decide +kernel))
  have hlabel : LaidAlike "label" (("label" : Text) ++ ("\x0c" : Text)) :=
    .rel _ _ (.back (by decide +kernel) _)
  have hlines : Text.lines "\tscope  a\n # b\nlabel" = ["\tscope  a", " # b", "label"] := by
    decide +kernel
  have halike : List.Forall₂ LaidAlike (Text.lines "\tscope  a\n # b\nlabel")
      ["scope a\r", [], ("label" : Text) ++ ("\x0c" : Text)] := by
    rw [hlines]
    exact .cons hscope (.cons hcomment (.cons hlabel .nil))
  exact (parse_layout.2.1 _ _ halike).2

end Script

end ScopedLabels
