import Mathlib.Data.List.Forall2
import ScopedLabels.Script.Parser

/-!
# Grammar — which texts are scripts, and what is wrong with the others

Reading a script cuts a text twice, into lines and into words. This file first says what the pieces
are without cutting anything: `Text.HasLines` and `Text.Spells` describe a text by its pieces and by
what stands between them, and exactly one list of pieces fits (`hasLines_iff`, `spells_iff`).

On top of that stands the grammar of a line. `Asks` lists the lines that are accepted, with the verb
that such a line asks for, if it asks for one; `Offends` lists the others, with what is wrong. Every
line is of one of these kinds and of no other. A script is then read line by line, and
`parse_exact` says that the reader accepts the lists of accepted lines and no others, and that it
refuses every other text for the first line that offends.
-/

namespace ScopedLabels

namespace Text

/-! ## Lines -/

/-- A text is made of lines: at least one, none with an end-of-line byte inside, and one such byte
    between neighbours. -/
structure HasLines (text : Text) (lines : List Text) : Prop where
  ne_nil : lines ≠ []
  unbroken : ∀ line ∈ lines, newline ∉ line
  joined : join newline lines = text

/-- Bytes outside the class stay together in front of the first cut. -/
theorem splitWhere_append {p : UInt8 → Bool} {piece : Text} (h : ∀ b ∈ piece, p b = false)
    (rest : Text) :
    splitWhere p (piece ++ rest) = (splitWhere p rest).modifyHead (piece ++ ·) := by
  induction piece with
  | nil =>
      show splitWhere p rest = (splitWhere p rest).modifyHead id
      rw [List.modifyHead_id]
      rfl
  | cons b piece ih =>
      have hb : ¬ p b = true := by simp [h b List.mem_cons_self]
      have hpiece := ih fun c hc => h c (List.mem_cons_of_mem b hc)
      rw [List.cons_append, splitWhere_cons, if_neg hb, hpiece, List.modifyHead_modifyHead]
      rfl

/-- Cutting at a separator undoes joining with it, if the pieces do not hold it. -/
theorem splitWhere_join {separator : UInt8} {pieces : List Text} (hne : pieces ≠ [])
    (hwhole : ∀ piece ∈ pieces, separator ∉ piece) :
    splitWhere (· == separator) (join separator pieces) = pieces := by
  induction pieces with
  | nil => exact absurd rfl hne
  | cons piece rest ih =>
      have hpiece : ∀ b ∈ piece, (b == separator) = false := by
        intro b hb
        rw [beq_eq_false_iff_ne]
        rintro rfl
        exact hwhole piece List.mem_cons_self hb
      cases rest with
      | nil =>
          have hcut := splitWhere_append hpiece []
          rw [List.append_nil] at hcut
          rw [join_singleton, hcut]
          simp
      | cons next rest =>
          have hrest := ih (List.cons_ne_nil _ _)
            fun other hother => hwhole other (List.mem_cons_of_mem piece hother)
          rw [join_cons_cons, splitWhere_append hpiece, splitWhere_cons, if_pos (by simp), hrest]
          simp

/-- A newline begins a new line, and any other byte belongs to the first. -/
theorem lines_cons (b : UInt8) (text : Text) :
    lines (b :: text) = if b = newline then [] :: lines text
      else (lines text).modifyHead (b :: ·) := by
  rw [lines, splitWhere_cons]
  by_cases h : b = newline
  · rw [if_pos (by simp [h]), if_pos h]
    rfl
  · rw [if_neg (by simp [h]), if_neg h]
    rfl

/-- A text has the lines that it is split into. -/
theorem hasLines_lines (text : Text) : text.HasLines text.lines := by
  induction text with
  | nil => exact ⟨List.cons_ne_nil _ _, by simp [lines], rfl⟩
  | cons b text ih =>
      obtain ⟨hne, hunbroken, hjoined⟩ := ih
      rw [lines_cons]
      cases hlines : lines text with
      | nil => exact absurd hlines hne
      | cons line rest =>
          rw [hlines] at hunbroken hjoined
          by_cases h : b = newline
          · rw [if_pos h]
            refine ⟨List.cons_ne_nil _ _, ?_, ?_⟩
            · rintro other (_ | ⟨_, hother⟩)
              · exact List.not_mem_nil
              · exact hunbroken other hother
            · rw [join_cons_cons, hjoined, h]
              rfl
          · rw [if_neg h, List.modifyHead_cons]
            refine ⟨List.cons_ne_nil _ _, ?_, ?_⟩
            · rintro other (_ | ⟨_, hother⟩)
              · rintro (_ | ⟨_, hmem⟩)
                · exact h rfl
                · exact hunbroken line List.mem_cons_self hmem
              · exact hunbroken other (List.mem_cons_of_mem line hother)
            · rw [← hjoined]
              cases rest with
              | nil => rw [join_singleton, join_singleton]
              | cons next rest =>
                  rw [join_cons_cons, join_cons_cons]
                  rfl

/-- The lines of a text are the only ones that it is made of. -/
theorem hasLines_iff {text : Text} {lines : List Text} :
    text.HasLines lines ↔ text.lines = lines := by
  constructor
  · rintro ⟨hne, hunbroken, rfl⟩
    exact splitWhere_join hne hunbroken
  · rintro rfl
    exact hasLines_lines text

/-! ## Words -/

/-- A word is not empty and holds no blank. -/
def Word (word : Text) : Prop :=
  word ≠ [] ∧ ∀ b ∈ word, isBlank b = false

instance (word : Text) : Decidable word.Word :=
  inferInstanceAs (Decidable (_ ∧ _))

/-- A text spells words: they are not empty and hold no blank, and there are blanks between them and
    perhaps before the first and after the last. -/
inductive Spells : Text → List Text → Prop
  /-- Blanks only. -/
  | blank {gap : Text} (hgap : ∀ b ∈ gap, isBlank b = true) : Spells gap []
  /-- A word, perhaps after blanks. A blank comes next, if anything does. -/
  | word {gap word rest : Text} {words : List Text} (hgap : ∀ b ∈ gap, isBlank b = true)
      (hne : word ≠ []) (hword : ∀ b ∈ word, isBlank b = false)
      (hnext : ∀ b ∈ rest.head?, isBlank b = true) (hrest : Spells rest words) :
      Spells (gap ++ word ++ rest) (word :: words)

/-- What a text spells are words. -/
theorem Spells.word_of_mem {text : Text} {words : List Text} (h : text.Spells words) :
    ∀ word ∈ words, Word word := by
  induction h with
  | blank hgap => exact nofun
  | word hgap hne hword hnext hrest ih =>
      rintro other (_ | ⟨_, hmem⟩)
      · exact ⟨hne, hword⟩
      · exact ih other hmem

theorem words_cons_blank {b : UInt8} (h : isBlank b = true) (text : Text) :
    words (b :: text) = words text := by
  rw [words, splitWhere_cons, if_pos h]
  rfl

/-- Blanks in front of a text do not matter. -/
theorem words_append_blank {gap : Text} (h : ∀ b ∈ gap, isBlank b = true) (text : Text) :
    words (gap ++ text) = words text := by
  induction gap with
  | nil => rfl
  | cons b gap ih =>
      rw [List.cons_append, words_cons_blank (h b List.mem_cons_self)]
      exact ih fun c hc => h c (List.mem_cons_of_mem b hc)

/-- A word that is followed by a blank or by nothing is one of the words. -/
theorem words_append_word {word rest : Text} (hne : word ≠ [])
    (hword : ∀ b ∈ word, isBlank b = false) (hnext : ∀ b ∈ rest.head?, isBlank b = true) :
    words (word ++ rest) = word :: words rest := by
  have hkept : (!word.isEmpty) = true := by simp [hne]
  rw [words, splitWhere_append hword]
  cases rest with
  | nil => simp [words, hkept]
  | cons b rest =>
      have hb : isBlank b = true := hnext b rfl
      rw [splitWhere_cons, if_pos hb, words_cons_blank hb, List.modifyHead_cons, List.append_nil]
      exact List.filter_cons_of_pos hkept

/-- A text spells the words that it is split into, and no others. -/
theorem Spells.words_eq {text : Text} {words : List Text} (h : text.Spells words) :
    text.words = words := by
  induction h with
  | blank hgap =>
      have hwords := words_append_blank hgap []
      rwa [List.append_nil] at hwords
  | word hgap hne hword hnext hrest ih =>
      rw [List.append_assoc, words_append_blank hgap, words_append_word hne hword hnext, ih]

/-- One more byte in front is a blank, a word of its own, or the beginning of the first word. -/
theorem Spells.cons {text : Text} {words : List Text} (h : text.Spells words) (b : UInt8) :
    ∃ words', Spells (b :: text) words' := by
  by_cases hb : isBlank b = true
  · have hcons : ∀ {gap : Text}, (∀ c ∈ gap, isBlank c = true) →
        ∀ c ∈ b :: gap, isBlank c = true := by
      rintro gap hgap c (_ | ⟨_, hc⟩)
      · exact hb
      · exact hgap c hc
    cases h with
    | blank hgap => exact ⟨[], .blank (hcons hgap)⟩
    | word hgap hne hword hnext hrest => exact ⟨_, .word (hcons hgap) hne hword hnext hrest⟩
  · have hb : isBlank b = false := by simpa using hb
    have hone : ∀ c ∈ [b], isBlank c = false := by
      intro c hc
      rw [List.mem_singleton.mp hc]
      exact hb
    by_cases hnext : ∀ c ∈ text.head?, isBlank c = true
    · have hnil : ∀ c ∈ ([] : Text), isBlank c = true := nofun
      exact ⟨[b] :: words, Spells.word hnil (List.cons_ne_nil _ _) hone hnext h⟩
    · cases h with
      | blank hgap =>
          refine absurd (fun c hc => hgap c ?_) hnext
          exact List.mem_of_mem_head? hc
      | @word gap word rest words hgap hne hword hrestnext hrest =>
          cases gap with
          | cons c gap =>
              refine absurd (fun d hd => ?_) hnext
              cases hd
              exact hgap c List.mem_cons_self
          | nil =>
              -- the byte belongs to the first word
              refine ⟨(b :: word) :: words, ?_⟩
              have hlonger : ∀ c ∈ b :: word, isBlank c = false := by
                rintro c (_ | ⟨_, hc⟩)
                · exact hb
                · exact hword c hc
              exact Spells.word hgap (List.cons_ne_nil _ _) hlonger hrestnext hrest

/-- Every text spells some words, so it spells those that it is split into. -/
theorem spells_words (text : Text) : text.Spells text.words := by
  have hsome : ∃ words, text.Spells words := by
    induction text with
    | nil => exact ⟨[], .blank nofun⟩
    | cons b text ih =>
        obtain ⟨words, h⟩ := ih
        exact h.cons b
  obtain ⟨words, h⟩ := hsome
  rw [h.words_eq]
  exact h

/-- The words of a text are the only ones that it spells. -/
theorem spells_iff {text : Text} {words : List Text} :
    text.Spells words ↔ text.words = words := by
  constructor
  · exact Spells.words_eq
  · rintro rfl
    exact spells_words text

end Text

namespace Script

/-! ## Keywords -/

namespace Keyword

theorem ofName?_name (keyword : Keyword) : ofName? keyword.name = some keyword := by
  cases keyword <;> decide

/-- No keyword is found just if none has the name. -/
theorem ofName?_eq_none_iff {word : Text} :
    ofName? word = none ↔ ∀ keyword : Keyword, keyword.name ≠ word := by
  constructor
  · rintro h keyword rfl
    rw [ofName?_name] at h
    cases h
  · intro h
    refine List.find?_eq_none.mpr fun keyword _ => ?_
    simpa using h keyword

/-- No keyword looks like a comment. -/
theorem head?_name_ne_hash (keyword : Keyword) : keyword.name.head? ≠ some Text.hash := by
  cases keyword <;> decide

end Keyword

/-! ## Lines of a script -/

/-- The words that a verb is written with: its keyword, and its argument if it has one. -/
def Verb.words (verb : Verb) : List Text :=
  verb.keyword.name :: verb.argument.toList

/-- The lines that are accepted, each with the verb that it asks for, if it asks for one. -/
inductive Asks (line : Text) : Option Verb → Prop
  /-- There is no word. -/
  | blank (h : line.Spells []) : Asks line none
  /-- The first word begins with the comment byte. -/
  | comment {first : Text} {rest : List Text} (h : line.Spells (first :: rest))
      (hhash : first.head? = some Text.hash) : Asks line none
  /-- The words are those of a verb. -/
  | command {verb : Verb} (h : line.Spells verb.words) : Asks line (some verb)

/-- The lines that are refused, each with what is wrong. -/
inductive Offends (line : Text) : Defect → Prop
  /-- The first word is no keyword. -/
  | unknown {first : Text} {rest : List Text} (h : line.Spells (first :: rest))
      (hhash : first.head? ≠ some Text.hash)
      (hunknown : ∀ keyword : Keyword, keyword.name ≠ first) : Offends line (.unknownCommand first)
  /-- The first word is a keyword, and no verb is written with the words after it. -/
  | excess {keyword : Keyword} {rest : List Text} (h : line.Spells (keyword.name :: rest))
      (hrest : ∀ verb : Verb, verb.words ≠ keyword.name :: rest) :
      Offends line (.tooManyArguments keyword.name)

/-- A keyword has room for some words if and only if they make a verb of it. -/
theorem Keyword.length_le_capacity_iff {keyword : Keyword} {rest : List Text} :
    rest.length ≤ keyword.capacity ↔ ∃ verb : Verb, verb.words = keyword.name :: rest := by
  constructor
  · intro h
    refine ⟨.ofKeyword keyword rest.head?, ?_⟩
    match rest, h with
    | [], _ => cases keyword <;> rfl
    | [argument], h => cases keyword <;> first | rfl | simp [capacity] at h
    | _ :: _ :: _, h => cases keyword <;> simp [capacity] at h
  · rintro ⟨verb, h⟩
    obtain ⟨hname, hrest⟩ := List.cons.inj h
    have hkeyword : verb.keyword = keyword := by
      have hfound := Keyword.ofName?_name verb.keyword
      rw [hname, Keyword.ofName?_name] at hfound
      exact (Option.some.inj hfound).symm
    rw [← hkeyword, ← hrest]
    cases verb with
    | scope argument | label argument | uid argument | reset argument =>
        cases argument <;> simp [Verb.keyword, Verb.argument, capacity]
    | leave | current => exact Nat.le_refl 0

section Lines

variable {line : Text}

/-- Every line is accepted or refused. -/
theorem asks_or_offends (line : Text) :
    (∃ verb?, Asks line verb?) ∨ ∃ defect, Offends line defect := by
  have hspells := Text.spells_words line
  cases hwords : Text.words line with
  | nil =>
      rw [hwords] at hspells
      exact .inl ⟨none, .blank hspells⟩
  | cons first rest =>
      rw [hwords] at hspells
      by_cases hhash : first.head? = some Text.hash
      · exact .inl ⟨none, .comment hspells hhash⟩
      · by_cases hkeyword : ∃ keyword : Keyword, keyword.name = first
        · obtain ⟨keyword, rfl⟩ := hkeyword
          by_cases hverb : ∃ verb : Verb, verb.words = keyword.name :: rest
          · obtain ⟨verb, hverb⟩ := hverb
            exact .inl ⟨some verb, .command (hverb ▸ hspells)⟩
          · exact .inr ⟨_, .excess hspells fun verb hverb' => hverb ⟨verb, hverb'⟩⟩
        · exact .inr ⟨_, .unknown hspells hhash fun keyword h => hkeyword ⟨keyword, h⟩⟩

/-- What an accepted line asks for is what is read from its words. -/
theorem Asks.parseLine_eq {verb? : Option Verb} (h : Asks line verb?) (number : Nat) :
    parseLine number line.words = .ok (verb?.map (⟨·, number⟩)) := by
  cases h with
  | blank h =>
      rw [h.words_eq]
      rfl
  | comment h hhash =>
      rw [h.words_eq, parseLine, if_pos hhash]
      rfl
  | @command verb h =>
      have hroom : verb.argument.toList.length ≤ verb.keyword.capacity :=
        Keyword.length_le_capacity_iff.mpr ⟨verb, rfl⟩
      rw [h.words_eq, Verb.words, parseLine, if_neg verb.keyword.head?_name_ne_hash,
        Keyword.ofName?_name]
      simp only [if_neg (Nat.not_lt.mpr hroom)]
      -- a verb is made of its keyword and its argument
      cases verb with
      | scope argument | label argument | uid argument | reset argument =>
          cases argument <;> rfl
      | leave | current => rfl

/-- What is wrong with a refused line is what is found in its words. -/
theorem Offends.parseLine_eq {defect : Defect} (h : Offends line defect) (number : Nat) :
    parseLine number line.words = .error ⟨number, defect⟩ := by
  cases h with
  | unknown h hhash hunknown =>
      rw [h.words_eq, parseLine, if_neg hhash, Keyword.ofName?_eq_none_iff.mpr hunknown]
  | @excess keyword rest h hrest =>
      have hfull : keyword.capacity < rest.length := by
        rw [← Nat.not_le, Keyword.length_le_capacity_iff]
        exact fun ⟨verb, hverb⟩ => hrest verb hverb
      rw [h.words_eq, parseLine, if_neg keyword.head?_name_ne_hash, Keyword.ofName?_name]
      simp only [if_pos hfull]

/-- A line is not both accepted and refused. -/
theorem Asks.not_offends {verb? : Option Verb} (h : Asks line verb?) (defect : Defect) :
    ¬ Offends line defect := by
  intro hoffends
  have hline := h.parseLine_eq 0
  rw [hoffends.parseLine_eq 0] at hline
  cases hline

end Lines

/-! ## Scripts -/

/-- Read some lines of a script, of which the first has this number. -/
def parseLines (number : Nat) (lines : List Text) : Except Fault (List Command) :=
  (lines.zipIdx number).filterMapM fun (line, number) => parseLine number line.words

theorem parse_eq (text : Text) : parse text = parseLines 1 text.lines := rfl

/-- Each of some lines is accepted. -/
theorem exists_asks_of_mem {lines : List Text} {asked : List (Option Verb)}
    (h : List.Forall₂ Asks lines asked) : ∀ line ∈ lines, ∃ verb?, Asks line verb? := by
  induction h with
  | nil => exact nofun
  | cons hline hlines ih =>
      rintro line (_ | ⟨_, hmem⟩)
      · exact ⟨_, hline⟩
      · exact ih line hmem

/-- Lines that may ask for verbs, as commands; the first line has this number. -/
def commandsFrom (number : Nat) (asked : List (Option Verb)) : List Command :=
  (asked.zipIdx number).filterMap fun (verb?, number) => verb?.map (⟨·, number⟩)

/-- The lines are read one after the other, and the first fault ends the reading. -/
theorem parseLines_cons (number : Nat) (line : Text) (rest : List Text) :
    parseLines number (line :: rest) = match parseLine number line.words with
      | .error fault => .error fault
      | .ok none => parseLines (number + 1) rest
      | .ok (some command) => (parseLines (number + 1) rest).map (command :: ·) := by
  simp only [parseLines, List.zipIdx_cons, List.filterMapM_cons]
  cases parseLine number line.words with
  | error fault => rfl
  | ok command? =>
      cases command? with
      | none => rfl
      | some command =>
          simp only [bind, Except.bind]
          split <;> simp_all [Except.map, pure, Except.pure]

/-- Accepted lines are read as what they ask for. -/
theorem parseLines_asks {lines : List Text} {asked : List (Option Verb)}
    (h : List.Forall₂ Asks lines asked) (number : Nat) :
    parseLines number lines = .ok (commandsFrom number asked) := by
  induction h generalizing number with
  | nil => rfl
  | @cons line verb? lines asked hline hlines ih =>
      rw [parseLines_cons, hline.parseLine_eq, commandsFrom, List.zipIdx_cons]
      cases verb? with
      | none => exact ih (number + 1)
      | some verb =>
          simp only [Option.map_some, ih (number + 1)]
          rfl

/-- The first line that is refused is where reading stops. -/
theorem parseLines_offends {before : List Text} {line : Text} {defect : Defect}
    (hbefore : ∀ earlier ∈ before, ∃ verb?, Asks earlier verb?) (h : Offends line defect)
    (after : List Text) (number : Nat) :
    parseLines number (before ++ line :: after) = .error ⟨number + before.length, defect⟩ := by
  induction before generalizing number with
  | nil =>
      rw [List.nil_append, parseLines_cons, h.parseLine_eq]
      rfl
  | cons earlier before ih =>
      obtain ⟨verb?, hasks⟩ := hbefore earlier List.mem_cons_self
      have hrest := ih (fun other hother => hbefore other (List.mem_cons_of_mem _ hother))
        (number + 1)
      have hnumber : number + 1 + before.length = number + (earlier :: before).length := by
        rw [List.length_cons]
        omega
      rw [hnumber] at hrest
      rw [List.cons_append, parseLines_cons, hasks.parseLine_eq, hrest]
      cases verb? <;> rfl

/-- Either all lines are accepted, or there is a first one that is refused. -/
theorem forall_asks_or_offends (lines : List Text) :
    (∃ asked, List.Forall₂ Asks lines asked) ∨
      ∃ before line after defect, lines = before ++ line :: after ∧
        (∀ earlier ∈ before, ∃ verb?, Asks earlier verb?) ∧ Offends line defect := by
  induction lines with
  | nil => exact .inl ⟨[], .nil⟩
  | cons line lines ih =>
      rcases asks_or_offends line with ⟨verb?, hasks⟩ | ⟨defect, hoffends⟩
      · rcases ih with ⟨asked, hall⟩ | ⟨before, first, after, defect, rfl, hbefore, hoffends⟩
        · exact .inl ⟨verb? :: asked, .cons hasks hall⟩
        · refine .inr ⟨line :: before, first, after, defect, rfl, ?_, hoffends⟩
          rintro earlier (_ | ⟨_, hearlier⟩)
          · exact ⟨verb?, hasks⟩
          · exact hbefore earlier hearlier
      · exact .inr ⟨[], line, lines, defect, rfl, nofun, hoffends⟩

/-- Reading accepts exactly the scripts. A text is a script if each of its lines is accepted, and it
    is read as the verbs that these lines ask for, each with the number of its line. Any other text
    is refused for the first of its lines that offends, with the number of that line. -/
theorem parse_exact (text : Text) :
    (∀ lines, text.HasLines lines ↔ text.lines = lines) ∧
    ((∃ commands, parse text = .ok commands) ↔
      ∀ line ∈ text.lines, ∃ verb?, Asks line verb?) ∧
    (∀ commands, parse text = .ok commands ↔
      ∃ asked, List.Forall₂ Asks text.lines asked ∧ commands = commandsFrom 1 asked) ∧
    (∀ fault, parse text = .error fault ↔
      ∃ before line after, text.lines = before ++ line :: after ∧
        (∀ earlier ∈ before, ∃ verb?, Asks earlier verb?) ∧
        fault.line = before.length + 1 ∧ Offends line fault.defect) := by
  -- any text is accepted line by line or has a first line that offends, and the parser agrees with
  -- both
  have hread : ∀ commands, parse text = .ok commands ↔
      ∃ asked, List.Forall₂ Asks text.lines asked ∧ commands = commandsFrom 1 asked := by
    intro commands
    constructor
    · intro h
      rcases forall_asks_or_offends text.lines with
        ⟨asked, hall⟩ | ⟨before, line, after, defect, hlines, hbefore, hoffends⟩
      · rw [parse_eq, parseLines_asks hall] at h
        cases h
        exact ⟨asked, hall, rfl⟩
      · rw [parse_eq, hlines, parseLines_offends hbefore hoffends] at h
        cases h
    · rintro ⟨asked, hall, rfl⟩
      exact parseLines_asks hall 1
  refine ⟨fun lines => Text.hasLines_iff, ?accepted, hread, ?refused⟩
  case accepted =>
    constructor
    · rintro ⟨commands, h⟩ line hline
      obtain ⟨asked, hall, -⟩ := (hread commands).mp h
      exact exists_asks_of_mem hall line hline
    · intro hall
      rcases forall_asks_or_offends text.lines with
        ⟨asked, hasked⟩ | ⟨before, line, after, defect, hlines, -, hoffends⟩
      · exact ⟨_, parseLines_asks hasked 1⟩
      · obtain ⟨verb?, hasks⟩ := hall line (by simp [hlines])
        exact absurd hoffends (hasks.not_offends defect)
  case refused =>
    rintro ⟨number, defect⟩
    constructor
    · intro h
      rcases forall_asks_or_offends text.lines with
        ⟨asked, hall⟩ | ⟨before, line, after, defect', hlines, hbefore, hoffends⟩
      · rw [parse_eq, parseLines_asks hall] at h
        cases h
      · rw [parse_eq, hlines, parseLines_offends hbefore hoffends] at h
        cases h
        exact ⟨before, line, after, hlines, hbefore, Nat.add_comm _ _, hoffends⟩
    · rintro ⟨before, line, after, hlines, hbefore, hnumber, hoffends⟩
      have hnumber : number = before.length + 1 := hnumber
      rw [parse_eq, hlines, parseLines_offends hbefore hoffends, hnumber, Nat.add_comm]

example : parse "\r\n label\ta#b \n#end\nend x\nnone" =
    .error ⟨4, .tooManyArguments "end"⟩ := by
  decide +kernel

end Script

end ScopedLabels
