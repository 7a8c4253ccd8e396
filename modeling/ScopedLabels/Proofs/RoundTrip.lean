import ScopedLabels.Proofs.Halting
import ScopedLabels.Proofs.Layout
import ScopedLabels.Script.Printer

/-!
# Round trips — what is written is read again

A verb is written as the words it consists of, with a space between them, and a script as its verbs,
one to a line. The words of such a line are the ones it was made of (`Text.words_join`), so the line
asks for the verb and for nothing else, whatever bytes the argument holds: it may look like a
keyword or like a comment. All that matters is that it is a word, and every argument that was ever
read from a text is one (`plain_of_parse`).

So reading undoes writing, and writing what was read from any text, however that was laid out, gives
a text that is read alike (`rendering_reads_back`).
-/

namespace ScopedLabels

namespace Text

/-! ## Words and the line they stand on -/

theorem words_singleton {word : Text} (h : word.Word) : words word = [word] := by
  have hwords : words (word ++ []) = word :: words [] := words_append_word h.1 h.2 nofun
  rwa [List.append_nil] at hwords

/-- Words with a space between neighbours are the words of their line. -/
theorem words_join {pieces : List Text} (h : ∀ piece ∈ pieces, piece.Word) :
    words (join space pieces) = pieces := by
  induction pieces with
  | nil => rfl
  | cons piece rest ih =>
      have hpiece := words_singleton (h piece List.mem_cons_self)
      cases rest with
      | nil => rw [join_singleton, hpiece]
      | cons next rest =>
          have hrest := ih fun other hother => h other (List.mem_cons_of_mem piece hother)
          rw [join_cons_cons, words_append_cons (by decide), hpiece, hrest]
          rfl

/-- Words with a space between neighbours stand on one line. -/
theorem newline_not_mem_join {pieces : List Text} (h : ∀ piece ∈ pieces, piece.Word) :
    newline ∉ join space pieces := by
  induction pieces with
  | nil => exact List.not_mem_nil
  | cons piece rest ih =>
      have hpiece : newline ∉ piece := by
        intro hmem
        have hblank := (h piece List.mem_cons_self).2 newline hmem
        exact absurd hblank (by decide)
      cases rest with
      | nil => rwa [join_singleton]
      | cons next rest =>
          have hrest := ih fun other hother => h other (List.mem_cons_of_mem piece hother)
          rw [join_cons_cons, List.mem_append, List.mem_cons]
          rintro (hmem | hmem | hmem)
          · exact hpiece hmem
          · exact absurd hmem (by decide)
          · exact hrest hmem

end Text

namespace Script

/-! ## Verbs -/

theorem Keyword.word_name (keyword : Keyword) : keyword.name.Word := by
  cases keyword <;> decide +kernel

/-- The argument of a verb, if it has one, is a word. -/
def Verb.Plain (verb : Verb) : Prop :=
  ∀ argument ∈ verb.argument, argument.Word

instance (verb : Verb) : Decidable verb.Plain :=
  inferInstanceAs (Decidable (∀ argument ∈ verb.argument, _))

/-- The keyword and the argument of a plain verb are words. -/
theorem Verb.Plain.word_of_mem {verb : Verb} (h : verb.Plain) : ∀ word ∈ verb.words, word.Word := by
  rintro word (_ | ⟨_, hmem⟩)
  · exact verb.keyword.word_name
  · exact h word (Option.mem_toList.mp hmem)

/-- The line that a verb is written as asks for the verb. -/
theorem asks_render {verb : Verb} (h : verb.Plain) : Asks verb.render (some verb) :=
  .command (Text.spells_iff.mpr (Text.words_join h.word_of_mem))

/-- A verb that a line asks for has a word for its argument, if it has one. -/
theorem Asks.plain {line : Text} {verb : Verb} (h : Asks line (some verb)) : verb.Plain := by
  cases h with
  | command hspells =>
      intro argument hargument
      exact hspells.word_of_mem argument (List.mem_cons_of_mem _ (Option.mem_toList.mpr hargument))

/-! ## Scripts -/

section Scripts

variable {verbs : List Verb}

/-- Lines that all ask for a verb are numbered one after the other. -/
theorem commandsFrom_map_some (verbs : List Verb) :
    commandsFrom 1 (verbs.map some) = numbered verbs := by
  rw [commandsFrom, numbered, List.zipIdx_map, List.filterMap_map]
  exact congrFun List.filterMap_eq_map (verbs.zipIdx 1)

theorem verbs_numbered (verbs : List Verb) : (numbered verbs).map Command.verb = verbs := by
  rw [numbered, List.map_map]
  exact List.zipIdx_map_fst 1 verbs

/-- Commands are numbered from 1 without gaps. -/
theorem lines_numbered (verbs : List Verb) :
    (numbered verbs).map Command.line = List.range' 1 verbs.length := by
  rw [numbered, List.map_map]
  exact List.zipIdx_map_snd 1 verbs

/-- Reading undoes writing. -/
theorem parse_render (h : ∀ verb ∈ verbs, verb.Plain) :
    parse (render verbs) = .ok (numbered verbs) := by
  by_cases hne : verbs = []
  · rw [hne]
    rfl
  · have hlines : (render verbs).lines = verbs.map Verb.render := by
      refine Text.hasLines_iff.mp ⟨by simpa using hne, ?_, rfl⟩
      intro line hline
      obtain ⟨verb, hverb, rfl⟩ := List.mem_map.mp hline
      exact Text.newline_not_mem_join (h verb hverb).word_of_mem
    have hasks : List.Forall₂ Asks (verbs.map Verb.render) (verbs.map some) := by
      rw [List.forall₂_map_left_iff, List.forall₂_map_right_iff, List.forall₂_same]
      intro verb hverb
      exact asks_render (h verb hverb)
    rw [parse_eq, hlines, parseLines_asks hasks, commandsFrom_map_some]

/-- It does not matter whether the last line ends like the others. -/
theorem parse_concat_newline (text : Text) : parse (text ++ [Text.newline]) = parse text := by
  rw [parse_append_cons]
  cases parse text with
  | error fault => rfl
  | ok commands =>
      show Except.ok (commands ++ []) = Except.ok commands
      rw [List.append_nil]

/-- What is read has only words for arguments. -/
theorem plain_of_parse {text : Text} {commands : List Command} (h : parse text = .ok commands) :
    ∀ command ∈ commands, command.verb.Plain := by
  intro command hcommand
  obtain ⟨i, line, -, -, hasks⟩ := line_of_parse h hcommand
  exact hasks.plain

end Scripts

/-- Verbs whose arguments are words, of whatever bytes, are read again from the script that they are
    written as, with or without an end of its last line: the same verbs in the same order, and the
    lines are counted from one. The verbs that are read from any text are such verbs, and writing
    them and reading the result gives them again. -/
theorem rendering_reads_back :
    (∀ verbs : List Verb, (∀ verb ∈ verbs, ∀ argument ∈ verb.argument,
        argument ≠ [] ∧ ∀ b ∈ argument, Text.isBlank b = false) →
      parse (render verbs) = .ok (numbered verbs) ∧
      parse (render verbs ++ [Text.newline]) = .ok (numbered verbs)) ∧
    (∀ verbs : List Verb, (numbered verbs).map Command.verb = verbs ∧
      (numbered verbs).map Command.line = List.range' 1 verbs.length) ∧
    ∀ (text : Text) (commands : List Command), parse text = .ok commands →
      ∃ again, parse (render (commands.map Command.verb)) = .ok again ∧
        again.map Command.verb = commands.map Command.verb := by
  refine ⟨?written, fun verbs => ⟨verbs_numbered verbs, lines_numbered verbs⟩, ?read⟩
  case written =>
    intro verbs hplain
    have hread : parse (render verbs) = .ok (numbered verbs) := parse_render hplain
    exact ⟨hread, (parse_concat_newline _).trans hread⟩
  case read =>
    intro text commands h
    refine ⟨numbered (commands.map Command.verb), parse_render ?_, verbs_numbered _⟩
    intro verb hverb
    obtain ⟨command, hcommand, rfl⟩ := List.mem_map.mp hverb
    exact plain_of_parse h command hcommand

/-- Arguments that look like a comment, like a keyword and like nothing at all. -/
def oddVerbs : List Verb :=
  [.scope (some "#a"), .label (some "end"), .uid (some [0x00, 0xff]), .current, .reset none, .leave]

/-- They are read again, and so is what is read from a text with blanks and a comment. -/
theorem rendering_reads_back_odd :
    parse (render oddVerbs ++ [Text.newline]) = .ok (numbered oddVerbs) ∧
      ∃ again, parse (render [.scope (some "#x"), .leave]) = .ok again ∧
        again.map Command.verb = [.scope (some "#x"), .leave] := by
  refine ⟨(rendering_reads_back.1 oddVerbs (by decide +kernel)).2, ?_⟩
  exact rendering_reads_back.2.2 "\r\n\tscope  #x \n # x\nend\n"
    [⟨.scope (some "#x"), 2⟩, ⟨.leave, 4⟩] (by decide +kernel)

end Script

end ScopedLabels
