import Mathlib.Data.List.Forall2
import ScopedLabels.CommandLine.Handler
import ScopedLabels.Proofs.Arguments

/-!
# Dispatch — every argument has one handler

Handlers act in a fixed order, and the order does not matter. Two things make this so. The handlers
of the options answer to different arguments: each has a `Vocabulary`, which is some words and all
texts with some beginnings, and the five vocabularies are `Apart` (`Vocabulary.options_apart`). And
a handler that has no answer leaves the reading as it found it, so those after it act as if it had
not been there (`inOrder_perm`).

The handlers are compared with the recognisers: a handler *follows* a recogniser if it does what the
recogniser says and nothing else. Each of them does, and hence so do handlers in order
(`inOrder_follows`, by induction on their list). What is said about recognisers then holds for
handlers, and reading an argument list is acting on one argument after the other
(`Parsed.ofArguments_turn`).
-/

namespace ScopedLabels.CommandLine

/-! ## Lists that correspond -/

section Correspond

variable {α β : Type} {C : α → β → Prop} {members : List α} {others : List β}

/-- Every member corresponds to some member of the other list. -/
theorem exists_of_mem_forall₂ (h : List.Forall₂ C members others) :
    ∀ a ∈ members, ∃ b ∈ others, C a b := by
  induction h with
  | nil => nofun
  | @cons a b members others hhead _ ih =>
      intro c hc
      rcases List.mem_cons.mp hc with rfl | hc
      · exact ⟨b, List.mem_cons_self, hhead⟩
      · obtain ⟨d, hd, hcorresponds⟩ := ih c hc
        exact ⟨d, List.mem_cons_of_mem b hd, hcorresponds⟩

/-- What holds of the pairs of a list carries over to a list that corresponds to it. -/
theorem pairwise_of_forall₂ {R : α → α → Prop} {S : β → β → Prop}
    (h : List.Forall₂ C members others) (hpairs : others.Pairwise S)
    (hcarries : ∀ a a' b b', C a b → C a' b' → S b b' → R a a') : members.Pairwise R := by
  induction h with
  | nil => exact .nil
  | @cons a b members others hhead htail ih =>
      obtain ⟨hfirst, hrest⟩ := List.pairwise_cons.mp hpairs
      refine List.pairwise_cons.mpr ⟨fun a' ha' => ?_, ih hrest⟩
      obtain ⟨b', hb', hcorresponds⟩ := exists_of_mem_forall₂ htail a' ha'
      exact hcarries a a' b b' hhead hcorresponds (hfirst b' hb')

end Correspond

/-! ## What an option is written as -/

/-- The arguments that a recogniser answers to: single words, and all texts with a beginning. -/
structure Vocabulary where
  words : List Text
  beginnings : List Text

namespace Vocabulary

variable {one other : Vocabulary} {argument : Text}

/-- The argument is one of the words, or has one of the beginnings. -/
def Covers (vocabulary : Vocabulary) (argument : Text) : Prop :=
  argument ∈ vocabulary.words ∨ ∃ flag ∈ vocabulary.beginnings, flag <+: argument

instance (vocabulary : Vocabulary) (argument : Text) : Decidable (vocabulary.Covers argument) :=
  inferInstanceAs (Decidable (_ ∨ _))

/-- No word of the one is covered by the other, and no two beginnings lie on one another. -/
structure Apart (one other : Vocabulary) : Prop where
  left : ∀ word ∈ one.words, ¬ other.Covers word
  right : ∀ word ∈ other.words, ¬ one.Covers word
  beginnings : ∀ flag ∈ one.beginnings, ∀ mark ∈ other.beginnings, ¬ flag <+: mark ∧ ¬ mark <+: flag

instance (one other : Vocabulary) : Decidable (one.Apart other) :=
  decidable_of_iff
    ((∀ word ∈ one.words, ¬ other.Covers word) ∧ (∀ word ∈ other.words, ¬ one.Covers word) ∧
      ∀ flag ∈ one.beginnings, ∀ mark ∈ other.beginnings, ¬ flag <+: mark ∧ ¬ mark <+: flag)
    ⟨fun h => ⟨h.1, h.2.1, h.2.2⟩, fun h => ⟨h.left, h.right, h.beginnings⟩⟩

/-- No argument is covered twice. -/
theorem Apart.not_covers (h : one.Apart other) (hone : one.Covers argument) :
    ¬ other.Covers argument := by
  rintro (hword | ⟨mark, hmark, hother⟩)
  · exact h.right argument hword hone
  · rcases hone with hword | ⟨flag, hflag, hone⟩
    · exact h.left argument hword (.inr ⟨mark, hmark, hother⟩)
    · -- of two beginnings of one text the shorter begins the longer
      obtain ⟨hapart, hapart'⟩ := h.beginnings flag hflag mark hmark
      rcases List.prefix_or_prefix_of_prefix hone hother with hlies | hlies
      · exact hapart hlies
      · exact hapart' hlies

/-- Asking for help. -/
def help : Vocabulary :=
  ⟨["-h", "--help"], []⟩

/-- Asking for a report of the metrics. -/
def metrics : Vocabulary :=
  ⟨["--metrics"], ["--metrics="]⟩

/-- Setting the threshold of the log. -/
def logLevel : Vocabulary :=
  ⟨[], ["--log-level="]⟩

/-- Setting a switch. -/
def switch : Vocabulary :=
  ⟨["--strict-names", "--no-fallback-warning"], []⟩

/-- Ending the options. -/
def endOfOptions : Vocabulary :=
  ⟨[endMark], []⟩

/-- The vocabularies of the options, in the order of their recognisers. -/
def options : List Vocabulary :=
  [help, metrics, logLevel, switch, endOfOptions]

/-- No argument is written as two of the options. -/
theorem options_apart : options.Pairwise Apart := by
  decide

end Vocabulary

/-- A recogniser has an answer to the arguments of a vocabulary and to no others. -/
def Recogniser.AnswersTo (recogniser : Recogniser) (vocabulary : Vocabulary) : Prop :=
  ∀ settings argument rest,
    recogniser settings argument rest ≠ .notMatched ↔ vocabulary.Covers argument

namespace Recogniser

theorem help_answersTo : help.AnswersTo .help := by
  intro settings argument rest
  rw [help]
  split <;> simp_all [Vocabulary.Covers, Vocabulary.help]

/-- The option for the metrics stands alone or gives a value, and a value is answered also where no
    format has that name. -/
theorem metrics_answersTo : metrics.AnswersTo .metrics := by
  intro settings argument rest
  by_cases hplain : argument = ("--metrics" : Text)
  · rw [metrics, if_pos hplain]
    simp [Vocabulary.Covers, Vocabulary.metrics, hplain]
  by_cases hflag : ("--metrics=" : Text) <+: argument
  · have hcovers : Vocabulary.metrics.Covers argument :=
      .inr ⟨_, List.mem_singleton_self _, hflag⟩
    obtain ⟨value, rfl⟩ := hflag
    refine iff_of_true ?_ hcovers
    simp only [metrics, if_neg hplain, isPrefixOf?_append]
    cases Format.ofName? value <;> simp
  · rw [metrics_notMatched hplain hflag]
    simp [Vocabulary.Covers, Vocabulary.metrics, hplain, hflag]

/-- The option for the severity gives a value, and it is answered also where no severity has that
    name. -/
theorem logLevel_answersTo : logLevel.AnswersTo .logLevel := by
  intro settings argument rest
  by_cases hflag : ("--log-level=" : Text) <+: argument
  · have hcovers : Vocabulary.logLevel.Covers argument :=
      .inr ⟨_, List.mem_singleton_self _, hflag⟩
    obtain ⟨value, rfl⟩ := hflag
    refine iff_of_true ?_ hcovers
    simp only [logLevel, isPrefixOf?_append]
    cases Level.ofName? value <;> simp
  · rw [logLevel, isPrefixOf?_eq_none hflag]
    simp [Vocabulary.Covers, Vocabulary.logLevel, hflag]

theorem switch_answersTo : switch.AnswersTo .switch := by
  intro settings argument rest
  rw [switch]
  split
  · simp_all [Vocabulary.Covers, Vocabulary.switch]
  · split <;> simp_all [Vocabulary.Covers, Vocabulary.switch]

theorem endOfOptions_answersTo : endOfOptions.AnswersTo .endOfOptions := by
  intro settings argument rest
  rw [endOfOptions]
  split <;> simp_all [Vocabulary.Covers, Vocabulary.endOfOptions, endMark]

/-- The recognisers of the options answer to their vocabularies, one to each. -/
theorem options_answerTo : List.Forall₂ AnswersTo options Vocabulary.options := by
  refine .cons help_answersTo ?_
  refine .cons metrics_answersTo ?_
  refine .cons logLevel_answersTo ?_
  refine .cons switch_answersTo ?_
  exact .cons endOfOptions_answersTo .nil

/-- At most one option has an answer to an argument. -/
theorem options_exclusive (settings : Settings) (argument : Text) (rest : List Text) :
    options.Pairwise fun one other =>
      one settings argument rest = .notMatched ∨ other settings argument rest = .notMatched := by
  refine pairwise_of_forall₂ options_answerTo Vocabulary.options_apart ?_
  intro one other vocabulary vocabulary' hone hother hapart
  by_contra hboth
  obtain ⟨hmatched, hmatched'⟩ := not_or.mp hboth
  exact hapart.not_covers ((hone settings argument rest).mp hmatched)
    ((hother settings argument rest).mp hmatched')

/-- The recogniser of scripts and unknown options has an answer to everything. -/
theorem positional_matched (settings : Settings) (argument : Text) (rest : List Text) :
    positional settings argument rest ≠ .notMatched := by
  rw [positional]
  split
  · simp
  · split <;> simp

/-- Every argument is taken or refused, and only the end of the options takes those behind it. -/
theorem any_cases (settings : Settings) (argument : Text) (rest : List Text) :
    (∃ fault, any settings argument rest = .rejected fault) ∧ argument ≠ endMark ∨
      ∃ after, any settings argument rest =
        .handled after (if argument = endMark then .all else .one) := by
  by_cases hend : argument = endMark
  · subst hend
    exact .inr ⟨_, rfl⟩
  rw [if_neg hend]
  by_cases hstops : Stops argument
  · rcases hstops with hhelp | ⟨fault, hrejects⟩
    · exact .inr ⟨_, any_help hhelp settings rest⟩
    · exact .inl ⟨⟨fault, any_rejected hrejects settings rest⟩, hend⟩
  · exact .inr ⟨_, any_ordinary hstops hend settings rest⟩

end Recogniser

/-! ## Doing as a recogniser says -/

/-- The place of a reading in an argument vector. -/
def Reading.cursor (reading : Reading) (arguments : List Text) (count : Nat) : Cursor :=
  { arguments, count, index := reading.index }

/-- What doing as a recognition says makes of a reading. -/
def Reading.enact (reading : Reading) (arguments : List Text) (count : Nat) :
    Recognition → Answer × Reading
  | .notMatched => (.notMatched, reading)
  | .handled settings extent =>
    (.handled, { reading with
      settings
      index := (reading.cursor arguments count).advance (.handled settings extent) })
  | .rejected fault => (.rejected, { reading with report := reading.report ++ fault.text })

/-- The arguments that are looked at from a place on begin with the one there. -/
theorem drop_take_eq_cons {arguments : List Text} {count index : Nat}
    (hcount : count ≤ arguments.length) (hindex : index < count) :
    (arguments.take count).drop index =
      arguments[index] :: (arguments.take count).drop (index + 1) := by
  rw [List.drop_eq_getElem_cons (by simp; omega), List.getElem_take]

namespace Handling

/-- What looks at the argument at the place needs one. -/
theorem argument_bind_apply {α : Type} (arguments : List Text) (next : Text → Handling α)
    (reading : Reading) :
    (argument arguments >>= next) reading =
      arguments[reading.index]?.bind fun argument => next argument reading := by
  show Option.bind (arguments[reading.index]?.map (·, reading)) _ = _
  cases arguments[reading.index]? <;> rfl

/-- Going through a table is finding the first entry of the name. -/
theorem choose_apply {α : Type} (name : α → Text) (store : α → Settings → Settings)
    (fault : Text → Fault) (value : Text) (entries : List α) (reading : Reading) :
    choose name store fault value entries reading =
      match entries.find? fun entry => name entry == value with
      | some entry => some (.handled, { reading with settings := store entry reading.settings })
      | none =>
        some (.rejected, { reading with report := reading.report ++ (fault value).text }) := by
  induction entries with
  | nil => rfl
  | cons entry entries ih =>
      rw [choose, List.find?_cons]
      by_cases h : value = name entry
      · have hname : (name entry == value) = true := beq_iff_eq.mpr h.symm
        rw [if_pos h, hname]
        rfl
      · have hname : (name entry == value) = false := beq_eq_false_iff_ne.mpr (Ne.symm h)
        rw [if_neg h, hname]
        exact ih

/-- Going through the arguments one by one keeps all that are looked at. -/
theorem keepRest_apply {arguments : List Text} {count : Nat} (hcount : count ≤ arguments.length)
    (reading : Reading) :
    keepRest arguments count reading = some ((),
      { reading with
        settings := { reading.settings with
          inputs := reading.settings.inputs ++ (arguments.take count).drop reading.index }
        index := max reading.index count }) := by
  induction reading using keepRest.induct count with
  | case1 reading hindex ih =>
      have hscript : arguments[reading.index]? = some arguments[reading.index] :=
        List.getElem?_eq_getElem (by omega)
      have hplace : max (reading.index + 1) count = max reading.index count := by omega
      rw [keepRest, if_pos hindex, hscript]
      refine (ih _).trans ?_
      simp only [drop_take_eq_cons hcount hindex, hplace, List.append_assoc, List.singleton_append]
  | case2 reading hindex =>
      have hdrop : (arguments.take count).drop reading.index = [] :=
        List.drop_eq_nil_of_le (by simp; omega)
      have hplace : max reading.index count = reading.index := by omega
      rw [keepRest, if_neg hindex, hdrop, hplace, List.append_nil]

end Handling

namespace Handler

open Handling

/-- Acting on a single argument is doing as a recogniser says. -/
def Enacts (handle : Text → Handling Answer) (recogniser : Recogniser) : Prop :=
  ∀ (arguments : List Text) (count : Nat) (argument : Text) (rest : List Text) (reading : Reading),
    handle argument reading =
      some (reading.enact arguments count (recogniser reading.settings argument rest))

theorem help_enacts : Enacts help .help := by
  intro arguments count argument rest reading
  simp only [help, Recogniser.help]
  split <;> rfl

theorem switch_enacts : Enacts switch .switch := by
  intro arguments count argument rest reading
  simp only [switch, Recogniser.switch]
  split
  · rfl
  · split <;> rfl

/-- The handler looks for the length first and the recogniser for the dash, and the handler drops an
    empty argument where the recogniser keeps one that is not empty. -/
theorem positional_enacts : Enacts positional .positional := by
  intro arguments count argument rest reading
  have hdash : 1 < argument.length ∧ argument[0]? = some Text.dash ↔
      argument.head? = some Text.dash ∧ 1 < argument.length := by
    rw [List.head?_eq_getElem?, and_comm]
  simp only [positional, Recogniser.positional, hdash]
  split
  · rfl
  · by_cases hempty : argument = []
    · rw [if_pos hempty, if_neg (not_not.mpr hempty)]
      rfl
    · rw [if_neg hempty, if_pos hempty]
      rfl

/-- A text begins with a flag and one more byte if it is long enough and has both at their
    places. -/
theorem concat_prefix_iff (flag : Text) (byte : UInt8) (argument : Text) :
    flag ++ [byte] <+: argument ↔
      ¬ (argument.length ≤ flag.length ∨ argument.take flag.length ≠ flag ∨
        argument[flag.length]? ≠ some byte) := by
  constructor
  · rintro ⟨value, rfl⟩
    simp
  · intro h
    simp only [not_or, not_not] at h
    obtain ⟨-, hflag, hbyte⟩ := h
    obtain ⟨hlong, hbyte⟩ := List.getElem?_eq_some_iff.mp hbyte
    refine ⟨argument.drop (flag.length + 1), ?_⟩
    calc flag ++ [byte] ++ argument.drop (flag.length + 1)
        = argument.take flag.length ++ argument.drop flag.length := by
          rw [hflag, List.drop_eq_getElem_cons hlong, hbyte, List.append_assoc,
            List.singleton_append]
      _ = argument := List.take_append_drop _ _

/-- Both compare with the word first. Then the handler compares length, beginning and the byte
    behind it, and the recogniser the whole beginning. -/
theorem metrics_enacts : Enacts metrics .metrics := by
  intro arguments count argument rest reading
  have hflag := concat_prefix_iff "--metrics" Text.equals argument
  by_cases hplain : argument = ("--metrics" : Text)
  · simp only [metrics, Recogniser.metrics, if_pos hplain]
    rfl
  by_cases hvalue : ("--metrics=" : Text) <+: argument
  · simp only [metrics, if_neg hplain, if_neg (hflag.mp hvalue), Recogniser.metrics]
    obtain ⟨value, rfl⟩ := hvalue
    have hdrop : (("--metrics=" : Text) ++ value).drop (("--metrics" : Text).length + 1) = value :=
      rfl
    simp only [hdrop, isPrefixOf?_append, choose_apply, Format.ofName?]
    cases Format.all.find? fun format => format.name == value <;> rfl
  · have hrecogniser := metrics_notMatched hplain hvalue reading.settings rest
    simp only [metrics, if_neg hplain, if_pos (not_not.mp (mt hflag.mpr hvalue)), hrecogniser]
    rfl

/-- The handler cuts the value off behind the beginning that the recogniser finds. -/
theorem logLevel_enacts : Enacts logLevel .logLevel := by
  intro arguments count argument rest reading
  by_cases hvalue : ("--log-level=" : Text) <+: argument
  · simp only [logLevel, if_neg (not_not.mpr hvalue), Recogniser.logLevel]
    obtain ⟨value, rfl⟩ := hvalue
    have hdrop : (("--log-level=" : Text) ++ value).drop ("--log-level=" : Text).length = value :=
      List.drop_left
    simp only [hdrop, isPrefixOf?_append, choose_apply, Level.ofName?]
    cases Level.all.find? fun level => level.name == value <;> rfl
  · simp only [logLevel, if_pos hvalue, Recogniser.logLevel, isPrefixOf?_eq_none hvalue]
    rfl

/-- A handler follows a recogniser: in a vector that is long enough and has an argument at the place
    of the reading, it does as the recogniser says of this argument and those behind it. -/
def Follows (handler : Handler) (recogniser : Recogniser) : Prop :=
  ∀ {arguments : List Text} {count : Nat} {argument : Text} {reading : Reading},
    count ≤ arguments.length → arguments[reading.index]? = some argument →
    handler arguments count reading = some (reading.enact arguments count
      (recogniser reading.settings argument (reading.cursor arguments count).rest))

/-- A handler of single arguments needs the argument at the place, and there is one. -/
theorem single_follows {handle : Text → Handling Answer} {recogniser : Recogniser}
    (h : Enacts handle recogniser) : (single handle).Follows recogniser := by
  intro arguments count argument reading _ hargument
  rw [single, argument_bind_apply, hargument]
  exact h arguments count argument _ reading

/-- The handler keeps the arguments behind the mark one by one, the recogniser all at once. -/
theorem endOfOptions_follows : endOfOptions.Follows .endOfOptions := by
  intro arguments count argument reading hcount hargument
  rw [endOfOptions, argument_bind_apply, hargument]
  by_cases hend : argument = ("--" : Text)
  · have hbehind := keepRest_apply hcount { reading with index := reading.index + 1 }
    simp only [Recogniser.endOfOptions, if_pos hend, Option.bind_some, if_neg (not_not.mpr hend)]
    show Option.bind (keepRest arguments count { reading with index := reading.index + 1 }) _ = _
    rw [hbehind]
    rfl
  · simp only [Recogniser.endOfOptions, if_neg hend, Option.bind_some, if_pos hend]
    rfl

theorem options_follow : List.Forall₂ Follows options Recogniser.options := by
  refine .cons (single_follows help_enacts) ?_
  refine .cons (single_follows metrics_enacts) ?_
  refine .cons (single_follows logLevel_enacts) ?_
  refine .cons (single_follows switch_enacts) ?_
  exact .cons endOfOptions_follows .nil

/-! ## Handlers in order -/

section InOrder

variable {handler : Handler} {one other others last : List Handler} {arguments : List Text}
  {count : Nat} {reading after : Reading} {answer : Answer}

/-- After a handler that has no answer the others act. -/
theorem inOrder_of_notMatched (h : handler arguments count reading = some (.notMatched, after)) :
    inOrder (handler :: others) arguments count reading =
      inOrder others arguments count after := by
  show Option.bind (handler arguments count reading) _ = _
  rw [h]
  rfl

/-- After a handler that has an answer the others do not act. -/
theorem inOrder_of_matched (h : handler arguments count reading = some (answer, after))
    (hanswer : answer ≠ .notMatched) :
    inOrder (handler :: others) arguments count reading = some (answer, after) := by
  show Option.bind (handler arguments count reading) _ = _
  rw [h]
  cases answer with
  | notMatched => exact absurd rfl hanswer
  | handled => rfl
  | rejected => rfl

/-- Handlers in order follow recognisers that are asked in order. -/
theorem inOrder_follows {handlers : List Handler} {recognisers : List Recogniser}
    (h : List.Forall₂ Follows handlers recognisers) :
    (inOrder handlers).Follows (.firstOf recognisers) := by
  induction h with
  | nil => exact fun _ _ => rfl
  | @cons handler recogniser handlers recognisers hhead _ ih =>
      intro arguments count argument reading hcount hargument
      have hfirst := hhead hcount hargument
      have hothers := ih hcount hargument
      rw [Recogniser.firstOf]
      cases hrecognition : recogniser reading.settings argument
          (reading.cursor arguments count).rest with
      | notMatched =>
          rw [hrecognition] at hfirst
          exact (inOrder_of_notMatched hfirst).trans hothers
      | handled settings extent =>
          rw [hrecognition] at hfirst
          exact inOrder_of_matched hfirst (by simp)
      | rejected fault =>
          rw [hrecognition] at hfirst
          exact inOrder_of_matched hfirst (by simp)

/-- Acting on an argument, whatever it is, follows the recogniser of all arguments. -/
theorem any_follows : any.Follows .any := by
  have hlast : List.Forall₂ Follows [single positional] [Recogniser.positional] :=
    .cons (single_follows positional_enacts) .nil
  have hall : List.Forall₂ Follows (options ++ [single positional])
      (Recogniser.options ++ [Recogniser.positional]) := List.rel_append options_follow hlast
  intro arguments count argument reading
  exact inOrder_follows hall

/-- The handler has no answer, and leaves the reading as it is. -/
def Passes (handler : Handler) (arguments : List Text) (count : Nat) (reading : Reading) : Prop :=
  handler arguments count reading = some (.notMatched, reading)

/-- The handler has an answer. -/
def Decides (handler : Handler) (arguments : List Text) (count : Nat) (reading : Reading) : Prop :=
  ∃ answer after, handler arguments count reading = some (answer, after) ∧ answer ≠ .notMatched

/-- A handler that passes may as well act after the next one. -/
theorem inOrder_swap {first second : Handler} (hpasses : first.Passes arguments count reading)
    (hsecond : second.Passes arguments count reading ∨ second.Decides arguments count reading) :
    inOrder (first :: second :: others) arguments count reading =
      inOrder (second :: first :: others) arguments count reading := by
  rw [inOrder_of_notMatched hpasses]
  rcases hsecond with hsecond | ⟨answer, after, hsecond, hanswer⟩
  · rw [inOrder_of_notMatched hsecond, inOrder_of_notMatched hsecond,
      inOrder_of_notMatched hpasses]
  · rw [inOrder_of_matched hsecond hanswer, inOrder_of_matched hsecond hanswer]

/-- If one handler at most has an answer and the others pass, their order does not matter. -/
theorem inOrder_perm (hperm : one.Perm other)
    (hacts : ∀ handler ∈ one,
      handler.Passes arguments count reading ∨ handler.Decides arguments count reading)
    (honce : one.Pairwise fun handler later =>
      ¬ (handler.Decides arguments count reading ∧ later.Decides arguments count reading)) :
    inOrder (one ++ last) arguments count reading =
      inOrder (other ++ last) arguments count reading := by
  induction hperm with
  | nil => rfl
  | @cons handler one other _ ih =>
      have hrest := ih (fun later hlater => hacts later (List.mem_cons_of_mem handler hlater))
        (List.pairwise_cons.mp honce).2
      rcases hacts handler List.mem_cons_self with hpasses | ⟨answer, after, hdecides, hanswer⟩
      · calc inOrder (handler :: (one ++ last)) arguments count reading
            = inOrder (one ++ last) arguments count reading := inOrder_of_notMatched hpasses
          _ = inOrder (other ++ last) arguments count reading := hrest
          _ = inOrder (handler :: (other ++ last)) arguments count reading :=
            (inOrder_of_notMatched hpasses).symm
      · -- the first handler has the answer, so what comes after it does not matter
        calc inOrder (handler :: (one ++ last)) arguments count reading
            = some (answer, after) := inOrder_of_matched hdecides hanswer
          _ = inOrder (handler :: (other ++ last)) arguments count reading :=
            (inOrder_of_matched hdecides hanswer).symm
  | swap second first others =>
      -- the two do not both decide, so one of them passes and the other may go before it
      have hfirst := hacts first List.mem_cons_self
      have hsecond := hacts second (List.mem_cons_of_mem first List.mem_cons_self)
      rcases hfirst with hpasses | hdecides
      · exact inOrder_swap hpasses hsecond
      rcases hsecond with hpasses | hdecides'
      · exact (inOrder_swap hpasses (.inr hdecides)).symm
      · obtain ⟨hfirst, -⟩ := List.pairwise_cons.mp honce
        exact absurd ⟨hdecides, hdecides'⟩ (hfirst second List.mem_cons_self)
  | @trans one middle other hone hother ihone ihother =>
      have hsymm : ∀ {first second : Handler},
          ¬ (first.Decides arguments count reading ∧ second.Decides arguments count reading) →
          ¬ (second.Decides arguments count reading ∧ first.Decides arguments count reading) :=
        fun h hboth => h hboth.symm
      -- what is assumed of the handlers does not depend on their order
      have hacts' : ∀ handler ∈ middle,
          handler.Passes arguments count reading ∨ handler.Decides arguments count reading := by
        intro handler hhandler
        exact hacts handler (hone.mem_iff.mpr hhandler)
      have honce' := (hone.pairwise_iff hsymm).mp honce
      exact (ihone hacts honce).trans (ihother hacts' honce')

end InOrder

/-! ## One handler for every argument -/

section Unambiguous

variable {handler : Handler} {recogniser : Recogniser} {arguments : List Text} {count : Nat}
  {argument : Text} {reading : Reading}

/-- A handler passes if the recogniser that it follows has no answer. -/
theorem Follows.passes (h : handler.Follows recogniser) (hcount : count ≤ arguments.length)
    (hargument : arguments[reading.index]? = some argument)
    (hrecognition : recogniser reading.settings argument (reading.cursor arguments count).rest =
      .notMatched) : handler.Passes arguments count reading := by
  rw [Passes, h hcount hargument, hrecognition]
  rfl

/-- A handler decides if and only if the recogniser that it follows has an answer. -/
theorem Follows.decides_iff (h : handler.Follows recogniser) (hcount : count ≤ arguments.length)
    (hargument : arguments[reading.index]? = some argument) :
    handler.Decides arguments count reading ↔
      recogniser reading.settings argument (reading.cursor arguments count).rest ≠ .notMatched := by
  rw [Decides, h hcount hargument]
  cases recogniser reading.settings argument (reading.cursor arguments count).rest <;>
    simp [Reading.enact]

/-- The handler of an option has an answer or leaves the reading as it is. -/
theorem options_act (hcount : count ≤ arguments.length)
    (hargument : arguments[reading.index]? = some argument) :
    ∀ handler ∈ options,
      handler.Passes arguments count reading ∨ handler.Decides arguments count reading := by
  intro handler hhandler
  obtain ⟨recogniser, -, hfollows⟩ := exists_of_mem_forall₂ options_follow handler hhandler
  by_cases hrecognition : recogniser reading.settings argument
      (reading.cursor arguments count).rest = .notMatched
  · exact .inl (hfollows.passes hcount hargument hrecognition)
  · exact .inr ((hfollows.decides_iff hcount hargument).mpr hrecognition)

/-- At most one handler of an option has an answer. -/
theorem options_once (hcount : count ≤ arguments.length)
    (hargument : arguments[reading.index]? = some argument) :
    options.Pairwise fun one other =>
      ¬ (one.Decides arguments count reading ∧ other.Decides arguments count reading) := by
  have hexclusive := Recogniser.options_exclusive reading.settings argument
    (reading.cursor arguments count).rest
  refine pairwise_of_forall₂ options_follow hexclusive ?_
  rintro one other recogniser recogniser' hone hother hpasses ⟨hdecides, hdecides'⟩
  rcases hpasses with hpasses | hpasses
  · exact (hone.decides_iff hcount hargument).mp hdecides hpasses
  · exact (hother.decides_iff hcount hargument).mp hdecides' hpasses

/-- What becomes of an argument: there is an answer, a refusal keeps the settings, and the place
    stays unless the options end here. -/
theorem any_outcome (hcount : count ≤ arguments.length) (hindex : reading.index < count)
    (hargument : arguments[reading.index]? = some argument) :
    ∃ answer after, any arguments count reading = some (answer, after) ∧ answer ≠ .notMatched ∧
      (answer = .rejected → after.settings = reading.settings) ∧
      after.index = if argument = endMark then count else reading.index := by
  have hacted := any_follows hcount hargument
  rcases Recogniser.any_cases reading.settings argument (reading.cursor arguments count).rest with
    ⟨⟨fault, hany⟩, hend⟩ | ⟨settings, hany⟩
  · rw [hany] at hacted
    exact ⟨_, _, hacted, nofun, fun _ => rfl, (if_neg hend).symm⟩
  · rw [hany] at hacted
    refine ⟨_, _, hacted, nofun, nofun, ?_⟩
    split
    · exact Nat.max_eq_right hindex
    · rfl

/-- Every argument has one handler. Of the handlers of the options one at most has an answer, and
    those that have none leave the reading as it is; the handler of scripts and unknown options has
    an answer to everything. So acting on an argument always gives an answer, and the order of the
    options does not matter. A refusal leaves the settings as they were, and the place stays unless
    the options end here: then it is behind the last argument. -/
theorem any_unambiguous {arguments : List Text} {count : Nat} {reading : Reading}
    (hcount : count ≤ arguments.length) (hindex : reading.index < count) :
    options.Pairwise (fun one other =>
      ¬ (one.Decides arguments count reading ∧ other.Decides arguments count reading)) ∧
    (∀ handler ∈ options,
      handler.Passes arguments count reading ∨ handler.Decides arguments count reading) ∧
    (single positional).Decides arguments count reading ∧
    (∀ order : List Handler, order.Perm options →
      inOrder (order ++ [single positional]) arguments count reading =
        any arguments count reading) ∧
    ∃ answer after, any arguments count reading = some (answer, after) ∧ answer ≠ .notMatched ∧
      (answer = .rejected → after.settings = reading.settings) ∧
      after.index = if arguments[reading.index] = endMark then count else reading.index := by
  have hargument : arguments[reading.index]? = some arguments[reading.index] :=
    List.getElem?_eq_getElem (by omega)
  have hacts := options_act hcount hargument
  have honce := options_once hcount hargument
  refine ⟨honce, hacts, ?positional, ?order, any_outcome hcount hindex hargument⟩
  case positional =>
    have hfollows : (single positional).Follows .positional := single_follows positional_enacts
    exact (hfollows.decides_iff hcount hargument).mpr (Recogniser.positional_matched _ _ _)
  case order =>
    intro order hperm
    exact (inOrder_perm hperm.symm hacts honce).symm

/-- The mark behind near misses, with the handlers in reverse order. -/
theorem any_unambiguous_mark :
    let arguments : List Text := ["labelkit", "--metricsX", "--", "-h", "--log-level", "tail"]
    let reading : Reading := { settings := {}, index := 2, report := "earlier" }
    5 ≤ arguments.length ∧ reading.index < 5 ∧
      inOrder (options.reverse ++ [single positional]) arguments 5 reading = some (.handled,
        { settings := { inputs := ["-h", "--log-level"] }, index := 5, report := "earlier" }) := by
  intro arguments reading
  have hcount : 5 ≤ arguments.length := by decide
  have hindex : reading.index < 5 := by decide
  obtain ⟨-, -, -, horder, -⟩ := any_unambiguous hcount hindex
  refine ⟨hcount, hindex, (horder options.reverse options.reverse_perm).trans ?_⟩
  have hmark : arguments[reading.index]? = some endMark := rfl
  exact any_follows hcount hmark

example :
    (["--metricsX", "--log-level", "---", "-"] : List Text).map
        (fun argument => (any [argument] 1 { settings := {}, index := 0 }).map Prod.fst) =
      [some .rejected, some .rejected, some .rejected, some .handled] := by
  decide +kernel

end Unambiguous

end Handler

/-! ## Reading with handlers -/

/-- One turn of reading is acting on an argument: a refusal ends it with the report of the fault, a
    request for help ends it, and otherwise it goes on behind the place that the handler left. -/
theorem Parsed.ofArguments_turn {arguments : List Text} {count : Nat} {reading : Reading}
    (hcount : count ≤ arguments.length) (hindex : reading.index < count) :
    let remaining := (arguments.take count).drop
    (∃ fault, Handler.any arguments count reading =
        some (.rejected, { reading with report := reading.report ++ fault.text }) ∧
      ofArguments (remaining reading.index) reading.settings = ⟨reading.settings, some fault⟩) ∨
    ∃ after, Handler.any arguments count reading = some (.handled, after) ∧
      after.report = reading.report ∧
      ofArguments (remaining reading.index) reading.settings =
        if after.settings.showHelp then ⟨after.settings, none⟩
        else ofArguments (remaining (after.index + 1)) after.settings := by
  intro remaining
  have hremaining : remaining reading.index =
      arguments[reading.index] :: remaining (reading.index + 1) :=
    drop_take_eq_cons hcount hindex
  have hargument : arguments[reading.index]? = some arguments[reading.index] :=
    List.getElem?_eq_getElem (by omega)
  have hacted := Handler.any_follows hcount hargument
  have hrest : (reading.cursor arguments count).rest = remaining (reading.index + 1) := rfl
  rw [hrest] at hacted
  rw [hremaining, ofArguments]
  rcases Recogniser.any_cases reading.settings arguments[reading.index]
    (remaining (reading.index + 1)) with ⟨⟨fault, hany⟩, -⟩ | ⟨settings, hany⟩
  · rw [hany] at hacted ⊢
    exact .inl ⟨fault, hacted, rfl⟩
  · rw [hany] at hacted ⊢
    refine .inr ⟨_, hacted, rfl, ?_⟩
    by_cases hend : arguments[reading.index] = endMark
    · have hbehind : remaining (max (reading.index + 1) count + 1) = [] :=
        List.drop_eq_nil_of_le (by simp; omega)
      simp only [if_pos hend]
      show _ = if settings.showHelp then ⟨settings, none⟩
        else ofArguments (remaining (max (reading.index + 1) count + 1)) settings
      rw [hbehind]
      rfl
    · simp only [if_neg hend]
      rfl

end ScopedLabels.CommandLine
