import Mathlib.Data.List.Basic
import ScopedLabels.CommandLine.Parse

/-!
# Arguments — what a command line means

Reading an argument list is a walk from left to right that asks one recogniser after the other. What
it comes to is said here without a walk. The arguments in front of the first `--` are options and
scripts, and those behind it are scripts whatever they look like. `Settings.described` puts the
settings together from the arguments at once: the scripts in order, a switch if it is given
anywhere, and the last severity and the last format that are asked for. Only the first argument that
asks for help or is refused (`Rejects`) cuts this short; then the settings are those that the
arguments before it describe.

`Means` is this meaning of an argument list, and `ofVector_iff` says that reading gives it and
nothing else. The step from the one to the other is that an ordinary argument extends the settings
just as it extends their description (`any_ordinary`, `described_concat`).
-/

namespace ScopedLabels.CommandLine

/-! ## What single arguments say -/

/-- The argument that ends the options. -/
def endMark : Text := "--"

/-- The argument asks for help. -/
def AsksForHelp (argument : Text) : Prop :=
  argument = ("-h" : Text) ∨ argument = ("--help" : Text)

/-- The format of the metrics report that an argument asks for. -/
def formatAsked? (argument : Text) : Option Format :=
  if argument = ("--metrics" : Text) then some .text
  else Format.all.find? fun format => ("--metrics=" : Text) ++ format.name == argument

/-- The severity that an argument asks for. -/
def levelAsked? (argument : Text) : Option Level :=
  Level.all.find? fun level => ("--log-level=" : Text) ++ level.name == argument

/-- The argument is a script: it is not empty, and if it begins with a dash there is nothing else of
    it. -/
def isScript (argument : Text) : Bool :=
  argument != [] && (argument.head? != some Text.dash || argument == [Text.dash])

/-- The argument is an option. -/
def IsOption (argument : Text) : Prop :=
  AsksForHelp argument ∨ formatAsked? argument ≠ none ∨ levelAsked? argument ≠ none ∨
    argument = ("--strict-names" : Text) ∨ argument = ("--no-fallback-warning" : Text) ∨
    argument = endMark

/-- The arguments that are refused, each with what is wrong. -/
inductive Rejects : Text → Fault → Prop
  /-- There is no format of this name. -/
  | format {value : Text} (h : ∀ format : Format, format.name ≠ value) :
      Rejects (("--metrics=" : Text) ++ value) (.unknownFormat value)
  /-- There is no severity of this name. -/
  | level {value : Text} (h : ∀ level : Level, level.name ≠ value) :
      Rejects (("--log-level=" : Text) ++ value) (.unknownLevel value)
  /-- It begins like an option, is none, and gives no value to one. -/
  | option {argument : Text} (hdash : argument.head? = some Text.dash)
      (hlong : 1 < argument.length) (hoption : ¬ IsOption argument)
      (hformat : ¬ ("--metrics=" : Text) <+: argument)
      (hlevel : ¬ ("--log-level=" : Text) <+: argument) :
      Rejects argument (.unknownOption argument)

/-- Reading stops at the argument. -/
def Stops (argument : Text) : Prop :=
  AsksForHelp argument ∨ ∃ fault, Rejects argument fault

/-! ## What an argument list means -/

/-- The settings that some arguments in front of the end of the options describe, together with the
    scripts behind it. -/
def Settings.described (front scripts : List Text) : Settings where
  inputs := front.filter isScript ++ scripts
  showHelp := false
  strictNames := front.contains ("--strict-names" : Text)
  fallbackWarning := !front.contains ("--no-fallback-warning" : Text)
  logLevel := (front.filterMap levelAsked?).getLast?.getD .warning
  metrics := front.any fun argument => (formatAsked? argument).isSome
  format := (front.filterMap formatAsked?).getLast?.getD .text

/-- An argument list is parted at its first end of the options. -/
structure Parted (arguments front scripts : List Text) : Prop where
  open_front : endMark ∉ front
  whole : arguments = front ∧ scripts = [] ∨ arguments = front ++ endMark :: scripts

/-- What reading an argument list gives: settings, and perhaps a fault. -/
inductive Means (arguments : List Text) : Parsed → Prop
  /-- Help is asked for, and nothing before that is refused. -/
  | help {front scripts earlier later : List Text} {argument : Text}
      (hparted : Parted arguments front scripts) (hfront : front = earlier ++ argument :: later)
      (hearlier : ∀ other ∈ earlier, ¬ Stops other) (hargument : AsksForHelp argument) :
      Means arguments ⟨{ Settings.described earlier [] with showHelp := true }, none⟩
  /-- An argument is refused, and help is not asked for before. -/
  | rejected {front scripts earlier later : List Text} {argument : Text} {fault : Fault}
      (hparted : Parted arguments front scripts) (hfront : front = earlier ++ argument :: later)
      (hearlier : ∀ other ∈ earlier, ¬ Stops other) (hargument : Rejects argument fault) :
      Means arguments ⟨.described earlier [], some fault⟩
  /-- There are scripts to run. -/
  | accepted {front scripts : List Text} (hparted : Parted arguments front scripts)
      (hfront : ∀ argument ∈ front, ¬ Stops argument)
      (hinputs : (Settings.described front scripts).inputs ≠ []) :
      Means arguments ⟨.described front scripts, none⟩
  /-- There is no script to run. -/
  | idle {front scripts : List Text} (hparted : Parted arguments front scripts)
      (hfront : ∀ argument ∈ front, ¬ Stops argument)
      (hinputs : (Settings.described front scripts).inputs = []) :
      Means arguments ⟨.described front scripts, some .noInputs⟩

/-! ## Formats and severities by argument -/

theorem formatAsked?_name (format : Format) :
    formatAsked? (("--metrics=" : Text) ++ format.name) = some format := by
  cases format <;> decide

theorem levelAsked?_name (level : Level) :
    levelAsked? (("--log-level=" : Text) ++ level.name) = some level := by
  cases level <;> decide

/-- An argument that asks for a format is the option without a value, which asks for text, or the
    option with the name of the format. -/
theorem eq_of_formatAsked? {argument : Text} {format : Format}
    (h : formatAsked? argument = some format) :
    argument = ("--metrics" : Text) ∧ format = .text ∨
      argument = ("--metrics=" : Text) ++ format.name := by
  rw [formatAsked?] at h
  split at h
  · next hplain =>
      cases h
      exact .inl ⟨hplain, rfl⟩
  · have hfound := List.find?_some h
    exact .inr (beq_iff_eq.mp hfound).symm

/-- An argument that asks for a severity is the option with the name of the severity. -/
theorem eq_of_levelAsked? {argument : Text} {level : Level}
    (h : levelAsked? argument = some level) :
    argument = ("--log-level=" : Text) ++ level.name := by
  have hfound := List.find?_some h
  exact (beq_iff_eq.mp hfound).symm

theorem Format.ofName?_eq_none {value : Text} (h : ∀ format : Format, format.name ≠ value) :
    ofName? value = none := by
  refine List.find?_eq_none.mpr fun format _ => ?_
  simpa using h format

theorem Level.ofName?_eq_none {value : Text} (h : ∀ level : Level, level.name ≠ value) :
    Level.ofName? value = none := by
  refine List.find?_eq_none.mpr fun level _ => ?_
  simpa using h level

/-- A value of the option for the metrics is a format, or refused. -/
theorem rejects_format_of_formatAsked? {value : Text}
    (h : formatAsked? (("--metrics=" : Text) ++ value) = none) :
    Rejects (("--metrics=" : Text) ++ value) (.unknownFormat value) := by
  refine .format ?_
  rintro format rfl
  rw [formatAsked?_name] at h
  cases h

/-- A value of the option for the severity is a severity, or refused. -/
theorem rejects_level_of_levelAsked? {value : Text}
    (h : levelAsked? (("--log-level=" : Text) ++ value) = none) :
    Rejects (("--log-level=" : Text) ++ value) (.unknownLevel value) := by
  refine .level ?_
  rintro level rfl
  rw [levelAsked?_name] at h
  cases h

/-! ## Ordinary arguments -/

/-- The settings with what one more ordinary argument says. -/
def Settings.extended (settings : Settings) (argument : Text) : Settings :=
  { settings with
    inputs := if isScript argument then settings.inputs ++ [argument] else settings.inputs
    strictNames := if argument = ("--strict-names" : Text) then true else settings.strictNames
    fallbackWarning :=
      if argument = ("--no-fallback-warning" : Text) then false else settings.fallbackWarning
    logLevel := (levelAsked? argument).getD settings.logLevel
    metrics := if (formatAsked? argument).isSome then true else settings.metrics
    format := (formatAsked? argument).getD settings.format }

/-- The last value that is asked for, with one more argument. -/
theorem getLast?_filterMap_concat {α : Type} (asked? : Text → Option α) (default : α)
    (front : List Text) (argument : Text) :
    ((front ++ [argument]).filterMap asked?).getLast?.getD default =
      (asked? argument).getD ((front.filterMap asked?).getLast?.getD default) := by
  rw [List.filterMap_append, List.getLast?_append]
  cases h : asked? argument <;> simp [h]

/-- A switch that is given somewhere, with one more argument. -/
theorem contains_concat (front : List Text) (switch argument : Text) :
    (front ++ [argument]).contains switch =
      if argument = switch then true else front.contains switch := by
  by_cases h : argument = switch
  · simp [h]
  · simp [h, Ne.symm h]

/-- One more argument extends the description as it extends the settings. -/
theorem described_concat (front : List Text) (argument : Text) :
    Settings.described (front ++ [argument]) [] =
      (Settings.described front []).extended argument := by
  have hinputs : (front ++ [argument]).filter isScript ++ [] =
      if isScript argument then front.filter isScript ++ [] ++ [argument]
      else front.filter isScript ++ [] := by
    by_cases h : isScript argument = true <;> simp [h]
  have hwarning : (!(front ++ [argument]).contains ("--no-fallback-warning" : Text)) =
      if argument = ("--no-fallback-warning" : Text) then false
      else !front.contains ("--no-fallback-warning" : Text) := by
    rw [contains_concat]
    split <;> rfl
  have hmetrics : ((front ++ [argument]).any fun a => (formatAsked? a).isSome) =
      if (formatAsked? argument).isSome then true
      else front.any fun a => (formatAsked? a).isSome := by
    by_cases h : (formatAsked? argument).isSome = true <;> simp [h]
  rw [Settings.described, Settings.extended, hinputs, hwarning, hmetrics, contains_concat,
    getLast?_filterMap_concat, getLast?_filterMap_concat]
  rfl

theorem isPrefixOf?_append (flag value : Text) : flag.isPrefixOf? (flag ++ value) = some value :=
  List.isPrefixOf?_eq_some_iff_append_eq.mpr rfl

/-- Nothing stands behind a beginning that the text does not have. -/
theorem isPrefixOf?_eq_none {flag argument : Text} (h : ¬ flag <+: argument) :
    flag.isPrefixOf? argument = none := by
  cases hvalue : flag.isPrefixOf? argument with
  | none => rfl
  | some value => exact absurd ⟨value, List.isPrefixOf?_eq_some_iff_append_eq.mp hvalue⟩ h

/-- An argument that is not the option for the metrics, with or without a value, is left to the
    others. -/
theorem metrics_notMatched {argument : Text} (hplain : argument ≠ ("--metrics" : Text))
    (hformat : ¬ ("--metrics=" : Text) <+: argument) (settings : Settings) (rest : List Text) :
    Recogniser.metrics settings argument rest = .notMatched := by
  rw [Recogniser.metrics, if_neg hplain, isPrefixOf?_eq_none hformat]

/-- An argument that is no option is looked at last. -/
theorem any_of_not_option {argument : Text} (hoption : ¬ IsOption argument)
    (hformat : ¬ ("--metrics=" : Text) <+: argument)
    (hlevel : ¬ ("--log-level=" : Text) <+: argument) (settings : Settings)
    (rest : List Text) :
    Recogniser.any settings argument rest = Recogniser.positional settings argument rest := by
  simp only [IsOption, not_or] at hoption
  obtain ⟨hhelp, hmetrics, -, hstrict, hwarning, hend⟩ := hoption
  have hplain : argument ≠ ("--metrics" : Text) := by
    rintro rfl
    exact hmetrics (by decide)
  have h₁ : Recogniser.help settings argument rest = .notMatched := if_neg hhelp
  have h₂ := metrics_notMatched hplain hformat settings rest
  have h₃ : Recogniser.logLevel settings argument rest = .notMatched := by
    rw [Recogniser.logLevel, isPrefixOf?_eq_none hlevel]
  have h₄ : Recogniser.switch settings argument rest = .notMatched := by
    rw [Recogniser.switch, if_neg hstrict, if_neg hwarning]
  have h₅ : Recogniser.endOfOptions settings argument rest = .notMatched := if_neg hend
  simp only [Recogniser.any, Recogniser.options, List.cons_append, List.nil_append,
    Recogniser.firstOf, h₁, h₂, h₃, h₄, h₅]
  cases Recogniser.positional settings argument rest <;> rfl

/-- An option that is given extends the settings. There are finitely many of them, and each has a
    recogniser of its own. -/
theorem any_option {argument : Text} (hoption : IsOption argument)
    (hhelp : ¬ AsksForHelp argument) (hend : argument ≠ endMark) (settings : Settings)
    (rest : List Text) :
    Recogniser.any settings argument rest = .handled (settings.extended argument) .one := by
  rcases hoption with hoption | hformat | hlevel | rfl | rfl | hoption
  · exact absurd hoption hhelp
  · obtain ⟨format, hformat⟩ := Option.ne_none_iff_exists'.mp hformat
    rcases eq_of_formatAsked? hformat with ⟨rfl, rfl⟩ | rfl
    · rfl
    · cases format <;> rfl
  · obtain ⟨level, hlevel⟩ := Option.ne_none_iff_exists'.mp hlevel
    obtain rfl := eq_of_levelAsked? hlevel
    cases level <;> rfl
  · rfl
  · rfl
  · exact absurd hoption hend

/-- A script is kept and an empty argument is dropped, as the description says. -/
theorem positional_ordinary {argument : Text} (hoption : ¬ IsOption argument)
    (haccepted : ¬ (argument.head? = some Text.dash ∧ 1 < argument.length))
    (settings : Settings) (rest : List Text) :
    Recogniser.positional settings argument rest =
      .handled (settings.extended argument) .one := by
  simp only [IsOption, not_or, not_not] at hoption
  obtain ⟨-, hformat, hlevel, hstrict, hwarning, -⟩ := hoption
  have hextended : settings.extended argument = { settings with
      inputs := if isScript argument then settings.inputs ++ [argument] else settings.inputs } := by
    rw [Settings.extended, hformat, hlevel, if_neg hstrict, if_neg hwarning]
    rfl
  rw [Recogniser.positional, if_neg haccepted, hextended]
  match argument with
  | [] => rfl
  | [b] => simp [isScript]
  | b :: c :: more =>
      have hb : b ≠ Text.dash := by
        rintro rfl
        exact haccepted ⟨rfl, by simp⟩
      have hscript : isScript (b :: c :: more) = true := by simp [isScript, hb]
      rw [if_neg (List.cons_ne_nil _ _), if_pos hscript]

/-- An argument that does not stop the reading extends the settings, unless it ends the options. -/
theorem any_ordinary {argument : Text} (hgoes : ¬ Stops argument) (hend : argument ≠ endMark)
    (settings : Settings) (rest : List Text) :
    Recogniser.any settings argument rest = .handled (settings.extended argument) .one := by
  have hhelp : ¬ AsksForHelp argument := fun h => hgoes (.inl h)
  have haccepted : ∀ fault, ¬ Rejects argument fault := fun fault h => hgoes (.inr ⟨fault, h⟩)
  by_cases hoption : IsOption argument
  · exact any_option hoption hhelp hend settings rest
  -- what is no option gives no value to one either, or it would be refused for the value
  have hformat : ¬ ("--metrics=" : Text) <+: argument := by
    rintro ⟨value, rfl⟩
    refine haccepted _ (rejects_format_of_formatAsked? ?_)
    by_contra h
    exact hoption (.inr (.inl h))
  have hlevel : ¬ ("--log-level=" : Text) <+: argument := by
    rintro ⟨value, rfl⟩
    refine haccepted _ (rejects_level_of_levelAsked? ?_)
    by_contra h
    exact hoption (.inr (.inr (.inl h)))
  rw [any_of_not_option hoption hformat hlevel]
  refine positional_ordinary hoption ?_ settings rest
  rintro ⟨hdash, hlong⟩
  exact haccepted _ (.option hdash hlong hoption hformat hlevel)

/-! ## Arguments that stop the reading -/

theorem any_help {argument : Text} (h : AsksForHelp argument) (settings : Settings)
    (rest : List Text) :
    Recogniser.any settings argument rest = .handled { settings with showHelp := true } .one := by
  rcases h with rfl | rfl <;> rfl

/-- A text with one beginning is not a text without it. -/
theorem append_ne {flag word : Text} (h : ¬ flag <+: word) (value : Text) :
    flag ++ value ≠ word := by
  rintro rfl
  exact h (List.prefix_append flag value)

/-- An option that gives a value does not ask for help. -/
theorem help_notMatched {flag : Text} (hshort : ¬ flag <+: ("-h" : Text))
    (hlong : ¬ flag <+: ("--help" : Text)) (value : Text) (settings : Settings)
    (rest : List Text) : Recogniser.help settings (flag ++ value) rest = .notMatched := by
  rw [Recogniser.help, if_neg]
  rintro (heq | heq)
  · exact append_ne hshort value heq
  · exact append_ne hlong value heq

/-- An argument that the grammar refuses is refused with the same fault. -/
theorem any_rejected {argument : Text} {fault : Fault} (h : Rejects argument fault)
    (settings : Settings) (rest : List Text) :
    Recogniser.any settings argument rest = .rejected fault := by
  cases h with
  | @format value h =>
      have h₁ : Recogniser.help settings (("--metrics=" : Text) ++ value) rest = .notMatched :=
        help_notMatched (by decide) (by decide) value settings rest
      have h₂ : Recogniser.metrics settings (("--metrics=" : Text) ++ value) rest =
          .rejected (.unknownFormat value) := by
        rw [Recogniser.metrics, if_neg (append_ne (by decide) value),
          isPrefixOf?_append]
        simp only [Format.ofName?_eq_none h]
      simp only [Recogniser.any, Recogniser.options, List.cons_append, Recogniser.firstOf, h₁, h₂]
  | @level value h =>
      have h₁ : Recogniser.help settings (("--log-level=" : Text) ++ value) rest = .notMatched :=
        help_notMatched (by decide) (by decide) value settings rest
      have hformat : ¬ ("--metrics=" : Text) <+: ("--log-level=" : Text) ++ value := by
        intro hmetrics
        -- of two beginnings of one text the shorter begins the longer
        rcases List.prefix_or_prefix_of_prefix hmetrics (List.prefix_append _ value) with
          hshort | hshort
        · exact absurd hshort (by decide)
        · exact absurd hshort (by decide)
      have h₂ := metrics_notMatched (append_ne (by decide) value) hformat settings rest
      have h₃ : Recogniser.logLevel settings (("--log-level=" : Text) ++ value) rest =
          .rejected (.unknownLevel value) := by
        rw [Recogniser.logLevel, isPrefixOf?_append]
        simp only [Level.ofName?_eq_none h]
      simp only [Recogniser.any, Recogniser.options, List.cons_append, Recogniser.firstOf, h₁, h₂,
        h₃]
  | option hdash hlong hoption hformat hlevel =>
      rw [any_of_not_option hoption hformat hlevel, Recogniser.positional, if_pos ⟨hdash, hlong⟩]

/-! ## Reading argument lists -/

section Reading

variable {arguments front scripts earlier : List Text}

/-- Ordinary arguments are read into the description. -/
theorem ofArguments_ordinary (h : ∀ argument ∈ earlier, ¬ Stops argument ∧ argument ≠ endMark)
    (front rest : List Text) :
    Parsed.ofArguments (earlier ++ rest) (.described front []) =
      Parsed.ofArguments rest (.described (front ++ earlier) []) := by
  induction earlier generalizing front with
  | nil => rw [List.nil_append, List.append_nil]
  | cons argument earlier ih =>
      obtain ⟨hgoes, hend⟩ := h argument List.mem_cons_self
      have hrest := ih (fun other hother => h other (List.mem_cons_of_mem argument hother))
        (front ++ [argument])
      rw [List.append_assoc, List.singleton_append] at hrest
      rw [List.cons_append, Parsed.ofArguments, any_ordinary hgoes hend, ← described_concat,
        ← hrest]
      rfl

/-- In front of the end of the options the mark does not occur. -/
theorem Parted.ordinary (h : Parted arguments front scripts)
    (hfront : ∀ argument ∈ front, ¬ Stops argument) :
    ∀ argument ∈ front, ¬ Stops argument ∧ argument ≠ endMark := by
  intro argument hargument
  refine ⟨hfront argument hargument, ?_⟩
  rintro rfl
  exact h.open_front hargument

/-- If nothing stops it, reading describes the whole list, and there should be a script. -/
theorem Parted.read (h : Parted arguments front scripts)
    (hfront : ∀ argument ∈ front, ¬ Stops argument) :
    Parsed.ofArguments arguments {} = .finish (.described front scripts) := by
  have hordinary := ofArguments_ordinary (h.ordinary hfront) []
  rcases h.whole with ⟨rfl, rfl⟩ | rfl
  · have hread := hordinary []
    rwa [List.append_nil] at hread
  · refine (hordinary (endMark :: scripts)).trans ?_
    have hany : Recogniser.any (.described front []) endMark scripts =
        .handled (.described front scripts) .all := by
      have hinputs : (Settings.described front []).inputs ++ scripts =
          (Settings.described front scripts).inputs := by
        simp [Settings.described]
      show Recognition.handled
        { Settings.described front [] with
          inputs := (Settings.described front []).inputs ++ scripts } .all = _
      rw [hinputs]
      rfl
    rw [List.nil_append, Parsed.ofArguments, hany]
    rfl

/-- Reading comes to the first argument that stops it with the description of those before. -/
theorem Parted.read_until (h : Parted arguments front scripts) {later : List Text}
    {argument : Text} (hfront : front = earlier ++ argument :: later)
    (hearlier : ∀ other ∈ earlier, ¬ Stops other) :
    ∃ rest, Parsed.ofArguments arguments {} =
      Parsed.ofArguments (argument :: rest) (.described earlier []) := by
  have hordinary : ∀ other ∈ earlier, ¬ Stops other ∧ other ≠ endMark := by
    intro other hother
    refine ⟨hearlier other hother, ?_⟩
    rintro rfl
    exact h.open_front (hfront ▸ List.mem_append_left _ hother)
  have hread := ofArguments_ordinary hordinary []
  rcases h.whole with ⟨rfl, -⟩ | rfl
  · exact ⟨later, hfront ▸ hread (argument :: later)⟩
  · refine ⟨later ++ endMark :: scripts, ?_⟩
    rw [hfront, List.append_assoc]
    exact hread (argument :: (later ++ endMark :: scripts))

/-- What an argument list means is what is read. -/
theorem Means.read {parsed : Parsed} (h : Means arguments parsed) :
    Parsed.ofArguments arguments {} = parsed := by
  cases h with
  | help hparted hfront hearlier hargument =>
      obtain ⟨rest, hread⟩ := hparted.read_until hfront hearlier
      rw [hread, Parsed.ofArguments, any_help hargument]
      rfl
  | rejected hparted hfront hearlier hargument =>
      obtain ⟨rest, hread⟩ := hparted.read_until hfront hearlier
      rw [hread, Parsed.ofArguments, any_rejected hargument]
  | accepted hparted hfront hinputs =>
      rw [hparted.read hfront, Parsed.finish, if_neg hinputs]
  | idle hparted hfront hinputs =>
      rw [hparted.read hfront, Parsed.finish, if_pos hinputs]

/-- The first mark, if there is one, parts a list. -/
theorem exists_parted (arguments : List Text) :
    ∃ front scripts, Parted arguments front scripts := by
  by_cases h : endMark ∈ arguments
  · obtain ⟨front, scripts, rfl, hfront⟩ := List.eq_append_cons_of_mem h
    exact ⟨front, scripts, hfront, .inr rfl⟩
  · exact ⟨arguments, [], h, .inl ⟨rfl, rfl⟩⟩

/-- Every argument list has a meaning. -/
theorem exists_means (arguments : List Text) : ∃ parsed, Means arguments parsed := by
  classical
  obtain ⟨front, scripts, hparted⟩ := exists_parted arguments
  cases hstop : front.find? fun argument => decide (Stops argument) with
  | none =>
      have hfront : ∀ argument ∈ front, ¬ Stops argument := by
        simpa using List.find?_eq_none.mp hstop
      by_cases hinputs : (Settings.described front scripts).inputs = []
      · exact ⟨_, .idle hparted hfront hinputs⟩
      · exact ⟨_, .accepted hparted hfront hinputs⟩
  | some argument =>
      obtain ⟨hstops, earlier, later, hfront, hearlier⟩ :=
        List.find?_eq_some_iff_append.mp hstop
      have hearlier : ∀ other ∈ earlier, ¬ Stops other := by simpa using hearlier
      rcases of_decide_eq_true hstops with hhelp | ⟨fault, hrejects⟩
      · exact ⟨_, .help hparted hfront hearlier hhelp⟩
      · exact ⟨_, .rejected hparted hfront hearlier hrejects⟩

end Reading

/-- The line that reports a refused argument quotes the argument, or the value that it gives. -/
theorem Rejects.quoted {argument : Text} {fault : Fault} (h : Rejects argument fault) :
    ∃ flag value lead trail : Text, argument = flag ++ value ∧
      flag ∈ ([[], "--metrics=", "--log-level="] : List Text) ∧
      fault.text = lead ++ ("'" ++ value ++ "'") ++ trail := by
  cases h with
  | @format value h =>
      have hlead : ("cannot report label metrics as '" : Text) =
          "cannot report label metrics as " ++ "'" := by decide +kernel
      have htrail : ("'; use --metrics=text or --metrics=json" : Text) =
          "'" ++ "; use --metrics=text or --metrics=json" := by decide +kernel
      refine ⟨"--metrics=", value, "labelkit: error: " ++ "cannot report label metrics as ",
        "; use --metrics=text or --metrics=json" ++ [Text.newline], rfl, by simp, ?_⟩
      simp only [Fault.text, hlead, htrail, List.append_assoc]
  | @level value h =>
      have hlead : ("unknown log level '" : Text) = "unknown log level " ++ "'" := by
        decide +kernel
      have htrail : ("' (expected debug, info, warning, error or off)" : Text) =
          "'" ++ " (expected debug, info, warning, error or off)" := by decide +kernel
      refine ⟨"--log-level=", value, "labelkit: error: " ++ "unknown log level ",
        " (expected debug, info, warning, error or off)" ++ [Text.newline], rfl, by simp, ?_⟩
      simp only [Fault.text, hlead, htrail, List.append_assoc]
  | option hdash hlong hoption hformat hlevel =>
      have hlead : ("unknown option '" : Text) = "unknown option " ++ "'" := by decide +kernel
      refine ⟨[], argument, "labelkit: error: " ++ "unknown option ", [Text.newline], rfl,
        by simp, ?_⟩
      simp only [Fault.text, hlead, List.append_assoc]

/-- Reading an argument vector gives what the arguments mean, and nothing else. The first entry does
    not matter, and a missing entry counts as an empty one. There is one fault at most; unless it is
    that there is no script, it is about one of the arguments, and its report quotes this argument
    or the value that it gives. -/
theorem ofVector_iff (vector : List (Option Text)) :
    let arguments := (vector.map (·.getD [])).drop 1
    (∀ parsed, Parsed.ofVector vector = parsed ↔ Means arguments parsed) ∧
    ∀ fault ∈ (Parsed.ofVector vector).fault?, fault = .noInputs ∨
      ∃ argument ∈ arguments, Rejects argument fault ∧
        ∃ flag value lead trail : Text, argument = flag ++ value ∧
          flag ∈ ([[], "--metrics=", "--log-level="] : List Text) ∧
          fault.text = lead ++ ("'" ++ value ++ "'") ++ trail := by
  intro arguments
  obtain ⟨parsed, hmeans⟩ := exists_means arguments
  have hread : Parsed.ofVector vector = parsed := hmeans.read
  refine ⟨fun other => ⟨?means, Means.read⟩, ?quoted⟩
  case means =>
    rintro rfl
    rw [hread]
    exact hmeans
  case quoted =>
    rw [hread]
    cases hmeans with
    | help => exact nofun
    | accepted => exact nofun
    | idle =>
        rintro fault (_ | _)
        exact .inl rfl
    | @rejected front scripts earlier later argument fault hparted hfront hearlier hrejects =>
        rintro other (_ | _)
        refine .inr ⟨argument, ?_, hrejects, hrejects.quoted⟩
        have hmem : argument ∈ front := by simp [hfront]
        rcases hparted.whole with ⟨heq, -⟩ | heq
        · exact heq ▸ hmem
        · exact heq ▸ List.mem_append_left _ hmem

example :
    Parsed.ofVector [none, some "--metrics", some "a", none, some "--metrics=json", some "--",
      some "-x", some ""] =
      ⟨{ inputs := ["a", "-x", ""], metrics := true, format := .json }, none⟩ := by
  decide +kernel

end ScopedLabels.CommandLine
