import ScopedLabels.Metrics
import ScopedLabels.Proofs.Json
import ScopedLabels.Proofs.RoundTrip

/-!
# Decoding — what the printed counters say

A report on the counters can be read back. `Tally.ofText?` reads the report as text, from the words
of its lines, and `Tally.ofJson?` reads the report as JSON, from the value that it spells. Both give
the counters with their names, as the registry has them (`Tally.table`), whatever the values are:
digits stand for the number that they were made from (`Text.toCount?_ofCount`), and a number in
decimal has no zero in front, as JSON wants it (`Json.isNumber_ofCount`).
-/

namespace ScopedLabels

/-! ## Decimal numbers -/

namespace Text

/-- The number that decimal digits stand for. -/
def value (digits : Text) : Nat :=
  digits.foldl (fun n b => 10 * n + (b.toNat - 48)) 0

/-- Read a counter value: decimal digits, of a number that fits. -/
def toCount? (digits : Text) : Option UInt64 :=
  if digits ≠ [] ∧ digits.isNumeral = true ∧ digits.value < 2 ^ 64 then
    some (UInt64.ofNat digits.value)
  else none

/-- The digits of a number have its value. -/
theorem value_ofNat (n : Nat) : (ofNat n).value = n := by
  have hchar : ∀ b : UInt8, (Char.ofNat b.toNat).toNat = b.toNat := by
    intro b
    have hsmall := b.toNat_lt
    rw [Char.ofNat, dif_pos (.inl (by omega))]
    rfl
  have hvalue : (ofNat n).value =
      Nat.ofDigitChars 10 ((ofNat n).map fun b => Char.ofNat b.toNat) 0 := by
    simp only [value, Nat.ofDigitChars_eq_foldl, List.foldl_map, hchar]
    rfl
  rw [hvalue, chars_ofNat, Nat.ofDigitChars_ten_toDigits]

/-- A number with several digits ends with its last one, and the others are those of a tenth of it.
    -/
theorem ofNat_of_le {n : Nat} (h : 10 ≤ n) : ∃ b, ofNat n = ofNat (n / 10) ++ [b] := by
  rw [ofNat, Nat.toDigits_of_base_le (by decide) h, List.map_append]
  exact ⟨_, rfl⟩

theorem ofNat_ne_nil (n : Nat) : ofNat n ≠ [] := by
  simp [ofNat]

/-- Only zero is written with a zero in front. -/
theorem head?_ofNat {n : Nat} (h : n ≠ 0) : (ofNat n).head? ≠ some 0x30 := by
  induction n using Nat.strongRecOn with
  | ind n ih =>
      by_cases hsmall : n < 10
      · exact (by decide : ∀ n < 10, n ≠ 0 → (ofNat n).head? ≠ some 0x30) n hsmall h
      · obtain ⟨b, hb⟩ := ofNat_of_le (Nat.le_of_not_lt hsmall)
        rw [hb, List.head?_append_of_ne_nil _ (ofNat_ne_nil _)]
        exact ih (n / 10) (by omega) (by omega)

theorem toCount?_ofCount (n : UInt64) : toCount? (ofCount n) = some n := by
  have hvalue : (ofCount n).value = n.toNat := value_ofNat n.toNat
  rw [toCount?, hvalue, if_pos ⟨ofNat_ne_nil _, isNumeral_ofCount n, n.toNat_lt⟩,
    UInt64.ofNat_toNat]

/-- A counter is written without blanks. -/
theorem word_ofCount (n : UInt64) : (ofCount n).Word := by
  refine ⟨ofNat_ne_nil _, fun b hb => ?_⟩
  obtain ⟨hlow, hhigh⟩ := (Json.isDigit_iff b).mp (List.all_eq_true.mp (isNumeral_ofCount n) b hb)
  simp only [isBlank, Bool.or_eq_false_iff, decide_eq_false_iff_not, Bool.and_eq_false_iff,
    UInt8.le_iff_toNat_le, ← UInt8.toNat_inj]
  exact ⟨fun h => absurd (hlow.trans_eq h) (by decide),
    .inr fun h => absurd (hlow.trans h) (by decide)⟩

/-! ## Lines -/

/-- Lines that are written out, and the empty one behind the last end. -/
theorem lines_unlines {lines : List Text} (h : ∀ line ∈ lines, newline ∉ line) :
    (unlines lines).lines = lines ++ [[]] := by
  induction lines with
  | nil => rfl
  | cons line rest ih =>
      have hline : line.lines = [line] :=
        hasLines_iff.mp ⟨List.cons_ne_nil _ _, by simpa using h line List.mem_cons_self,
          join_singleton newline line⟩
      have hrest := ih fun other hother => h other (List.mem_cons_of_mem line hother)
      have hunlines : unlines (line :: rest) = line ++ newline :: unlines rest := by
        rw [unlines, List.flatMap_cons, List.append_assoc]
        rfl
      rw [hunlines, lines_append_cons, hline, hrest]
      rfl

end Text

/-! ## JSON -/

namespace Json

/-- A number in decimal is a number of JSON. -/
theorem isNumber_ofCount (n : UInt64) : IsNumber (Text.ofCount n) := by
  refine ⟨[], Text.ofCount n, [], [], by simp, .inl rfl, ?_, .inl rfl, .inl rfl⟩
  have hdigits := Text.isNumeral_ofCount n
  by_cases hzero : n = 0
  · rw [hzero]
    exact .inl rfl
  have hhead : (Text.ofCount n).head? ≠ some 0x30 :=
    Text.head?_ofNat fun h => hzero (UInt64.toNat_inj.mp h)
  cases hcount : Text.ofCount n with
  | nil => exact absurd hcount (Text.ofNat_ne_nil _)
  | cons b rest =>
      rw [hcount] at hdigits hhead
      obtain ⟨hb, hrest⟩ := (Bool.and_eq_true _ _).mp hdigits
      obtain ⟨hlow, hhigh⟩ := (isDigit_iff b).mp hb
      have hne : b.toNat ≠ 48 := fun h => hhead (congrArg some (UInt8.toNat_inj.mp h))
      refine .inr ⟨b, rest, rfl, ?_, ?_, hrest⟩
      · rw [UInt8.le_iff_toNat_le]
        exact Nat.lt_of_le_of_ne hlow hne.symm
      · rw [UInt8.le_iff_toNat_le]
        exact hhigh

/-- Read a number of JSON as a counter value. -/
def toCount? : Json → Option UInt64
  | .number literal => literal.toCount?
  | _ => none

/-- Bytes that stand for themselves in a string. -/
theorem Chars.of_plain {raw : Text}
    (h : ∀ b ∈ raw, 0x20 ≤ b ∧ b < 0x80 ∧ b ≠ quote ∧ b ≠ backslash) : Chars raw := by
  induction raw with
  | nil => exact .nil
  | cons b rest ih =>
      obtain ⟨hlow, hascii, hquote, hescape⟩ := h b List.mem_cons_self
      exact .plain hlow hascii hquote hescape (ih fun c hc => h c (List.mem_cons_of_mem b hc))

end Json

/-! ## The reports -/

namespace Tally

/-- The counters with their names, in the order of reports. -/
def table (tally : Tally) : List (Text × UInt64) :=
  Metric.all.map fun metric => (metric.name, tally.get metric)

/-- A counter as a member of a JSON object. -/
def jsonCounter (tally : Tally) (metric : Metric) : Text × Json :=
  (metric.name, .number (Text.ofCount (tally.get metric)))

/-- The counters as a JSON value: an object by name, under one key of an object. -/
def toJson (tally : Tally) : Json :=
  .object [("counters", .object (Metric.all.map tally.jsonCounter))]

/-- Read the counters off a JSON value: an object with one key, and the counters under that key. -/
def ofJson? : Json → Option (List (Text × UInt64))
  | .object [(key, .object members)] =>
    if key = "counters" then members.mapM fun (name, v) => v.toCount?.map (name, ·) else none
  | _ => none

/-- Read a line of a report: two words, of which the first ends with a colon. -/
def ofLine? (line : Text) : Option (Text × UInt64) :=
  match line.words with
  | [name, digits] =>
    if name.getLast? = some Json.colon then digits.toCount?.map (name.dropLast, ·) else none
  | _ => none

/-- Read the counters off a text: a heading, and then a counter on every line. -/
def ofText? (report : Text) : Option (List (Text × UInt64)) :=
  match report.lines with
  | heading :: lines =>
    if heading = "== Metrics ==" ∧ lines.getLast? = some [] then lines.dropLast.mapM ofLine?
    else none
  | [] => none

end Tally

theorem Metric.mem_all (metric : Metric) : metric ∈ all := by
  cases metric <;> decide

/-- A table that lists every counter tells the whole tally. -/
theorem Tally.table_injective {s t : Tally} (h : s.table = t.table) : s = t := by
  refine Tally.ext_get fun metric => ?_
  exact (Prod.mk.inj (List.map_inj_left.mp h metric metric.mem_all)).2

theorem mapM_map_eq_some {α β γ : Type} {f : β → Option γ} {g : α → β} {h : α → γ}
    (hfg : ∀ a, f (g a) = some (h a)) (as : List α) : (as.map g).mapM f = some (as.map h) := by
  induction as with
  | nil => rfl
  | cons a as ih =>
      rw [List.map_cons, List.mapM_cons, hfg, ih]
      rfl

/-! ## The report as text -/

section AsText

variable (tally : Tally) (metric : Metric)

/-- The words on a line of the report. -/
theorem Metrics.words_of_textLine :
    ∀ word ∈ [metric.name ++ [Json.colon], Text.ofCount (tally.get metric)], word.Word := by
  rintro word (_ | ⟨_, _ | ⟨_, hmem⟩⟩)
  · cases metric <;> decide +kernel
  · exact Text.word_ofCount _
  · cases hmem

/-- A line of the text is a name with a colon and a number, with a blank between them and two in
    front. -/
theorem Metrics.textLine_eq :
    textLine tally metric =
      "  " ++ Text.join Text.space
        [metric.name ++ [Json.colon], Text.ofCount (tally.get metric)] := by
  rw [Text.join_cons_cons, Text.join_singleton]
  simp only [textLine, List.append_assoc]
  rfl

/-- A line of the report gives its counter. -/
theorem Tally.ofLine?_textLine :
    ofLine? (Metrics.textLine tally metric) = some (metric.name, tally.get metric) := by
  have hline : (Metrics.textLine tally metric).words =
      [metric.name ++ [Json.colon], Text.ofCount (tally.get metric)] := by
    rw [Metrics.textLine_eq, Text.words_append_blank (by decide +kernel),
      Text.words_join (Metrics.words_of_textLine tally metric)]
  rw [ofLine?, hline]
  show (if _ then _ else _) = _
  rw [if_pos List.getLast?_concat, Text.toCount?_ofCount, List.dropLast_concat]
  rfl

variable {metrics : Metrics} (henabled : metrics.enabled = true)
include henabled

/-- The lines of the report: a heading, a line for each counter, and nothing behind the last end. -/
theorem Metrics.lines_textReport :
    metrics.textReport.lines =
      ("== Metrics ==" : Text) :: (Metric.all.map (textLine metrics.tally) ++ [[]]) := by
  rw [textReport, if_pos henabled, Text.lines_unlines]
  · rfl
  rintro line (_ | ⟨_, hmem⟩)
  · decide
  · obtain ⟨metric, -, rfl⟩ := List.mem_map.mp hmem
    rw [textLine_eq, List.mem_append]
    rintro (hmem | hmem)
    · exact absurd hmem (by decide)
    · exact Text.newline_not_mem_join (words_of_textLine metrics.tally metric) hmem

/-- The heading and the empty end are taken off, and every line in between is read back. -/
theorem Tally.ofText?_textReport : ofText? metrics.textReport = some metrics.tally.table := by
  rw [ofText?, Metrics.lines_textReport henabled]
  show (if _ then _ else _) = _
  rw [if_pos ⟨rfl, List.getLast?_concat⟩, List.dropLast_concat]
  exact mapM_map_eq_some (ofLine?_textLine metrics.tally) Metric.all

end AsText

/-! ## The report as JSON -/

section AsJson

variable (tally : Tally)

theorem Tally.ofJson?_toJson : ofJson? tally.toJson = some tally.table := by
  rw [toJson, ofJson?, if_pos rfl]
  refine mapM_map_eq_some (fun metric => ?_) Metric.all
  show (Text.toCount? _).map _ = _
  rw [Text.toCount?_ofCount]
  rfl

theorem Json.chars_name (metric : Metric) : Chars metric.name :=
  .of_plain (by cases metric <;> decide +kernel)

/-- A number with its name, and a blank in between. -/
theorem Json.spells_counter (metric : Metric) :
    Spells (.member metric.name (.number (Text.ofCount (tally.get metric))))
      (quote :: (metric.name ++ quote :: colon :: Text.space ::
        Text.ofCount (tally.get metric))) := by
  have hblank : Blank [Text.space] := by
    decide +kernel
  exact @Spells.member _ [] _ _ _ (chars_name metric) blank_nil hblank
    (.number (isNumber_ofCount _))

/-- Counters with commas in between, each on a line of its own. -/
theorem Json.spells_counters {after : Text} (hafter : Blank after) (metric : Metric)
    (rest : List Metric) :
    Spells (.members ((metric :: rest).map (Tally.jsonCounter tally)))
      (Text.join Text.comma ((metric :: rest).map (Metrics.jsonMember tally)) ++ after) := by
  have hbefore : Blank "\n    " := by
    decide +kernel
  have hmember : ∀ metric, Metrics.jsonMember tally metric = "\n    " ++
      (quote :: (metric.name ++ quote :: colon :: Text.space ::
        Text.ofCount (tally.get metric))) := by
    intro metric
    simp only [Metrics.jsonMember, List.append_assoc]
    rfl
  -- a comma stands behind every counter but the last
  induction rest generalizing metric with
  | nil =>
      rw [List.map_singleton, List.map_singleton, Text.join_singleton, hmember, List.append_assoc]
      exact .lastMember hbefore hafter (spells_counter tally metric)
  | cons next rest ih =>
      have hjoin : Text.join Text.comma ((metric :: next :: rest).map (Metrics.jsonMember tally)) =
          Metrics.jsonMember tally metric ++
            Text.comma :: Text.join Text.comma ((next :: rest).map (Metrics.jsonMember tally)) :=
        Text.join_cons_cons ..
      rw [hjoin, hmember, List.append_assoc, List.append_assoc]
      exact @Spells.moreMembers _ [] _ _ _ _ _ hbefore blank_nil (spells_counter tally metric)
        (ih next)

/-- The report is a document of the counters. -/
theorem Json.document_jsonReport {metrics : Metrics} (henabled : metrics.enabled = true) :
    Document metrics.tally.toJson metrics.jsonReport := by
  have hline : Blank "\n" := by
    decide +kernel
  have hbefore : Blank "\n  " := by
    decide +kernel
  have hblank : Blank [Text.space] := by
    decide +kernel
  have hkey : Chars "counters" := .of_plain (by decide +kernel)
  have hinner := Spells.object
    (spells_counters metrics.tally hbefore .scopesEntered
      [.scopesExited, .labelsGenerated, .globalFallbacks])
  have hspells := Spells.object
    (.lastMember hbefore hline (@Spells.member _ [] _ _ _ hkey blank_nil hblank hinner))
  refine ⟨[], _, "\n", ?_, blank_nil, hline, hspells⟩
  rw [Metrics.jsonReport, if_pos henabled]
  simp only [List.append_assoc, List.cons_append, List.nil_append]
  rfl

/-- The report is a document of nothing else. -/
theorem Json.document_jsonReport_iff {metrics : Metrics} (henabled : metrics.enabled = true)
    {v : Json} : Document v metrics.jsonReport ↔ v = metrics.tally.toJson := by
  constructor
  · intro hv
    exact hv.unique (document_jsonReport henabled)
  · rintro rfl
    exact document_jsonReport henabled

/-- The document is read as the value that it spells, and this gives the counters. -/
theorem Tally.ofJson?_jsonReport {metrics : Metrics} (henabled : metrics.enabled = true) :
    (Json.read metrics.jsonReport).bind ofJson? = some metrics.tally.table := by
  rw [(Json.document_jsonReport henabled).read, Option.bind_some, ofJson?_toJson]

end AsJson

/-! ## Reports tell the counters -/

/-- Reports that can be read back are alike only for equal counters. -/
theorem Metrics.alike_iff {report : Metrics → Text} {decode : Text → Option (List (Text × UInt64))}
    (hdecode : ∀ {metrics}, metrics.enabled = true →
      decode (report metrics) = some metrics.tally.table)
    {metrics other : Metrics} (henabled : metrics.enabled = true) (hother : other.enabled = true) :
    report metrics = report other ↔ metrics.tally = other.tally := by
  constructor
  · intro heq
    refine Tally.table_injective (Option.some.inj ?_)
    rw [← hdecode henabled, heq, hdecode hother]
  · intro heq
    have hsame : metrics = other := by
      cases metrics
      cases other
      exact (Metrics.mk.injEq ..).mpr ⟨henabled.trans hother.symm, heq⟩
    rw [hsame]

/-- **REPORTS CAN BE READ BACK.** A registry that is switched off prints nothing in either format.
    One that is switched on prints the same table in both: the text is a heading and one line for
    each counter, the JSON is the document of one value, and reading either gives the counters by
    name. So two such registries print alike, in one format or the other, just if their counters
    are equal. -/
theorem Metrics.reports_read_back (metrics : Metrics) :
    (metrics.enabled = false → metrics.textReport = [] ∧ metrics.jsonReport = []) ∧
    (metrics.enabled = true →
      metrics.tally.table.map Prod.fst =
        ["scopes_entered", "scopes_exited", "labels_generated", "global_fallbacks"] ∧
      (metrics.tally.table.map Prod.fst).Nodup ∧
      (∀ metric, (metric.name, metrics.tally.get metric) ∈ metrics.tally.table) ∧
      (∀ v, Json.Document v metrics.jsonReport ↔ v = metrics.tally.toJson) ∧
      (Json.read metrics.jsonReport).bind Tally.ofJson? = some metrics.tally.table ∧
      metrics.textReport.lines = ("== Metrics ==" : Text) :: (metrics.tally.table.map
        (fun entry => "  " ++ entry.1 ++ ": " ++ Text.ofCount entry.2) ++ [[]]) ∧
      Tally.ofText? metrics.textReport = some metrics.tally.table ∧
      ∀ other : Metrics, other.enabled = true →
        (metrics.textReport = other.textReport ↔ metrics.tally = other.tally) ∧
        (metrics.jsonReport = other.jsonReport ↔ metrics.tally = other.tally)) := by
  constructor
  · intro hdisabled
    constructor
    · rw [textReport, hdisabled]
      rfl
    · rw [jsonReport, hdisabled]
      rfl
  intro henabled
  refine ⟨rfl, ?names, ?entries, ?document, Tally.ofJson?_jsonReport henabled, ?lines,
    Tally.ofText?_textReport henabled, ?alike⟩
  case names =>
    show (Metric.all.map Metric.name).Nodup
    decide
  case entries =>
    intro metric
    exact List.mem_map.mpr ⟨metric, metric.mem_all, rfl⟩
  case document =>
    intro v
    exact Json.document_jsonReport_iff henabled
  case lines =>
    rw [lines_textReport henabled, Tally.table, List.map_map]
    rfl
  case alike =>
    -- what is read back tells the counters, so what is printed does
    intro other hother
    have hjson := @alike_iff jsonReport (fun text => (Json.read text).bind Tally.ofJson?)
      Tally.ofJson?_jsonReport
    exact ⟨alike_iff Tally.ofText?_textReport henabled hother, hjson henabled hother⟩

/-- Counters from zero to the largest value. -/
theorem Metrics.reports_read_back_largest :
    let largest : Metrics := ⟨true, ⟨18446744073709551615, 0, 10, 7⟩⟩
    let smaller : Metrics := ⟨true, ⟨18446744073709551614, 0, 10, 7⟩⟩
    let off : Metrics := ⟨false, ⟨18446744073709551615, 0, 10, 7⟩⟩
    let table : List (Text × UInt64) := [("scopes_entered", 18446744073709551615),
      ("scopes_exited", 0), ("labels_generated", 10), ("global_fallbacks", 7)]
    (Json.read largest.jsonReport).bind Tally.ofJson? = some table ∧
      Tally.ofText? largest.textReport = some table ∧
      largest.textReport ≠ smaller.textReport ∧ largest.jsonReport ≠ smaller.jsonReport ∧
      off.textReport = [] ∧ off.jsonReport = [] := by
  intro largest smaller off table
  obtain ⟨-, -, -, -, hjson, -, htext, halike⟩ := (Metrics.reports_read_back largest).2 rfl
  obtain ⟨htextIff, hjsonIff⟩ := halike smaller rfl
  have hne : largest.tally ≠ smaller.tally := by
    decide
  exact ⟨hjson, htext, fun h => hne (htextIff.mp h), fun h => hne (hjsonIff.mp h),
    (Metrics.reports_read_back off).1 rfl⟩

end ScopedLabels
