import LoxLexer.Diagnostic.Report
import LoxLexer.Proofs.Moving
import LoxLexer.Proofs.Tiling

/-!
# Diagnostics locate their errors

A string that is never closed runs to the end of the source, so nothing follows it: the
elements of a text are others up to there, and at most one open string behind them
(`exists_front`).  The diagnostics of a scan are in the same order.  Each stray character
is selected by itself, and the open string from its quote to the end.

The end of such a selection is a word, so a report on it can be made; its label marks the
same bytes.
-/

namespace LoxLexer

/-- A diagnostic about one character of a source. -/
structure Diagnostic.SelectsStray (diagnostic : Diagnostic) (source : String) : Prop where
  code_eq : diagnostic.code = 1001
  selects : ∃ span c, diagnostic.span = some span ∧ span.Selects source (String.singleton c) ∧
    diagnostic.text = "Unexpected character: " ++ String.singleton c

/-- A diagnostic about a string that no quote closes.  It runs to the end of the source,
and none of the tokens ends behind its quote. -/
structure Diagnostic.SelectsOpenString (diagnostic : Diagnostic) (source : String)
    (tokens : List Token) : Prop where
  code_eq : diagnostic.code = 1002
  selects : ∃ span before inside, diagnostic.span = some span ∧
    source = before ++ "\"" ++ inside ∧ '"' ∉ inside.toList ∧
    span.start.toNat = before.utf8ByteSize ∧
    span.start.toNat + span.length.toNat = source.utf8ByteSize ∧
    ∀ token ∈ tokens, token.kind ≠ .eof → token.span.Before span

/-- A report whose single label marks, in a source, the bytes that a diagnostic is about,
and names its line. -/
def Report.Marks (report : Report) (diagnostic : Diagnostic) (source : String) : Prop :=
  ∃ label span text, report.label = some label ∧ diagnostic.span = some span ∧
    span.Selects source text ∧ label.offset = span.start.toNat ∧
    label.length = span.length.toNat ∧
    label.text = "line " ++ decimalText diagnostic.line.toNat

/-- A scan whose diagnostics say where the errors of a source are: stray characters, and
at most one open string behind them. -/
structure Scan.LocatesErrors (found : Scan) (source : String) : Prop where
  diagnostics_eq : ∃ strays opened, found.diagnostics = strays ++ opened ∧ opened.length ≤ 1 ∧
    (∀ diagnostic ∈ strays, diagnostic.SelectsStray source) ∧
    ∀ diagnostic ∈ opened, diagnostic.SelectsOpenString source found.tokens
  reports : ∀ diagnostic ∈ found.diagnostics, ∀ sourceName, ∃ report,
    Report.ofDiagnostic diagnostic sourceName source = .ok report ∧
      report.Marks diagnostic source

/-- Nothing follows an open string. -/
theorem eq_nil_of_openString {text : List Char} {before after : List Element} {element : Element}
    (hsplit : elements text = before ++ element :: after) (hform : element.form = .openString) :
    after = [] := by
  have hagain : elements text = (before ++ [element]) ++ after := by
    rw [hsplit, List.append_assoc, List.singleton_append]
  have hafter : elements (after.flatMap Element.text) = after := elements_of_split hagain
  rcases belongs_of_split hsplit with hbelongs | ⟨c, rfl⟩
  · rw [hform] at hbelongs
    rw [← hafter, hbelongs.rest_eq_nil, elements_nil]
  · cases hform

theorem exists_front (text : List Char) :
    ∃ front last, elements text = front ++ last ∧ last.length ≤ 1 ∧
      (∀ element ∈ front, element.form ≠ .openString) ∧
      ∀ element ∈ last, element.form = .openString := by
  by_cases hopen : ∃ element ∈ elements text, element.form = .openString
  · obtain ⟨element, hmem, hform⟩ := hopen
    obtain ⟨front, after, hsplit⟩ := List.append_of_mem hmem
    obtain rfl := eq_nil_of_openString hsplit hform
    refine ⟨front, [element], hsplit, Nat.le_refl _, ?_, by simpa using hform⟩
    intro other hother hopened
    obtain ⟨before, between, rfl⟩ := List.append_of_mem hother
    rw [List.append_assoc, List.cons_append] at hsplit
    have hnil := eq_nil_of_openString hsplit hopened
    simp at hnil
  · refine ⟨elements text, [], by simp, by simp, ?_, by simp⟩
    intro element hmem hform
    exact hopen ⟨element, hmem, hform⟩

theorem length_place (offset line : Nat) (row : List Element) :
    (place offset line row).length = row.length := by
  induction row generalizing offset line with
  | nil => rfl
  | cons element row ih => rw [place_cons, List.length_cons, List.length_cons, ih]

theorem length_foundDiagnostics_le (offset line : Nat) (row : List Element) :
    (foundDiagnostics offset line row).length ≤ row.length := by
  have hle := List.length_filterMap_le Finding.diagnostic?
    ((place offset line row).map Placed.outcome)
  rwa [List.length_map, length_place] at hle

theorem exists_of_mem_foundDiagnostics {offset line : Nat} {row : List Element}
    {diagnostic : Diagnostic} (hmem : diagnostic ∈ foundDiagnostics offset line row) :
    ∃ placed ∈ place offset line row, placed.outcome = .diagnostic diagnostic := by
  simpa only [foundDiagnostics, List.mem_filterMap, List.mem_map, exists_exists_and_eq_and,
    Finding.diagnostic?_eq_some_iff] using hmem

theorem fill_unexpectedCharacter (c : Char) :
    Placeholder.fill Message.unexpectedCharacter.template [String.singleton c] =
      "Unexpected character: " ++ String.singleton c := by
  have htext : Placeholder.fillFrom 0 Message.unexpectedCharacter.template.toList [[c]] =
      "Unexpected character: ".toList ++ [c] := rfl
  rw [Placeholder.fill, List.map_singleton, String.toList_singleton, htext, String.ofList_append,
    String.ofList_toList, String.singleton_eq_ofList]

variable {source : String} {placed : Placed} {diagnostic : Diagnostic}

theorem selectsStray_of_outcome (hbounded : Bounded source)
    (hmem : placed ∈ placedElements source.toList) (hform : placed.element.form ≠ .openString)
    (houtcome : placed.outcome = .diagnostic diagnostic) : diagnostic.SelectsStray source := by
  have hselects := selects_of_mem_placedElements hbounded hmem
  have hsound := sound_of_mem_placedElements hmem
  obtain ⟨hspan, ⟨hstray, hcode, -⟩ | ⟨hopen, -⟩⟩ := Placed.of_outcome_eq_diagnostic houtcome
  · obtain ⟨⟨form, text⟩, start, line⟩ := placed
    cases hstray
    obtain ⟨c, rfl⟩ := hsound.stray
    cases houtcome
    refine ⟨hcode, _, c, hspan, ?_, ?_⟩
    · rw [String.singleton_eq_ofList]
      exact hselects
    · rw [← String.singleton_eq_ofList]
      exact fill_unexpectedCharacter c
  · exact absurd hopen hform

/-- The text of an open string is the rest of the source. -/
theorem exists_inside_of_openString {text : List Char} {before : List Element}
    {element : Element} (hsplit : elements text = before ++ [element])
    (hform : element.form = .openString) :
    ∃ inside, '"' ∉ inside ∧ element.text = '"' :: inside ∧
      text = before.flatMap Element.text ++ ['"'] ++ inside := by
  have htext : text = before.flatMap Element.text ++ element.text := by
    rw [← flatMap_text_elements text, hsplit, List.flatMap_append, List.flatMap_singleton]
  rcases belongs_of_split hsplit with hbelongs | ⟨c, rfl⟩
  · rw [hform, List.flatMap_nil, List.append_nil] at hbelongs
    generalize hpiece : element.text = piece at hbelongs
    cases hbelongs with
    | @openString inside heq hinside =>
        subst heq
        exact ⟨inside, hinside, rfl, by rw [htext, hpiece, List.append_assoc]; rfl⟩
  · cases hform

theorem selectsOpenString_of_outcome (hbounded : Bounded source)
    (hmem : placed ∈ placedElements source.toList) (hform : placed.element.form = .openString)
    (houtcome : placed.outcome = .diagnostic diagnostic) :
    diagnostic.SelectsOpenString source (boundedScan source).tokens := by
  have hstop := stop_le_of_mem_placedElements hbounded hmem
  have hstart := Placed.toNat_start_span hstop
  have hlength := Placed.toNat_length_span hstop
  obtain ⟨before, after, hsplit, hbefore, -⟩ := mem_place_iff.mp hmem
  obtain rfl := eq_nil_of_openString hsplit hform
  obtain ⟨inside, hinside, hpiece, htext⟩ := exists_inside_of_openString hsplit hform
  rw [Nat.zero_add] at hbefore
  have hsource : source =
      String.ofList (before.flatMap Element.text) ++ "\"" ++ String.ofList inside := by
    rw [← String.toList_inj, htext]
    simp
  obtain ⟨hspan, ⟨hstray, -⟩ | ⟨-, hcode, -⟩⟩ := Placed.of_outcome_eq_diagnostic houtcome
  · rw [hform] at hstray
    cases hstray
  refine ⟨hcode, _, _, _, hspan, hsource, by simpa using hinside, ?_, ?_, ?_⟩
  · rw [hstart, hbefore, utf8ByteSize_ofList]
  · rw [hstart, hlength, ← byteLength_toList, htext, hbefore, hpiece, List.append_assoc,
      byteLength_append, List.singleton_append]
  · -- Every token comes from an element in front of the string.
    intro token htoken hkind
    rw [tokens_boundedScan, List.mem_append, List.mem_singleton] at htoken
    rcases htoken with htoken | rfl
    · obtain ⟨other, hother, hread⟩ := mem_tokensOf.mp htoken
      obtain ⟨-, -, hotherSpan, htokenForm⟩ := Placed.of_outcome_eq_token hread
      have hotherStop := stop_le_of_mem_placedElements hbounded hother
      rw [placedElements, hsplit, place_append, List.mem_append] at hother
      rcases hother with hother | hother
      · have hend := (mem_place hother).2.2.1
        rw [Placed.stop] at hend
        rw [hotherSpan, Span.Before, hstart, hbefore, Placed.toNat_start_span hotherStop,
          Placed.toNat_length_span hotherStop]
        omega
      · have helement := element_mem_of_mem_place hother
        rw [List.mem_singleton.mp helement, hform] at htokenForm
        cases htokenForm
    · exact absurd rfl hkind

/-- A report on a span whose end is a word marks that span. -/
theorem Report.exists_of_span {span : Span} (sourceName source : String)
    (hspan : diagnostic.span = some span)
    (hfits : span.start.toNat + span.length.toNat < UInt32.size) :
    ∃ report, Report.ofDiagnostic diagnostic sourceName source = .ok report ∧
      report.label = some ⟨span.start.toNat, span.length.toNat,
        "line " ++ decimalText diagnostic.line.toNat⟩ := by
  have hstop : span.stop = .ok (UInt32.ofNat (span.start.toNat + span.length.toNat)) :=
    Word.ofNat_of_lt hfits
  have hlength : (UInt32.ofNat (span.start.toNat + span.length.toNat)).toNat - span.start.toNat =
      span.length.toNat := by
    rw [UInt32.toNat_ofNat_of_lt' hfits]
    omega
  have hbounds : span.bounds =
      .ok (span.start, UInt32.ofNat (span.start.toNat + span.length.toNat)) := by
    rw [Span.bounds, hstop]
    rfl
  have hlabel : Report.labelOf diagnostic = .ok (some ⟨span.start.toNat, span.length.toNat,
      "line " ++ decimalText diagnostic.line.toNat⟩) := by
    simp only [Report.labelOf, hspan, hbounds]
    exact congrArg (fun length => Except.ok (some (Label.mk _ length _))) hlength
  rw [Report.ofDiagnostic, hlabel]
  exact ⟨_, rfl, rfl⟩

theorem exists_report_of_outcome (hbounded : Bounded source)
    (hmem : placed ∈ placedElements source.toList)
    (houtcome : placed.outcome = .diagnostic diagnostic) (sourceName : String) :
    ∃ report, Report.ofDiagnostic diagnostic sourceName source = .ok report ∧
      report.Marks diagnostic source := by
  have hspan := (Placed.of_outcome_eq_diagnostic houtcome).1
  have hstop := stop_le_of_mem_placedElements hbounded hmem
  have hfits : placed.span.start.toNat + placed.span.length.toNat < UInt32.size := by
    rw [Placed.toNat_start_span hstop, Placed.toNat_length_span hstop]
    exact Nat.lt_succ_of_le hstop
  obtain ⟨report, hreport, hlabel⟩ := Report.exists_of_span sourceName source hspan hfits
  exact ⟨report, hreport, _, _, _, hlabel, hspan, selects_of_mem_placedElements hbounded hmem,
    rfl, rfl, rfl⟩

/-- The diagnostics of a bounded source say where its errors are. -/
theorem scan_locatesErrors (hbounded : Bounded source) :
    ∃ found, scan source = .ok found ∧ found.LocatesErrors source := by
  refine ⟨boundedScan source, scan_of_bounded hbounded, ?_⟩
  constructor
  case diagnostics_eq =>
    obtain ⟨front, last, hsplit, hlast, hfront, hopen⟩ := exists_front source.toList
    have hplaced : placedElements source.toList = place 0 1 front ++
        place (0 + byteLength (front.flatMap Element.text))
          (1 + lineFeeds (front.flatMap Element.text)) last := by
      rw [placedElements, hsplit, place_append]
    have hfound := foundDiagnostics_append 0 1 front last
    rw [← hsplit] at hfound
    refine ⟨_, _, hfound, (length_foundDiagnostics_le _ _ last).trans hlast, ?_, ?_⟩
    · intro diagnostic hmem
      obtain ⟨placed, hmem, houtcome⟩ := exists_of_mem_foundDiagnostics hmem
      refine selectsStray_of_outcome hbounded ?_ (hfront _ (element_mem_of_mem_place hmem)) houtcome
      rw [hplaced]
      exact List.mem_append_left _ hmem
    · intro diagnostic hmem
      obtain ⟨placed, hmem, houtcome⟩ := exists_of_mem_foundDiagnostics hmem
      refine selectsOpenString_of_outcome hbounded ?_ (hopen _ (element_mem_of_mem_place hmem))
        houtcome
      rw [hplaced]
      exact List.mem_append_right _ hmem
  case reports =>
    intro diagnostic hmem sourceName
    obtain ⟨placed, hplaced, houtcome⟩ := mem_diagnostics.mp hmem
    exact exists_report_of_outcome hbounded hplaced houtcome sourceName

theorem scan_locatesErrors_of_wide_characters :
    Bounded "é\x00 \"a\" /* @ */ 😀\n\x7b \"€\n@" ∧
      ∃ found, scan "é\x00 \"a\" /* @ */ 😀\n\x7b \"€\n@" = .ok found ∧
        found.LocatesErrors "é\x00 \"a\" /* @ */ 😀\n\x7b \"€\n@" :=
  have hbounded : Bounded "é\x00 \"a\" /* @ */ 😀\n\x7b \"€\n@" := by decide
  ⟨hbounded, scan_locatesErrors hbounded⟩

end LoxLexer
