import LoxLexer.Proofs.LineTable

/-!
# Line numbers agree with the line table

A scan counts lines as it goes.  A line table of the same source finds them by
offset.  Both give the same lines to tokens and to diagnostics, and the lines
that a scan gives never decrease.
-/

namespace LoxLexer

/-- A scan whose lines are those of the line table of the source. -/
structure Scan.CountsLines (found : Scan) (source : String) : Prop where
  line_token : ∀ token ∈ found.tokens, token.kind ≠ .eof →
    token.line.toNat = (LineTable.ofText source).lineOf token.span.start
  line_end : ∀ token ∈ found.tokens, token.kind = .eof →
    token.line.toNat = (LineTable.ofText source).lineCount
  exists_end : ∃ token ∈ found.tokens, token.kind = .eof
  code_diagnostic : ∀ diagnostic ∈ found.diagnostics,
    diagnostic.code = Message.unexpectedCharacter.code ∨
      diagnostic.code = Message.unterminatedString.code
  line_stray : ∀ diagnostic ∈ found.diagnostics,
    diagnostic.code = Message.unexpectedCharacter.code → ∃ span, diagnostic.span = some span ∧
      diagnostic.line.toNat = (LineTable.ofText source).lineOf span.start
  line_openString : ∀ diagnostic ∈ found.diagnostics,
    diagnostic.code = Message.unterminatedString.code →
      diagnostic.line.toNat = (LineTable.ofText source).lineCount
  tokens_ordered : (found.tokens.map Token.line).Pairwise (· ≤ ·)
  diagnostics_ordered : (found.diagnostics.map Diagnostic.line).Pairwise (· ≤ ·)

variable {source : String}

theorem lastLine_lt_size (hbounded : Bounded source) {placed : Placed}
    (hmem : placed ∈ placedElements source.toList) : placed.lastLine < UInt32.size := by
  have hlast := (mem_placedElements hmem).2.2
  have hfeeds := lineFeeds_le_byteLength source.toList
  have hsize : UInt32.size = 4294967296 := rfl
  unfold Bounded at hbounded
  omega

/-- The line on which an element starts is the one that the table has for its
first byte. -/
theorem line_eq_lineOf (hbounded : Bounded source) {placed : Placed}
    (hmem : placed ∈ placedElements source.toList) :
    placed.line = (LineTable.ofText source).lineOf placed.span.start := by
  have hstop := stop_le_of_mem_placedElements hbounded hmem
  obtain ⟨before, after, hrow, hstart, hline⟩ := mem_place_iff.mp hmem
  have htext : source.toList =
      before.flatMap Element.text ++ (placed.element :: after).flatMap Element.text := by
    rw [← List.flatMap_append, ← hrow, flatMap_text_elements]
  have hposition : placed.span.start.toNat = byteLength (before.flatMap Element.text) := by
    rw [Placed.toNat_start_span hstop, hstart, Nat.zero_add]
  rw [LineTable.lineOf_byteLength hbounded htext hposition, hline]

/-- A string that is open ends on the last line. -/
theorem lastLine_eq_lineCount {placed : Placed} (hmem : placed ∈ placedElements source.toList)
    (hform : placed.element.form = .openString) :
    placed.lastLine = (LineTable.ofText source).lineCount := by
  obtain ⟨before, after, hrow, -, hline⟩ := mem_place_iff.mp hmem
  have hnone : after.flatMap Element.text = [] := by
    rcases belongs_of_split hrow with hbelongs | ⟨c, hstray⟩
    · rw [hform] at hbelongs
      exact hbelongs.rest_eq_nil
    · rw [hstray] at hform
      cases hform
  have htext : source.toList = before.flatMap Element.text ++ placed.element.text := by
    rw [← flatMap_text_elements source.toList, hrow, List.flatMap_append, List.flatMap_cons, hnone,
      List.append_nil]
  rw [LineTable.lineCount_ofText, htext, lineFeeds_append, Placed.lastLine, hline, Nat.add_assoc]

/-- The line that a diagnostic gives lies between those on which its element
starts and ends. -/
theorem line_bounds_of_outcome {placed : Placed} {diagnostic : Diagnostic}
    (hline : placed.lastLine < UInt32.size)
    (houtcome : placed.outcome = .diagnostic diagnostic) :
    placed.line ≤ diagnostic.line.toNat ∧ diagnostic.line.toNat ≤ placed.lastLine := by
  have hle := placed.line_le_lastLine
  rcases (Placed.of_outcome_eq_diagnostic houtcome).2 with ⟨-, -, hdiagnostic⟩ | ⟨-, -, hdiagnostic⟩
  · rw [hdiagnostic, UInt32.toNat_ofNat_of_lt' (Nat.lt_of_le_of_lt hle hline)]
    exact ⟨Nat.le_refl _, hle⟩
  · rw [hdiagnostic, UInt32.toNat_ofNat_of_lt' hline]
    exact ⟨hle, Nat.le_refl _⟩

theorem toNat_line_of_outcome {placed : Placed} {token : Token}
    (hline : placed.lastLine < UInt32.size) (houtcome : placed.outcome = .token token) :
    token.line.toNat = placed.line := by
  rw [(Placed.of_outcome_eq_token houtcome).2.1]
  exact UInt32.toNat_ofNat_of_lt' (Nat.lt_of_le_of_lt placed.line_le_lastLine hline)

theorem toNat_line_endOf (hbounded : Bounded source) :
    (endOf source).line.toNat = 1 + lineFeeds source.toList := by
  have hfeeds := lineFeeds_le_byteLength source.toList
  have hsize : UInt32.size = 4294967296 := rfl
  unfold Bounded at hbounded
  exact UInt32.toNat_ofNat_of_lt' (by omega)

/-- The lines of the tokens do not decrease, and none is behind the last line. -/
theorem pairwise_line_tokens (hbounded : Bounded source) :
    ((boundedScan source).tokens.map Token.line).Pairwise (· ≤ ·) := by
  rw [tokens_boundedScan, List.pairwise_map, List.pairwise_append]
  refine ⟨?_, List.pairwise_singleton _ _, ?_⟩
  · unfold tokensOf
    rw [List.pairwise_filterMap, List.pairwise_map]
    refine (pairwise_place 0 1 (elements source.toList)).imp_of_mem ?_
    intro first second hfirst hsecond horder token htoken other hother
    rw [Finding.token?_eq_some_iff] at htoken hother
    have hle := first.line_le_lastLine
    rw [UInt32.le_iff_toNat_le, toNat_line_of_outcome (lastLine_lt_size hbounded hfirst) htoken,
      toNat_line_of_outcome (lastLine_lt_size hbounded hsecond) hother]
    exact hle.trans horder.2
  · intro token hmem last hlast
    obtain rfl := List.mem_singleton.mp hlast
    obtain ⟨placed, hplaced, houtcome⟩ := mem_tokensOf.mp hmem
    have hlast := (mem_placedElements hplaced).2.2
    have hle := placed.line_le_lastLine
    rw [UInt32.le_iff_toNat_le, toNat_line_endOf hbounded,
      toNat_line_of_outcome (lastLine_lt_size hbounded hplaced) houtcome]
    omega

theorem pairwise_line_diagnostics (hbounded : Bounded source) :
    ((boundedScan source).diagnostics.map Diagnostic.line).Pairwise (· ≤ ·) := by
  simp only [boundedScan]
  rw [List.pairwise_map, List.pairwise_filterMap, List.pairwise_map]
  refine (pairwise_place 0 1 (elements source.toList)).imp_of_mem ?_
  intro first second hfirst hsecond horder diagnostic hdiagnostic other hother
  rw [Finding.diagnostic?_eq_some_iff] at hdiagnostic hother
  have hbefore := line_bounds_of_outcome (lastLine_lt_size hbounded hfirst) hdiagnostic
  have hafter := line_bounds_of_outcome (lastLine_lt_size hbounded hsecond) hother
  rw [UInt32.le_iff_toNat_le]
  omega

/-- The lines of a scan are those of the line table of its source. -/
theorem scan_countsLines (hbounded : Bounded source) :
    ∃ found, scan source = .ok found ∧ found.CountsLines source := by
  refine ⟨boundedScan source, scan_of_bounded hbounded, ?_⟩
  constructor
  case line_token =>
    intro token hmem hkind
    rw [tokens_boundedScan, List.mem_append, List.mem_singleton] at hmem
    rcases hmem with hmem | rfl
    · obtain ⟨placed, hplaced, houtcome⟩ := mem_tokensOf.mp hmem
      rw [(Placed.of_outcome_eq_token houtcome).2.2.1, ← line_eq_lineOf hbounded hplaced]
      exact toNat_line_of_outcome (lastLine_lt_size hbounded hplaced) houtcome
    · exact absurd rfl hkind
  case line_end =>
    intro token hmem hkind
    rw [tokens_boundedScan, List.mem_append, List.mem_singleton] at hmem
    rcases hmem with hmem | rfl
    · obtain ⟨placed, hplaced, houtcome⟩ := mem_tokensOf.mp hmem
      have hsound := sound_of_mem_placedElements hplaced
      exact absurd hkind ((reads_of_outcome hsound houtcome).1.kind_ne_eof hsound)
    · rw [toNat_line_endOf hbounded, LineTable.lineCount_ofText]
  case exists_end => exact ⟨endOf source, by simp [tokens_boundedScan], rfl⟩
  case code_diagnostic =>
    intro diagnostic hmem
    obtain ⟨placed, -, houtcome⟩ := mem_diagnostics.mp hmem
    rcases (Placed.of_outcome_eq_diagnostic houtcome).2 with ⟨-, hcode, -⟩ | ⟨-, hcode, -⟩
    · exact Or.inl hcode
    · exact Or.inr hcode
  case line_stray =>
    intro diagnostic hmem hcode
    obtain ⟨placed, hplaced, houtcome⟩ := mem_diagnostics.mp hmem
    have hline := lastLine_lt_size hbounded hplaced
    have hle := placed.line_le_lastLine
    obtain ⟨hspan, ⟨-, -, hdiagnostic⟩ | ⟨-, hother, -⟩⟩ := Placed.of_outcome_eq_diagnostic houtcome
    · refine ⟨placed.span, hspan, ?_⟩
      rw [hdiagnostic, ← line_eq_lineOf hbounded hplaced]
      exact UInt32.toNat_ofNat_of_lt' (Nat.lt_of_le_of_lt hle hline)
    · rw [hcode] at hother
      exact absurd hother (by decide)
  case line_openString =>
    intro diagnostic hmem hcode
    obtain ⟨placed, hplaced, houtcome⟩ := mem_diagnostics.mp hmem
    obtain ⟨-, ⟨-, hother, -⟩ | ⟨hform, -, hdiagnostic⟩⟩ := Placed.of_outcome_eq_diagnostic houtcome
    · rw [hcode] at hother
      exact absurd hother (by decide)
    · rw [hdiagnostic, ← lastLine_eq_lineCount hplaced hform]
      exact UInt32.toNat_ofNat_of_lt' (lastLine_lt_size hbounded hplaced)
  case tokens_ordered => exact pairwise_line_tokens hbounded
  case diagnostics_ordered => exact pairwise_line_diagnostics hbounded

theorem scan_countsLines_of_long_string :
    Bounded "a /*\n*/ \"b\nc\" é\n\"d\n" ∧
      ∃ found, scan "a /*\n*/ \"b\nc\" é\n\"d\n" = .ok found ∧
        found.CountsLines "a /*\n*/ \"b\nc\" é\n\"d\n" :=
  have hbounded : Bounded "a /*\n*/ \"b\nc\" é\n\"d\n" := by decide
  ⟨hbounded, scan_countsLines hbounded⟩

end LoxLexer
