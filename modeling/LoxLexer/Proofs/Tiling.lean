import LoxLexer.Proofs.Placing
import Mathlib.Data.List.Pairwise

/-!
# Tokens and diagnostics tile the source

Tokens and diagnostics select pieces of the source that do not overlap, in the
order in which they are listed.  Nothing between them is lost: a stretch of bytes
that no span holds, and that no further such byte adjoins, is a row of blanks and
comments (`IsGap.filled`).

Whether a stretch is one is not settled by its own text.  A comment that nothing closes goes
on to the end of the source, and a line comment to the end of its line, so each blank and
each comment is judged in front of all that follows it (`FillsBefore`).
-/

namespace LoxLexer

namespace Span

/-- Whether an offset is one of the bytes of a span. -/
def Holds (span : Span) (offset : Nat) : Prop :=
  span.start.toNat ≤ offset ∧ offset < span.start.toNat + span.length.toNat

/-- The span selects this text of a source, from one boundary of characters to
another. -/
def Selects (span : Span) (source text : String) : Prop :=
  ∃ before after, source = before ++ text ++ after ∧
    span.start.toNat = before.utf8ByteSize ∧ span.length.toNat = text.utf8ByteSize

def Before (first second : Span) : Prop :=
  first.start.toNat + first.length.toNat ≤ second.start.toNat

def Disjoint (first second : Span) : Prop :=
  ∀ offset, ¬ (first.Holds offset ∧ second.Holds offset)

theorem Before.disjoint {first second : Span} (hbefore : first.Before second) :
    first.Disjoint second := by
  rintro offset ⟨hfirst, hsecond⟩
  simp only [Before, Holds] at hbefore hfirst hsecond
  omega

theorem Disjoint.symm {first second : Span} (hdisjoint : first.Disjoint second) :
    second.Disjoint first :=
  fun offset hholds => hdisjoint offset hholds.symm

end Span

/-- The forms that leave nothing behind: blanks and comments. -/
def Form.isFiller : Form → Bool
  | .blank | .lineComment | .blockComment | .openComment => true
  | _ => false

/-- A row of blanks and comments in front of the rest of a text.  Each of them is what the
longest match finds there, with the rest of the row and all that follows the row. -/
inductive FillsBefore (after : List Char) : List Char → Prop where
  | nil : FillsBefore after []
  | cons {element : Element} {text : List Char} (hfiller : element.form.isFiller)
      (hhead : Heads (element.text ++ text ++ after) element) (hrest : FillsBefore after text) :
      FillsBefore after (element.text ++ text)

/-- A stretch of bytes, not empty, that no span holds and that cannot be made
longer: it begins at the first byte or behind a byte that a span holds, and ends
at the end of the source or in front of one. -/
structure IsGap (spans : List Span) (source : String) (start stop : Nat) : Prop where
  start_lt_stop : start < stop
  stop_le : stop ≤ source.utf8ByteSize
  free : ∀ offset, start ≤ offset → offset < stop → ∀ span ∈ spans, ¬ span.Holds offset
  left : start = 0 ∨ ∃ span ∈ spans, span.Holds (start - 1)
  right : stop = source.utf8ByteSize ∨ ∃ span ∈ spans, span.Holds stop

/-- A scan whose tokens and diagnostics tile a source, together with the fillers
between them. -/
structure Scan.Tiles (found : Scan) (source : String) (tokens : List Token) (last : Token) :
    Prop where
  tokens_eq : found.tokens = tokens ++ [last]
  kind_last : last.kind = .eof
  lexeme_last : last.lexeme = ""
  literal_last : last.literal = none
  start_last : last.span.start.toNat = source.utf8ByteSize
  length_last : last.span.length = 0
  kind_ne : ∀ token ∈ tokens, token.kind ≠ .eof
  token_selects : ∀ token ∈ tokens, token.span.length ≠ 0 ∧ token.span.Selects source token.lexeme
  diagnostic_selects : ∀ diagnostic ∈ found.diagnostics, ∃ span text,
    diagnostic.span = some span ∧ span.length ≠ 0 ∧ span.Selects source text
  tokens_before : (tokens.map Token.span).Pairwise Span.Before
  diagnostics_before : (found.diagnostics.filterMap Diagnostic.span).Pairwise Span.Before
  disjoint : (tokens.map Token.span ++ found.diagnostics.filterMap Diagnostic.span).Pairwise
    Span.Disjoint
  gaps : ∀ start stop,
    IsGap (tokens.map Token.span ++ found.diagnostics.filterMap Diagnostic.span) source start stop →
      ∃ before text after, source = before ++ text ++ after ∧ start = before.utf8ByteSize ∧
        stop = (before ++ text).utf8ByteSize ∧ FillsBefore after.toList text.toList

/-- The spans of those elements of a source that have one of some forms. -/
def spansOf (forms : Form → Bool) (source : String) : List Span :=
  ((placedElements source.toList).filter fun placed => forms placed.element.form).map Placed.span

/-- An element lies in a source between the text of the elements before it and
that of the elements after it. -/
theorem selects_of_mem_placedElements {source : String} (hbounded : Bounded source)
    {placed : Placed} (hmem : placed ∈ placedElements source.toList) :
    placed.span.Selects source (String.ofList placed.element.text) := by
  have hstop := stop_le_of_mem_placedElements hbounded hmem
  obtain ⟨before, after, hrow, hstart, -⟩ := mem_place_iff.mp hmem
  refine ⟨String.ofList (before.flatMap Element.text), String.ofList (after.flatMap Element.text),
    ?_, ?_, ?_⟩
  · rw [← String.ofList_append, ← String.ofList_append, ← String.toList_inj, String.toList_ofList,
      ← flatMap_text_elements source.toList, hrow]
    simp
  · rw [Placed.toNat_start_span hstop, hstart, utf8ByteSize_ofList, Nat.zero_add]
  · rw [Placed.toNat_length_span hstop, utf8ByteSize_ofList]

theorem length_span_ne_zero {source : String} (hbounded : Bounded source)
    {placed : Placed} (hmem : placed ∈ placedElements source.toList) :
    placed.span.length ≠ 0 := by
  have hstop := stop_le_of_mem_placedElements hbounded hmem
  have hpos := byteLength_pos (sound_of_mem_placedElements hmem).text_ne_nil
  intro hzero
  have hlength := Placed.toNat_length_span hstop
  rw [hzero] at hlength
  simp only [UInt32.toNat_zero] at hlength
  omega

theorem Placed.span_token? (placed : Placed) :
    placed.outcome.token?.map Token.span =
      if placed.element.form.isToken then some placed.span else none := by
  obtain ⟨⟨form, text⟩, start, line⟩ := placed
  cases form <;> rfl

theorem Placed.span_diagnostic? (placed : Placed) :
    placed.outcome.diagnostic?.bind Diagnostic.span =
      if placed.element.form.isError then some placed.span else none := by
  obtain ⟨⟨form, text⟩, start, line⟩ := placed
  cases form <;> rfl

theorem filterMap_ite_eq {α β : Type} (test : α → Bool) (f : α → β) (list : List α) :
    list.filterMap (fun x => if test x then some (f x) else none) =
      (list.filter test).map f := by
  induction list with
  | nil => rfl
  | cons x list ih =>
      cases htest : test x <;> simp [htest, ih]

theorem map_span_tokensOf (source : String) :
    (tokensOf source).map Token.span = spansOf Form.isToken source := by
  rw [tokensOf, spansOf, List.map_filterMap, List.filterMap_map, ← filterMap_ite_eq]
  exact congrArg (List.filterMap · _) (funext Placed.span_token?)

theorem filterMap_span_diagnostics (source : String) :
    (boundedScan source).diagnostics.filterMap Diagnostic.span =
      spansOf Form.isError source := by
  simp only [boundedScan]
  rw [spansOf, List.filterMap_filterMap, List.filterMap_map, ← filterMap_ite_eq]
  exact congrArg (List.filterMap · _) (funext Placed.span_diagnostic?)

theorem pairwise_spansOf {source : String} (hbounded : Bounded source) (forms : Form → Bool) :
    (spansOf forms source).Pairwise Span.Before := by
  rw [spansOf, List.pairwise_map]
  refine List.Pairwise.filter _ ?_
  refine (pairwise_place 0 1 (elements source.toList)).imp_of_mem ?_
  intro first second hfirst hsecond horder
  have hfirstStop := stop_le_of_mem_placedElements hbounded hfirst
  have hsecondStop := stop_le_of_mem_placedElements hbounded hsecond
  rw [Span.Before, Placed.toNat_start_span hfirstStop, Placed.toNat_length_span hfirstStop,
    Placed.toNat_start_span hsecondStop]
  exact horder.1

theorem mem_spansOf {forms : Form → Bool} {source : String} {span : Span} :
    span ∈ spansOf forms source ↔
      ∃ placed ∈ placedElements source.toList, forms placed.element.form ∧ placed.span = span := by
  simp [spansOf, and_assoc]

theorem pairwise_disjoint_spansOf {source : String} (hbounded : Bounded source) :
    (spansOf Form.isToken source ++ spansOf Form.isError source).Pairwise Span.Disjoint := by
  rw [List.pairwise_append]
  refine ⟨(pairwise_spansOf hbounded _).imp Span.Before.disjoint,
    (pairwise_spansOf hbounded _).imp Span.Before.disjoint, ?_⟩
  intro first hfirst second hsecond
  obtain ⟨token, htokenMem, htoken, rfl⟩ := mem_spansOf.mp hfirst
  obtain ⟨error, herrorMem, herror, rfl⟩ := mem_spansOf.mp hsecond
  have hne : token ≠ error := by
    rintro rfl
    revert htoken herror
    cases token.element.form <;> simp [Form.isToken, Form.isError]
  have hsymm : Std.Symm fun first second : Placed => first.span.Disjoint second.span :=
    ⟨fun _ _ hdisjoint => hdisjoint.symm⟩
  have hall : (placedElements source.toList).Pairwise fun first second =>
      first.span.Disjoint second.span := by
    have hspans := pairwise_spansOf hbounded fun _ => true
    simp only [spansOf, List.filter_true, List.pairwise_map] at hspans
    exact hspans.imp Span.Before.disjoint
  exact hall.forall htokenMem herrorMem hne

theorem holds_span_iff {source : String} (hbounded : Bounded source)
    {placed : Placed} (hmem : placed ∈ placedElements source.toList) {offset : Nat} :
    placed.span.Holds offset ↔ placed.start ≤ offset ∧ offset < placed.stop := by
  have hstop := stop_le_of_mem_placedElements hbounded hmem
  rw [Span.Holds, Placed.toNat_start_span hstop, Placed.toNat_length_span hstop]
  rfl

def solidSpans (source : String) : List Span :=
  spansOf Form.isToken source ++ spansOf Form.isError source

theorem mem_solidSpans {source : String} {span : Span} (hmem : span ∈ solidSpans source) :
    ∃ placed ∈ placedElements source.toList, placed.span = span := by
  rcases List.mem_append.mp hmem with hmem | hmem
  · obtain ⟨placed, hplaced, -, hspan⟩ := mem_spansOf.mp hmem
    exact ⟨placed, hplaced, hspan⟩
  · obtain ⟨placed, hplaced, -, hspan⟩ := mem_spansOf.mp hmem
    exact ⟨placed, hplaced, hspan⟩

theorem span_mem_solidSpans {source : String} {placed : Placed}
    (hmem : placed ∈ placedElements source.toList)
    (hfiller : placed.element.form.isFiller = false) : placed.span ∈ solidSpans source := by
  cases htoken : placed.element.form.isToken with
  | true => exact List.mem_append_left _ (mem_spansOf.mpr ⟨placed, hmem, htoken, rfl⟩)
  | false =>
      refine List.mem_append_right _ (mem_spansOf.mpr ⟨placed, hmem, ?_, rfl⟩)
      revert hfiller htoken
      cases placed.element.form <;> simp [Form.isFiller, Form.isToken, Form.isError]

theorem IsGap.start_eq {source : String} (hbounded : Bounded source) {start stop : Nat}
    (hgap : IsGap (solidSpans source) source start stop) :
    ∃ before, before <+: elements source.toList ∧
      start = byteLength (before.flatMap Element.text) := by
  by_cases hzero : start = 0
  · exact ⟨[], List.nil_prefix, hzero⟩
  obtain ⟨span, hspan, hholds⟩ := hgap.left.resolve_left hzero
  have hfree := hgap.free start (Nat.le_refl _) hgap.start_lt_stop span hspan
  obtain ⟨placed, hplaced, rfl⟩ := mem_solidSpans hspan
  rw [holds_span_iff hbounded hplaced] at hholds hfree
  obtain ⟨before, after, hrow, hstart, -⟩ := mem_place_iff.mp hplaced
  refine ⟨before ++ [placed.element], ⟨after, by simp [hrow]⟩, ?_⟩
  have hstop : placed.stop = start := by omega
  rw [← hstop, Placed.stop, hstart, List.flatMap_append, byteLength_append, Nat.zero_add]
  simp

theorem IsGap.stop_eq {source : String} (hbounded : Bounded source) {start stop : Nat}
    (hgap : IsGap (solidSpans source) source start stop) :
    ∃ before, before <+: elements source.toList ∧
      stop = byteLength (before.flatMap Element.text) := by
  rcases hgap.right with hend | ⟨span, hspan, hholds⟩
  · refine ⟨elements source.toList, List.prefix_rfl, ?_⟩
    rw [hend, flatMap_text_elements, byteLength_toList]
  · have hlt := hgap.start_lt_stop
    have hfree := hgap.free (stop - 1) (by omega) (by omega) span hspan
    obtain ⟨placed, hplaced, rfl⟩ := mem_solidSpans hspan
    rw [holds_span_iff hbounded hplaced] at hholds hfree
    obtain ⟨before, after, hrow, hstart, -⟩ := mem_place_iff.mp hplaced
    refine ⟨before, ⟨placed.element :: after, hrow.symm⟩, ?_⟩
    omega

/-- Elements that are fillers fill a text up to the elements after them. -/
theorem Splits.fillsBefore {text : List Char} {row after : List Element}
    (hsplits : Splits text (row ++ after)) (hfiller : ∀ element ∈ row, element.form.isFiller) :
    FillsBefore (after.flatMap Element.text) (row.flatMap Element.text) := by
  induction row generalizing text with
  | nil => exact .nil
  | cons element row ih =>
      cases hsplits with
      | @cons _ rest _ hhead hrest =>
          have hrestText : (row ++ after).flatMap Element.text = rest := hrest.flatMap_text
          rw [List.flatMap_append] at hrestText
          rw [← hrestText, ← List.append_assoc] at hhead
          rw [List.flatMap_cons]
          refine .cons (hfiller element List.mem_cons_self) hhead (ih hrest ?_)
          exact fun other hmem => hfiller other (List.mem_cons_of_mem _ hmem)

/-- An element that starts inside a gap is a filler. -/
theorem IsGap.isFiller {source : String} (hbounded : Bounded source) {start stop : Nat}
    (hgap : IsGap (solidSpans source) source start stop)
    {placed : Placed} (hmem : placed ∈ placedElements source.toList)
    (hstart : start ≤ placed.start) (hstop : placed.start < stop) :
    placed.element.form.isFiller := by
  by_contra hfiller
  have hspan := span_mem_solidSpans hmem (by simpa using hfiller)
  have hpos := byteLength_pos (sound_of_mem_placedElements hmem).text_ne_nil
  refine hgap.free placed.start hstart hstop _ hspan ?_
  rw [holds_span_iff hbounded hmem]
  refine ⟨Nat.le_refl _, ?_⟩
  rw [Placed.stop]
  omega

/-- A gap begins and ends where elements do, so it holds a row of them. -/
theorem IsGap.exists_row {source : String} (hbounded : Bounded source) {start stop : Nat}
    (hgap : IsGap (solidSpans source) source start stop) :
    ∃ before row after, elements source.toList = before ++ (row ++ after) ∧
      start = byteLength (before.flatMap Element.text) ∧
      stop = byteLength ((before ++ row).flatMap Element.text) := by
  obtain ⟨before, hbefore, hstart⟩ := hgap.start_eq hbounded
  obtain ⟨upTo, hupTo, hstop⟩ := hgap.stop_eq hbounded
  have hlt := hgap.start_lt_stop
  have hshorter : before <+: upTo := by
    rcases List.prefix_or_prefix_of_prefix hbefore hupTo with h | ⟨row, rfl⟩
    · exact h
    · simp only [hstart, hstop, List.flatMap_append, byteLength_append] at hlt
      omega
  obtain ⟨row, rfl⟩ := hshorter
  obtain ⟨after, hrow⟩ := hupTo
  exact ⟨before, row, after, by rw [← hrow, List.append_assoc], hstart, hstop⟩

theorem IsGap.isFiller_of_mem {source : String} (hbounded : Bounded source)
    {before row after : List Element} (hrow : elements source.toList = before ++ (row ++ after))
    (hgap : IsGap (solidSpans source) source (byteLength (before.flatMap Element.text))
      (byteLength ((before ++ row).flatMap Element.text)))
    {element : Element} (hmem : element ∈ row) : element.form.isFiller := by
  obtain ⟨left, right, rfl⟩ := List.append_of_mem hmem
  let placed : Placed := ⟨element, byteLength ((before ++ left).flatMap Element.text),
    1 + lineFeeds ((before ++ left).flatMap Element.text)⟩
  have hplaced : placed ∈ placedElements source.toList :=
    mem_place_iff.mpr ⟨before ++ left, right ++ after, by simp [hrow, placed],
      by simp [placed], rfl⟩
  have hpos := byteLength_pos (sound_of_mem_placedElements hplaced).text_ne_nil
  refine hgap.isFiller hbounded hplaced ?_ ?_
  · simp only [placed, List.flatMap_append, byteLength_append]
    omega
  · simp only [placed, List.flatMap_append, byteLength_append, List.flatMap_cons] at hpos ⊢
    omega

/-- What lies in a gap is a row of blanks and comments in front of what follows the gap. -/
theorem IsGap.filled {source : String} (hbounded : Bounded source) {start stop : Nat}
    (hgap : IsGap (solidSpans source) source start stop) :
    ∃ before text after, source = before ++ text ++ after ∧ start = before.utf8ByteSize ∧
      stop = (before ++ text).utf8ByteSize ∧ FillsBefore after.toList text.toList := by
  obtain ⟨before, row, after, hrow, rfl, rfl⟩ := hgap.exists_row hbounded
  refine ⟨String.ofList (before.flatMap Element.text), String.ofList (row.flatMap Element.text),
    String.ofList (after.flatMap Element.text), ?_, ?_, ?_, ?_⟩
  · rw [← String.ofList_append, ← String.ofList_append, ← String.toList_inj, String.toList_ofList,
      ← flatMap_text_elements source.toList, hrow]
    simp
  · rw [utf8ByteSize_ofList]
  · rw [← String.ofList_append, utf8ByteSize_ofList, List.flatMap_append]
  · rw [String.toList_ofList, String.toList_ofList]
    have hsplits := splits_iff.mpr (elements_of_split hrow).symm
    exact hsplits.fillsBefore fun _ hmem => hgap.isFiller_of_mem hbounded hrow hmem

/-- The tokens and the diagnostics of a bounded source tile it. -/
theorem scan_tiles {source : String} (hbounded : Bounded source) :
    ∃ found tokens last, scan source = .ok found ∧ found.Tiles source tokens last := by
  refine ⟨boundedScan source, tokensOf source, endOf source, scan_of_bounded hbounded, ?_⟩
  constructor
  case tokens_eq => rfl
  case kind_last => rfl
  case lexeme_last => rfl
  case literal_last => rfl
  case length_last => rfl
  case start_last =>
    rw [← byteLength_toList]
    exact UInt32.toNat_ofNat_of_lt' (Nat.lt_trans hbounded (by decide))
  case kind_ne =>
    intro token hmem
    obtain ⟨placed, hplaced, houtcome⟩ := mem_tokensOf.mp hmem
    have hsound := sound_of_mem_placedElements hplaced
    exact (reads_of_outcome hsound houtcome).1.kind_ne_eof hsound
  case token_selects =>
    intro token hmem
    obtain ⟨placed, hplaced, houtcome⟩ := mem_tokensOf.mp hmem
    obtain ⟨hlexeme, -, hspan, -⟩ := Placed.of_outcome_eq_token houtcome
    rw [hlexeme, hspan]
    exact ⟨length_span_ne_zero hbounded hplaced, selects_of_mem_placedElements hbounded hplaced⟩
  case diagnostic_selects =>
    intro diagnostic hmem
    obtain ⟨placed, hplaced, houtcome⟩ := mem_diagnostics.mp hmem
    exact ⟨placed.span, _, (Placed.of_outcome_eq_diagnostic houtcome).1,
      length_span_ne_zero hbounded hplaced, selects_of_mem_placedElements hbounded hplaced⟩
  case tokens_before =>
    rw [map_span_tokensOf]
    exact pairwise_spansOf hbounded _
  case diagnostics_before =>
    rw [filterMap_span_diagnostics]
    exact pairwise_spansOf hbounded _
  case disjoint =>
    rw [map_span_tokensOf, filterMap_span_diagnostics]
    exact pairwise_disjoint_spansOf hbounded
  case gaps =>
    intro start stop hgap
    rw [map_span_tokensOf, filterMap_span_diagnostics] at hgap
    exact IsGap.filled hbounded hgap

theorem scan_tiles_of_comments_and_errors :
    Bounded "/* é */ a@ //\n\"b" ∧
      ∃ found tokens last, scan "/* é */ a@ //\n\"b" = .ok found ∧
        found.Tiles "/* é */ a@ //\n\"b" tokens last :=
  have hbounded : Bounded "/* é */ a@ //\n\"b" := by decide
  ⟨hbounded, scan_tiles hbounded⟩

end LoxLexer
