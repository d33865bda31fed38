import LoxLexer.Proofs.Placing

/-!
# Rows of elements in other places

What a row of elements comes to depends on its place in one way only: the lines and
the spans move with it (`forall₂_foundTokens`, `forall₂_foundDiagnostics`).  Where a
row is put together from others, each part is found in the place behind the part in
front of it.
-/

namespace LoxLexer

/-- The tokens among a row of elements that begins at an offset and on a line. -/
def foundTokens (offset line : Nat) (row : List Element) : List Token :=
  ((place offset line row).map Placed.outcome).filterMap Finding.token?

def foundDiagnostics (offset line : Nat) (row : List Element) : List Diagnostic :=
  ((place offset line row).map Placed.outcome).filterMap Finding.diagnostic?

theorem boundedScan_eq (source : String) :
    boundedScan source =
      { tokens := foundTokens 0 1 (elements source.toList) ++ [endOf source]
        diagnostics := foundDiagnostics 0 1 (elements source.toList) } := rfl

theorem foundTokens_cons (offset line : Nat) (element : Element) (row : List Element) :
    foundTokens offset line (element :: row) =
      (Placed.outcome ⟨element, offset, line⟩).token?.toList ++
        foundTokens (offset + byteLength element.text) (line + lineFeeds element.text) row := by
  rw [foundTokens, place_cons, List.map_cons, filterMap_cons_eq]
  rfl

theorem foundDiagnostics_cons (offset line : Nat) (element : Element) (row : List Element) :
    foundDiagnostics offset line (element :: row) =
      (Placed.outcome ⟨element, offset, line⟩).diagnostic?.toList ++
        foundDiagnostics (offset + byteLength element.text) (line + lineFeeds element.text)
          row := by
  rw [foundDiagnostics, place_cons, List.map_cons, filterMap_cons_eq]
  rfl

theorem foundTokens_append (offset line : Nat) (before after : List Element) :
    foundTokens offset line (before ++ after) =
      foundTokens offset line before ++
        foundTokens (offset + byteLength (before.flatMap Element.text))
          (line + lineFeeds (before.flatMap Element.text)) after := by
  simp only [foundTokens, place_append, List.map_append, List.filterMap_append]

theorem foundDiagnostics_append (offset line : Nat) (before after : List Element) :
    foundDiagnostics offset line (before ++ after) =
      foundDiagnostics offset line before ++
        foundDiagnostics (offset + byteLength (before.flatMap Element.text))
          (line + lineFeeds (before.flatMap Element.text)) after := by
  simp only [foundDiagnostics, place_append, List.map_append, List.filterMap_append]

structure Span.MovedBy (bytes : Nat) (span moved : Span) : Prop where
  start_eq : moved.start.toNat = span.start.toNat + bytes
  length_eq : moved.length = span.length

/-- The same token, some lines and bytes further on. -/
structure Token.MovedBy (lines bytes : Nat) (token moved : Token) : Prop where
  kind_eq : moved.kind = token.kind
  lexeme_eq : moved.lexeme = token.lexeme
  literal_eq : moved.literal = token.literal
  line_eq : moved.line.toNat = token.line.toNat + lines
  span_moved : token.span.MovedBy bytes moved.span

structure Diagnostic.MovedBy (lines bytes : Nat) (diagnostic moved : Diagnostic) : Prop where
  text_eq : moved.text = diagnostic.text
  code_eq : moved.code = diagnostic.code
  category_eq : moved.category = diagnostic.category
  line_eq : moved.line.toNat = diagnostic.line.toNat + lines
  span_moved : Option.Rel (Span.MovedBy bytes) diagnostic.span moved.span

namespace Placed

def move (lines bytes : Nat) (placed : Placed) : Placed :=
  ⟨placed.element, placed.start + bytes, placed.line + lines⟩

/-- Whether words can hold the offsets and the lines of an element. -/
structure Fits (placed : Placed) : Prop where
  stop_le : placed.stop ≤ Span.greatestOffset
  lastLine_lt : placed.lastLine < UInt32.size

theorem stop_move (placed : Placed) (lines bytes : Nat) :
    (placed.move lines bytes).stop = placed.stop + bytes := by
  simp only [move, stop]
  omega

theorem lastLine_move (placed : Placed) (lines bytes : Nat) :
    (placed.move lines bytes).lastLine = placed.lastLine + lines := by
  simp only [move, lastLine]
  omega

variable {placed : Placed} {lines bytes : Nat}

theorem Fits.of_move (hfits : (placed.move lines bytes).Fits) : placed.Fits := by
  have hstop := hfits.stop_le
  have hline := hfits.lastLine_lt
  rw [stop_move] at hstop
  rw [lastLine_move] at hline
  exact ⟨by omega, by omega⟩

theorem Fits.span_move (hfits : (placed.move lines bytes).Fits) :
    placed.span.MovedBy bytes (placed.move lines bytes).span := by
  constructor
  case start_eq =>
    rw [toNat_start_span hfits.stop_le, toNat_start_span hfits.of_move.stop_le]
    rfl
  case length_eq =>
    apply UInt32.toNat_inj.mp
    rw [toNat_length_span hfits.stop_le, toNat_length_span hfits.of_move.stop_le]
    rfl

theorem Fits.line_move (hfits : (placed.move lines bytes).Fits) :
    (UInt32.ofNat (placed.move lines bytes).line).toNat =
      (UInt32.ofNat placed.line).toNat + lines := by
  have hle := (placed.move lines bytes).line_le_lastLine
  have hlast := hfits.lastLine_lt
  have hline : (placed.move lines bytes).line = placed.line + lines := rfl
  rw [UInt32.toNat_ofNat_of_lt' (by omega), UInt32.toNat_ofNat_of_lt' (by omega), hline]

theorem Fits.lastLine_move (hfits : (placed.move lines bytes).Fits) :
    (UInt32.ofNat (placed.move lines bytes).lastLine).toNat =
      (UInt32.ofNat placed.lastLine).toNat + lines := by
  have hlast := hfits.lastLine_lt
  have hline := placed.lastLine_move lines bytes
  rw [UInt32.toNat_ofNat_of_lt' (by omega), UInt32.toNat_ofNat_of_lt' (by omega), hline]

theorem Fits.token_move (hfits : (placed.move lines bytes).Fits) :
    Option.Rel (Token.MovedBy lines bytes) placed.outcome.token?
      (placed.move lines bytes).outcome.token? := by
  have hspan := hfits.span_move
  have hline := hfits.line_move
  obtain ⟨⟨form, text⟩, start, line⟩ := placed
  cases form with
  | blank | lineComment | blockComment | openComment | openString | stray => exact .none
  | string | number | word | symbol => exact .some ⟨rfl, rfl, rfl, hline, hspan⟩

theorem Fits.diagnostic_move (hfits : (placed.move lines bytes).Fits) :
    Option.Rel (Diagnostic.MovedBy lines bytes) placed.outcome.diagnostic?
      (placed.move lines bytes).outcome.diagnostic? := by
  have hspan := hfits.span_move
  have hline := hfits.line_move
  have hlastLine := hfits.lastLine_move
  obtain ⟨⟨form, text⟩, start, line⟩ := placed
  cases form with
  | openString => exact .some ⟨rfl, rfl, rfl, hlastLine, .some hspan⟩
  | stray => exact .some ⟨rfl, rfl, rfl, hline, .some hspan⟩
  | _ => exact .none

end Placed

theorem place_move (lines bytes offset line : Nat) (row : List Element) :
    place (offset + bytes) (line + lines) row =
      (place offset line row).map (Placed.move lines bytes) := by
  induction row generalizing offset line with
  | nil => rfl
  | cons element row ih =>
      rw [place_cons, place_cons, List.map_cons, ← ih, Nat.add_right_comm,
        Nat.add_right_comm line]
      rfl

theorem fits_of_mem_place {offset line : Nat} {row : List Element}
    (hoffset : offset + byteLength (row.flatMap Element.text) ≤ Span.greatestOffset)
    (hline : line + lineFeeds (row.flatMap Element.text) < UInt32.size)
    {placed : Placed} (hmem : placed ∈ place offset line row) : placed.Fits := by
  have hplace := mem_place hmem
  exact ⟨by omega, by omega⟩

section Row

variable {lines bytes offset line : Nat} {row : List Element}
  (hoffset : offset + bytes + byteLength (row.flatMap Element.text) ≤ Span.greatestOffset)
  (hline : line + lines + lineFeeds (row.flatMap Element.text) < UInt32.size)

include hoffset hline

theorem forall₂_place_move :
    List.Forall₂ (fun placed moved => moved = placed.move lines bytes ∧ moved.Fits)
      (place offset line row) (place (offset + bytes) (line + lines) row) := by
  have hfits : ∀ placed ∈ place (offset + bytes) (line + lines) row, placed.Fits :=
    fun placed => fits_of_mem_place hoffset hline
  rw [place_move] at hfits ⊢
  rw [List.forall₂_map_right_iff, List.forall₂_same]
  exact fun placed hmem => ⟨rfl, hfits _ (List.mem_map_of_mem hmem)⟩

theorem forall₂_foundTokens :
    List.Forall₂ (Token.MovedBy lines bytes) (foundTokens offset line row)
      (foundTokens (offset + bytes) (line + lines) row) := by
  rw [foundTokens, foundTokens, List.filterMap_map, List.filterMap_map]
  refine List.rel_filterMap ?_ (forall₂_place_move hoffset hline)
  rintro placed moved ⟨rfl, hfits⟩
  exact hfits.token_move

theorem forall₂_foundDiagnostics :
    List.Forall₂ (Diagnostic.MovedBy lines bytes) (foundDiagnostics offset line row)
      (foundDiagnostics (offset + bytes) (line + lines) row) := by
  rw [foundDiagnostics, foundDiagnostics, List.filterMap_map, List.filterMap_map]
  refine List.rel_filterMap ?_ (forall₂_place_move hoffset hline)
  rintro placed moved ⟨rfl, hfits⟩
  exact hfits.diagnostic_move

end Row

end LoxLexer
