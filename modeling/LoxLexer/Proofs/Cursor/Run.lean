import LoxLexer.Proofs.Cursor.Turn

/-!
# Runs of a cursor

A cursor that stands between two characters takes the elements of the text in front
of it, one in each turn.  A whole run therefore finds what the elements come to in their
places: with sound moves, the scan by a cursor is the scan by elements
(`scan_eq_boundedScan`).
-/

namespace LoxLexer

theorem Cut.text_first_ne_nil (c : Char) (text : List Char) :
    (Cut.first c text).element.text ≠ [] := by
  intro hnil
  have htext := Cut.text_append_rest c text
  have hrest := Cut.length_rest_le c text
  rw [hnil, List.nil_append] at htext
  rw [htext, List.length_cons] at hrest
  omega

namespace Cursor

/-- A cursor that stands between the text `before` and the text `after`. -/
def Stands (source : String) (cursor : Cursor) (before after : List Char) : Prop :=
  { cursor with start := cursor.current }.Begins source before after

variable {source : String} {cursor : Cursor} {moves : Moves} {before after text : List Char}
  {c : Char}

theorem stands_initial (hbounded : Bounded source) :
    Stands source initial [] source.toList := by
  constructor
  case toList_eq => rfl
  case start_eq => rfl
  case current_eq => rfl
  case fits =>
    have hsize : UInt32.size = 4294967296 := rfl
    have hone : (1 : UInt32).toNat = 1 := rfl
    unfold Bounded at hbounded
    simp only [initial, hone]
    omega

theorem Stands.faces (hstands : cursor.Stands source before after) :
    cursor.Faces source (encode after) :=
  have hfaces := Begins.faces hstands
  ⟨hfaces.drop_eq, hfaces.current_le, hfaces.fits⟩

theorem Stands.behind {element : Element}
    (hstands : cursor.Stands source before (element.text ++ after)) :
    (cursor.behind element).Stands source (before ++ element.text) after := by
  have hfaces := hstands.faces.behind
  have hcurrent : cursor.current = byteLength before := hstands.current_eq
  constructor
  case toList_eq => rw [hstands.toList_eq, List.append_assoc]
  case start_eq => rfl
  case current_eq =>
    rw [byteLength_append, ← hcurrent]
    exact current_behind cursor element
  case fits =>
    rw [← length_encode]
    exact hfaces.fits

/-- A turn takes the first element of the text in front of the cursor. -/
theorem Stands.turn (hmoves : moves.Sound) (hstands : cursor.Stands source before (c :: text)) :
    cursor.turn moves source = .ok (cursor.behind (Cut.first c text).element) :=
  Begins.scanToken hmoves hstands

theorem Stands.behind_first (hstands : cursor.Stands source before (c :: text)) :
    (cursor.behind (Cut.first c text).element).Stands source
      (before ++ (Cut.first c text).element.text) (Cut.first c text).rest := by
  apply Stands.behind
  rw [Cut.text_append_rest]
  exact hstands

theorem current_lt_current_behind (cursor : Cursor) {element : Element}
    (htext : element.text ≠ []) :
    cursor.current < (cursor.behind element).current := by
  rw [current_behind]
  exact Nat.lt_add_of_pos_right (byteLength_pos htext)

/-- All turns together take the elements of the text in front of the cursor, in
order. -/
theorem Stands.loop_eq (hmoves : moves.Sound) (hstands : cursor.Stands source before after) :
    loop source.utf8ByteSize current (fun cursor => !cursor.atEnd source)
        (Cursor.turn moves source) cursor =
      .ok ((elements after).foldl Cursor.behind cursor) := by
  -- What lies in front of the cursor gets shorter by one element in each turn.
  induction hlength : after.length using Nat.strongRecOn generalizing cursor before after with
  | ind length ih =>
      cases after with
      | nil =>
          rw [elements_nil, List.foldl_nil]
          apply loop_of_not
          rw [Bool.not_eq_false', hstands.faces.atEnd_iff, encode_nil]
      | cons c text =>
          have hrest := Cut.length_rest_le c text
          have hlt : (Cut.first c text).rest.length < length := by
            simp only [List.length_cons] at hlength
            omega
          have hnext := hstands.behind_first
          have hadvance := current_lt_current_behind cursor (Cut.text_first_ne_nil c text)
          rw [loop_of_move ?_ (hstands.turn hmoves) hadvance hnext.faces.current_le,
            ih _ hlt hnext rfl, elements_cons, List.foldl_cons]
          rw [Bool.not_eq_true', Bool.eq_false_iff, ne_eq, hstands.faces.atEnd_iff, encode_cons]
          simp [String.utf8EncodeChar_ne_nil]

theorem foldl_behind (cursor : Cursor) (row : List Element)
    (hfits : cursor.line.toNat + byteLength (row.flatMap Element.text) < UInt32.size) :
    (row.foldl Cursor.behind cursor).line.toNat =
        cursor.line.toNat + lineFeeds (row.flatMap Element.text) ∧
      (row.foldl Cursor.behind cursor).tokens = cursor.tokens ++
        ((LoxLexer.place cursor.current cursor.line.toNat row).map
          Placed.outcome).filterMap Finding.token? ∧
      (row.foldl Cursor.behind cursor).diagnostics = cursor.diagnostics ++
        ((LoxLexer.place cursor.current cursor.line.toNat row).map
          Placed.outcome).filterMap Finding.diagnostic? := by
  induction row generalizing cursor with
  | nil => simp
  | cons element row ih =>
      rw [List.flatMap_cons, byteLength_append] at hfits
      have hline : (cursor.behind element).line.toNat =
          cursor.line.toNat + lineFeeds element.text := toNat_line_behind (by omega)
      have hfeeds := lineFeeds_le_byteLength element.text
      obtain ⟨hlast, htokens, hdiagnostics⟩ := ih (cursor.behind element) (by omega)
      rw [hline, current_behind] at htokens hdiagnostics
      rw [List.foldl_cons, place_cons, List.map_cons]
      refine ⟨?_, ?_, ?_⟩
      · rw [hlast, hline, List.flatMap_cons, lineFeeds_append, Nat.add_assoc]
      · rw [htokens, tokens_behind, List.append_assoc, filterMap_cons_eq]
        rfl
      · rw [hdiagnostics, diagnostics_behind, List.append_assoc, filterMap_cons_eq]
        rfl

/-- With sound moves, a cursor finds in a bounded source what the elements of the
source come to. -/
theorem scan_eq_boundedScan (hmoves : moves.Sound) (hbounded : Bounded source) :
    Cursor.scan moves source = .ok (boundedScan source) := by
  have hloop := (stands_initial hbounded).loop_eq hmoves
  have hrow := flatMap_text_elements source.toList
  have hfits : initial.line.toNat + byteLength ((elements source.toList).flatMap Element.text) <
      UInt32.size := by
    rw [hrow]
    exact (stands_initial hbounded).fits
  obtain ⟨hlast, htokens, hdiagnostics⟩ := foldl_behind initial (elements source.toList) hfits
  rw [hrow] at hlast
  have hline : ((elements source.toList).foldl Cursor.behind initial).line =
      UInt32.ofNat (1 + lineFeeds source.toList) := by
    have hone : initial.line.toNat = 1 := rfl
    rw [hone] at hlast
    rw [← hlast, UInt32.ofNat_toNat]
  have hclamp : Span.clamp source.utf8ByteSize = UInt32.ofNat (byteLength source.toList) := by
    unfold Bounded at hbounded
    rw [Span.clamp, ← byteLength_toList, Nat.min_eq_left (by unfold Span.greatestOffset; omega)]
  rw [Cursor.scan, bind_of_eq_ok hloop]
  simp only [hline, hclamp, htokens, hdiagnostics]
  rfl

end Cursor

end LoxLexer
