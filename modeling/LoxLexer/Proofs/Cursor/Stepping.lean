import LoxLexer.Proofs.Cursor.Safety

/-!
# A cursor that takes every byte by itself

The moves that jump search for the end of the text that they skip, and count its line feeds
at once or not at all.  `Moves.single` does without any search: it takes one byte after
another, counts each line feed as it comes by, and stops where the next byte is the one it waits
for.  What it sees behind the end is a zero, which the text may hold as well, so it asks for the
end apart.

These moves are sound too (`Moves.single_sound`).  Sound moves leave a cursor in the same
state after every turn (`Reached.of_sound`), so both scans stop at the same bytes on the same
lines, and find the same.
-/

namespace LoxLexer

namespace Cursor

variable (source : String)

/-- Takes bytes until the next one is the awaited character, or until the end. -/
def advanceUntil (awaited : Char) (cursor : Cursor) : Except Mishap Cursor :=
  loop source.utf8ByteSize current
    (fun cursor => decide (cursor.peek source ≠ awaited) && !cursor.atEnd source)
    (advance source) cursor

def advanceTimes : Nat → Cursor → Except Mishap Cursor
  | 0, cursor => .ok cursor
  | times + 1, cursor => do
    let cursor ← cursor.advance source
    advanceTimes times cursor

end Cursor

/-- The moves that take bytes one by one. -/
def Moves.single : Moves where
  toQuote source cursor := do
    let cursor ← cursor.advanceUntil source '"'
    return (!cursor.atEnd source, cursor)
  toLineFeed source cursor := cursor.advanceUntil source '\n'
  pastCharacter source c cursor := cursor.advanceTimes source (c.utf8Size - 1)

variable {source : String}

namespace Cursor

variable {cursor : Cursor} {byte : UInt8} {bytes more : List UInt8} {text : List Char}

theorem Faces.advanceUntil (hfaces : cursor.Faces source bytes) (byte : UInt8) :
    cursor.advanceUntil source (Char.ofUInt8 byte) =
      .ok (cursor.moved (bytes.takeWhile (· != byte))) := by
  apply hfaces.loop_advance
  case hend =>
    intro cursor hfaces
    rw [hfaces.atEnd_iff.mpr rfl]
    exact Bool.and_false _
  case htest =>
    intro cursor first bytes hfaces
    have hend : cursor.atEnd source = false := by
      rw [Bool.eq_false_iff, ne_eq, hfaces.atEnd_iff]
      exact List.cons_ne_nil _ _
    have hpeek : cursor.peek source = Char.ofUInt8 first := hfaces.peek_eq
    have hsame : Char.ofUInt8 first = Char.ofUInt8 byte ↔ first = byte := by
      rw [← UInt8.toNat_inj, ← toNat_ofUInt8, ← toNat_ofUInt8, Char.toNat_inj]
    rw [hpeek, hend, Bool.not_false, Bool.and_true, Bool.eq_iff_iff, decide_eq_true_eq,
      bne_iff_ne, ne_eq, ne_eq, hsame]

theorem Faces.advanceTimes (hfaces : cursor.Faces source (bytes ++ more)) :
    cursor.advanceTimes source bytes.length = .ok (cursor.moved bytes) := by
  induction bytes generalizing cursor with
  | nil => rw [moved_nil]; rfl
  | cons first bytes ih =>
      have hadvance : cursor.advance source = .ok (cursor.moved [first]) := Faces.advance hfaces
      rw [List.cons_append, ← List.singleton_append] at hfaces
      rw [List.length_cons, Cursor.advanceTimes, bind_of_eq_ok hadvance, ih hfaces.moved,
        moved_moved, List.singleton_append]

end Cursor

theorem Moves.single_sound : Moves.single.Sound := by
  constructor
  case toQuote =>
    intro source cursor text hfaces
    have hquote : Char.ofUInt8 34 = '"' := rfl
    have huntil := hfaces.advanceUntil 34
    rw [takeWhile_bne_encode (by decide), hquote] at huntil
    have hsplit : cursor.Faces source
        (encode (text.takeWhile (· != '"') ++ text.dropWhile (· != '"'))) := by
      rwa [List.takeWhile_append_dropWhile]
    have hend : (cursor.moved (encode (text.takeWhile (· != '"')))).atEnd source =
        !decide ('"' ∈ text) := by
      rw [Bool.eq_iff_iff, hsplit.behind.atEnd_iff, encode_eq_nil_iff, Bool.not_eq_true',
        decide_eq_false_iff_not]
      exact ⟨not_mem_of_dropWhile_bne, dropWhile_bne_of_not_mem⟩
    simp only [Moves.single]
    rw [bind_of_eq_ok huntil, hend, Bool.not_not]
    rfl
  case toLineFeed =>
    intro source cursor text hfaces
    have huntil := hfaces.advanceUntil 10
    rwa [takeWhile_bne_encode (by decide)] at huntil
  case pastCharacter =>
    intro source cursor c text byte high hfaces _ hbytes
    rw [encode_cons, hbytes, List.cons_append, ← List.singleton_append] at hfaces
    have hlength : high.length = c.utf8Size - 1 := by
      rw [← String.length_utf8EncodeChar, hbytes]
      rfl
    have htimes := hfaces.moved.advanceTimes
    rwa [hlength, Cursor.moved_moved] at htimes

namespace Cursor

variable {moves other : Moves} {cursor : Cursor}

/-- Between two turns a cursor takes the same turn with all sound moves. -/
theorem Reached.turn_eq (hmoves : moves.Sound) (hother : other.Sound) (hbounded : Bounded source)
    (hreached : Reached moves source cursor) (hend : ¬ cursor.atEnd source) :
    cursor.turn moves source = cursor.turn other source := by
  obtain ⟨before, after, hstands⟩ := hreached.exists_stands hmoves hbounded
  cases after with
  | nil => exact absurd (hstands.faces.atEnd_iff.mpr rfl) hend
  | cons c text => rw [hstands.turn hmoves, hstands.turn hother]

theorem Reached.of_sound (hmoves : moves.Sound) (hother : other.Sound) (hbounded : Bounded source)
    (hreached : Reached moves source cursor) : Reached other source cursor := by
  induction hreached with
  | initial => exact .initial
  | turn hreached hend hturn ih =>
      rw [hreached.turn_eq hmoves hother hbounded hend] at hturn
      exact .turn ih hend hturn

/-- Two scans of a source that are in the same state after every turn, and find the same. -/
structure RunAlike (moves other : Moves) (source : String) (found : Scan) : Prop where
  scan_eq : Cursor.scan moves source = .ok found
  scan_other_eq : Cursor.scan other source = .ok found
  reached_iff : ∀ cursor, Reached moves source cursor ↔ Reached other source cursor
  turn_eq : ∀ cursor, Reached moves source cursor → ¬ cursor.atEnd source →
    cursor.turn moves source = cursor.turn other source

end Cursor

/-- In a bounded source the cursor that jumps and the cursor that takes every byte by itself run
alike, and both find what the scan by elements finds.  The line that they end on is that of the
last token. -/
theorem cursor_scan_byteByByte (hbounded : Bounded source) :
    ∃ found, Cursor.RunAlike .bulk .single source found ∧ scan source = .ok found := by
  refine ⟨boundedScan source, ?_, scan_of_bounded hbounded⟩
  have hbulk := Moves.bulk_sound
  have hsingle := Moves.single_sound
  constructor
  case scan_eq => exact Cursor.scan_eq_boundedScan hbulk hbounded
  case scan_other_eq => exact Cursor.scan_eq_boundedScan hsingle hbounded
  case reached_iff =>
    exact fun cursor => ⟨fun hreached => hreached.of_sound hbulk hsingle hbounded,
      fun hreached => hreached.of_sound hsingle hbulk hbounded⟩
  case turn_eq => exact fun cursor hreached => hreached.turn_eq hbulk hsingle hbounded

theorem cursor_scan_byteByByte_of_zeros :
    Bounded "\"\x00\né\" //\x00é\n\x00€ \"\n" ∧
      ∃ found, Cursor.RunAlike .bulk .single "\"\x00\né\" //\x00é\n\x00€ \"\n" found ∧
        scan "\"\x00\né\" //\x00é\n\x00€ \"\n" = .ok found :=
  have hbounded : Bounded "\"\x00\né\" //\x00é\n\x00€ \"\n" := by decide
  ⟨hbounded, cursor_scan_byteByByte hbounded⟩

end LoxLexer
