import LoxLexer.Proofs.Cursor.Encoding

/-!
# Moves of a cursor

In front of a cursor lie the bytes that it has not yet taken (`Faces`).  Each move
that the cursor can make takes a beginning of them: it steps over these bytes
and counts their line feeds (`moved`), and nothing else about the cursor changes.
As the line and the number of bytes in front of the cursor together fit into a
word, no count of line feeds overflows.

A set of moves is sound if those that skip text take the same bytes as a cursor
that looks at each of them (`Moves.Sound`).  The moves that jump are sound.
-/

namespace LoxLexer

theorem Word.add_of_lt {x y : UInt32} (h : x.toNat + y.toNat < UInt32.size) :
    Word.add x y = .ok (x + y) := by
  rw [Word.add, Word.ofNat_of_lt h, UInt32.ofNat_add, UInt32.ofNat_toNat, UInt32.ofNat_toNat]

section

variable {σ : Type} {size : Nat} {position : σ → Nat} {test : σ → Bool}
  {move : σ → Except Mishap σ} {state next : σ}

theorem loop_of_not (htest : test state = false) :
    loop size position test move state = .ok state := by
  rw [loop, htest]
  rfl

theorem loop_of_move (htest : test state = true) (hmove : move state = .ok next)
    (hlt : position state < position next) (hle : position next ≤ size) :
    loop size position test move state = loop size position test move next := by
  rw [loop, if_pos htest, hmove]
  exact if_pos ⟨hlt, hle⟩

end

namespace Cursor

def moved (cursor : Cursor) (bytes : List UInt8) : Cursor :=
  { cursor with
    current := cursor.current + bytes.length
    line := cursor.line + UInt32.ofNat (bytes.count 10) }

/-- The bytes in front of a cursor, all of which could be line feeds without an
overflow of the line. -/
structure Faces (source : String) (cursor : Cursor) (bytes : List UInt8) : Prop where
  drop_eq : (bytesOf source).drop cursor.current = bytes
  current_le : cursor.current ≤ source.utf8ByteSize
  fits : cursor.line.toNat + bytes.length < UInt32.size

variable {source : String} {cursor : Cursor} {byte : UInt8} {bytes more : List UInt8}

@[simp] theorem moved_nil : cursor.moved [] = cursor := by
  simp [moved]

@[simp] theorem moved_moved : (cursor.moved bytes).moved more = cursor.moved (bytes ++ more) := by
  simp only [moved, List.length_append, List.count_append, UInt32.ofNat_add, Nat.add_assoc,
    UInt32.add_assoc]

@[simp] theorem start_moved : (cursor.moved bytes).start = cursor.start := rfl

@[simp] theorem current_moved :
    (cursor.moved bytes).current = cursor.current + bytes.length := rfl

@[simp] theorem tokens_moved : (cursor.moved bytes).tokens = cursor.tokens := rfl

@[simp] theorem diagnostics_moved :
    (cursor.moved bytes).diagnostics = cursor.diagnostics := rfl

theorem moved_of_count_eq_zero (hcount : bytes.count 10 = 0) :
    cursor.moved bytes = { cursor with current := cursor.current + bytes.length } := by
  simp [moved, hcount]

theorem length_bytesOf (source : String) : (bytesOf source).length = source.utf8ByteSize := by
  rw [bytesOf_eq_encode, length_encode, byteLength_toList]

theorem Faces.current_add_length (hfaces : cursor.Faces source bytes) :
    cursor.current + bytes.length = source.utf8ByteSize := by
  have hle := hfaces.current_le
  rw [← hfaces.drop_eq, List.length_drop, length_bytesOf]
  omega

theorem toNat_line_moved (hfits : cursor.line.toNat + bytes.length < UInt32.size) :
    (cursor.moved bytes).line.toNat = cursor.line.toNat + bytes.count 10 := by
  have hcount : bytes.count 10 ≤ bytes.length := List.count_le_length
  have hsize : UInt32.size = 4294967296 := rfl
  have hword : (UInt32.ofNat (bytes.count 10)).toNat = bytes.count 10 :=
    UInt32.toNat_ofNat_of_lt' (by omega)
  simp only [moved]
  rw [UInt32.toNat_add, hword]
  exact Nat.mod_eq_of_lt (by omega)

theorem Faces.moved (hfaces : cursor.Faces source (bytes ++ more)) :
    (cursor.moved bytes).Faces source more := by
  constructor
  case drop_eq =>
    rw [current_moved, ← List.drop_drop, hfaces.drop_eq, List.drop_left]
  case current_le =>
    rw [current_moved, ← hfaces.current_add_length, List.length_append]
    omega
  case fits =>
    have hfits := hfaces.fits
    have hcount : bytes.count 10 ≤ bytes.length := List.count_le_length
    rw [List.length_append] at hfits
    rw [toNat_line_moved (by omega)]
    omega

theorem moved_encode (x y : List Char) :
    (cursor.moved (encode x)).moved (encode y) = cursor.moved (encode (x ++ y)) := by
  rw [moved_moved, encode_append]

theorem Faces.behind {piece rest : List Char}
    (hfaces : cursor.Faces source (encode (piece ++ rest))) :
    (cursor.moved (encode piece)).Faces source (encode rest) := by
  rw [encode_append] at hfaces
  exact hfaces.moved

theorem Faces.behind_head {c : Char} {text : List Char}
    (hfaces : cursor.Faces source (encode (c :: text))) :
    (cursor.moved (encode [c])).Faces source (encode text) := by
  rw [← List.singleton_append] at hfaces
  exact hfaces.behind

theorem Faces.atEnd_iff (hfaces : cursor.Faces source bytes) :
    cursor.atEnd source = true ↔ bytes = [] := by
  have hsum := hfaces.current_add_length
  rw [atEnd, decide_eq_true_iff, ← List.length_eq_zero_iff]
  omega

theorem Faces.peek_eq (hfaces : cursor.Faces source bytes) :
    cursor.peek source = (bytes.head?.map Char.ofUInt8).getD '\x00' := by
  rw [peek, charAt, ← hfaces.drop_eq, List.head?_drop]

/-- Behind one byte, the next one is peeked at. -/
theorem peekNext_eq : cursor.peekNext source = (cursor.moved [byte]).peek source := rfl

/-- A test that no character beyond ASCII passes sees bytes as characters. -/
theorem Faces.test_peek {c : Char} {text : List Char} {test : Char → Bool}
    (hfaces : cursor.Faces source (encode (c :: text)))
    (htest : ∀ c, test c → c.toNat < 128) : test (cursor.peek source) = test c := by
  obtain ⟨byte, high, hbytes, -, -⟩ := exists_encodeChar c
  rw [hfaces.peek_eq, encode_cons, hbytes]
  exact test_ofUInt8 htest hbytes

theorem Faces.peek_eq_iff {text : List Char} {expected : Char}
    (hfaces : cursor.Faces source (encode text)) (hascii : expected.toNat < 128)
    (hnull : expected ≠ '\x00') :
    cursor.peek source = expected ↔ text.head? = some expected := by
  cases text with
  | nil =>
      rw [hfaces.peek_eq]
      simpa using hnull.symm
  | cons c text =>
      have hexpected : ∀ other : Char, decide (other = expected) → other.toNat < 128 := by
        intro other hother
        rw [of_decide_eq_true hother]
        exact hascii
      rw [List.head?_cons, Option.some.injEq]
      simpa using hfaces.test_peek hexpected

/-- Two characters in front of a cursor are seen one by one. -/
theorem Faces.peek_and_peekNext_iff {text : List Char}
    (hfaces : cursor.Faces source (encode text))
    (first : Char) (test : Char → Bool) (hfirst : first.toNat < 128)
    (hnull : first ≠ '\x00') (htest : ∀ c, test c → c.toNat < 128)
    (htestNull : test '\x00' = false) :
    cursor.peek source = first ∧ test (cursor.peekNext source) ↔
      ∃ second rest, text = first :: second :: rest ∧ test second := by
  rw [hfaces.peek_eq_iff hfirst hnull]
  cases text with
  | nil => simp
  | cons c text =>
      rw [List.head?_cons, Option.some.injEq]
      by_cases hc : c = first
      · subst hc
        rw [encode_cons, encodeChar_of_ascii hfirst] at hfaces
        have hnext := hfaces.moved
        rw [peekNext_eq]
        cases text with
        | nil =>
            rw [hnext.peek_eq]
            simp [htestNull]
        | cons second rest =>
            rw [hnext.test_peek htest]
            simp
      · simp [hc]

theorem Faces.advance (hfaces : cursor.Faces source (byte :: bytes)) :
    cursor.advance source = .ok (cursor.moved [byte]) := by
  have hpeek : cursor.peek source = Char.ofUInt8 byte := hfaces.peek_eq
  have hfits := hfaces.fits
  rw [List.length_cons] at hfits
  by_cases hfeed : byte = 10
  · subst hfeed
    have hsum : cursor.line.toNat + (1 : UInt32).toNat < UInt32.size := by
      rw [UInt32.toNat_one]
      omega
    rw [Cursor.advance, hpeek, if_pos (by decide), Word.add_of_lt hsum]
    rfl
  · have hpeek' : Char.ofUInt8 byte ≠ '\n' := by
      intro heq
      apply hfeed
      rw [← UInt8.toNat_inj, ← toNat_ofUInt8, heq]
      rfl
    have hcount : [byte].count 10 = 0 := by
      rw [List.count_eq_zero, List.mem_singleton]
      exact fun h => hfeed h.symm
    rw [Cursor.advance, hpeek, if_neg hpeek', moved_of_count_eq_zero hcount]
    rfl

theorem Faces.advance_ascii {c : Char} {text : List Char}
    (hfaces : cursor.Faces source (encode (c :: text))) (hc : c.toNat < 128) :
    cursor.advance source = .ok (cursor.moved (encode [c])) := by
  rw [encode_cons, encodeChar_of_ascii hc] at hfaces
  rw [hfaces.advance, encode_cons, encodeChar_of_ascii hc]
  rfl

theorem Faces.bytesBetween (hfaces : cursor.Faces source (bytes ++ more)) :
    bytesBetween source cursor.current (cursor.current + bytes.length) = .ok bytes := by
  have hsum := hfaces.current_add_length
  rw [List.length_append] at hsum
  rw [LoxLexer.bytesBetween, if_pos (by omega), hfaces.drop_eq, Nat.add_sub_cancel_left,
    List.take_left]

theorem Faces.advanceTo (hfaces : cursor.Faces source (bytes ++ more)) :
    cursor.advanceTo source (cursor.current + bytes.length) = .ok (cursor.moved bytes) := by
  have hfits := hfaces.fits
  have hcount : bytes.count 10 ≤ bytes.length := List.count_le_length
  have hsize : UInt32.size = 4294967296 := rfl
  rw [List.length_append] at hfits
  have hword : (UInt32.ofNat (bytes.count 10)).toNat = bytes.count 10 :=
    UInt32.toNat_ofNat_of_lt' (by omega)
  have hsum : cursor.line.toNat + (UInt32.ofNat (bytes.count 10)).toNat < UInt32.size := by
    rw [hword]
    omega
  rw [Cursor.advanceTo, hfaces.bytesBetween]
  change (Mishap.lift (Word.add cursor.line (UInt32.ofNat (bytes.count 10))) >>= _) = _
  rw [Word.add_of_lt hsum]
  rfl

theorem Faces.find? (hfaces : cursor.Faces source bytes) :
    cursor.find? source byte =
      .ok ((bytes.findIdx? (· == byte)).map fun index => cursor.current + index) := by
  have hall : cursor.Faces source (bytes ++ []) := by rwa [List.append_nil]
  have hbetween := hall.bytesBetween
  rw [Cursor.find?, ← hfaces.current_add_length, hbetween]
  rfl

theorem Faces.matchChar {c : Char} {text : List Char}
    (hfaces : cursor.Faces source (encode (c :: text))) (hascii : c.toNat < 128)
    (hnull : c ≠ '\x00') :
    cursor.matchChar source c = .ok (true, cursor.moved (encode [c])) := by
  have hpeek := (hfaces.peek_eq_iff hascii hnull).mpr rfl
  have hend : ¬ cursor.atEnd source := by
    rw [hfaces.atEnd_iff, encode_cons]
    simp [String.utf8EncodeChar_ne_nil]
  rw [Cursor.matchChar, if_neg (by simp [hend, hpeek]), hfaces.advance_ascii hascii]
  rfl

theorem Faces.matchChar_of_ne {text : List Char} (hfaces : cursor.Faces source (encode text))
    (expected : Char) (hascii : expected.toNat < 128)
    (hnull : expected ≠ '\x00') (hne : text.head? ≠ some expected) :
    cursor.matchChar source expected = .ok (false, cursor) := by
  have hpeek := (not_congr (hfaces.peek_eq_iff hascii hnull)).mpr hne
  exact if_pos (.inr hpeek)

/-- Bytes are taken as long as the next one passes a test. -/
theorem Faces.loop_advance {test : Cursor → Bool} {passes : UInt8 → Bool}
    (hfaces : cursor.Faces source bytes)
    (hend : ∀ cursor : Cursor, cursor.Faces source [] → test cursor = false)
    (htest : ∀ (cursor : Cursor) (byte : UInt8) (bytes : List UInt8),
      cursor.Faces source (byte :: bytes) → test cursor = passes byte) :
    loop source.utf8ByteSize current test (Cursor.advance source) cursor =
      .ok (cursor.moved (bytes.takeWhile passes)) := by
  induction bytes generalizing cursor with
  | nil => rw [loop_of_not (hend cursor hfaces), List.takeWhile_nil, moved_nil]
  | cons byte bytes ih =>
      have hbyte := htest cursor byte bytes hfaces
      by_cases hpasses : passes byte
      · have hadvance := hfaces.advance
        rw [← List.singleton_append] at hfaces
        rw [loop_of_move (hbyte.trans hpasses) hadvance (Nat.lt_succ_self _)
          hfaces.moved.current_le, ih hfaces.moved, moved_moved,
          List.takeWhile_cons_of_pos hpasses, List.singleton_append]
      · rw [loop_of_not (hbyte.trans (Bool.eq_false_iff.mpr hpasses)),
          List.takeWhile_cons_of_neg hpasses, moved_nil]

/-- A stretch of ASCII characters is skipped whole. -/
theorem Faces.skipWhile {text : List Char} (hfaces : cursor.Faces source (encode text))
    (test : Char → Bool) (htest : ∀ c, test c → c.toNat < 128)
    (hnull : test '\x00' = false) :
    cursor.skipWhile source test = .ok (cursor.moved (encode (text.takeWhile test))) := by
  rw [← takeWhile_encode_of_test htest]
  apply hfaces.loop_advance
  case hend =>
    intro cursor hfaces
    rw [hfaces.peek_eq]
    exact hnull
  case htest =>
    intro cursor byte bytes hfaces
    rw [hfaces.peek_eq]
    rfl

end Cursor

/-- Moves that skip the same bytes as a cursor that looks at each of them. -/
structure Moves.Sound (moves : Moves) : Prop where
  toQuote {source : String} {cursor : Cursor} {text : List Char}
    (hfaces : cursor.Faces source (encode text)) :
    moves.toQuote source cursor =
      .ok (decide ('"' ∈ text), cursor.moved (encode (text.takeWhile (· != '"'))))
  toLineFeed {source : String} {cursor : Cursor} {text : List Char}
    (hfaces : cursor.Faces source (encode text)) :
    moves.toLineFeed source cursor = .ok (cursor.moved (encode (text.takeWhile (· != '\n'))))
  pastCharacter {source : String} {cursor : Cursor} {c : Char} {text : List Char}
    {byte : UInt8} {high : List UInt8} (hfaces : cursor.Faces source (encode (c :: text)))
    (hstart : cursor.start = cursor.current) (hbytes : String.utf8EncodeChar c = byte :: high) :
    moves.pastCharacter source c (cursor.moved [byte]) = .ok (cursor.moved (byte :: high))

theorem Moves.bulk_sound : Moves.bulk.Sound := by
  constructor
  case toQuote =>
    intro source cursor text hfaces
    have hquote : Char.ofUInt8 34 = '"' := rfl
    have hbyte : (34 : UInt8).toNat < 128 := by decide
    by_cases hmem : '"' ∈ text
    · have hfind := findIdx?_encode_of_mem hbyte (hquote ▸ hmem)
      have hsplit : cursor.Faces source
          (encode (text.takeWhile (· != '"')) ++ encode (text.dropWhile (· != '"'))) := by
        rwa [← encode_append, List.takeWhile_append_dropWhile]
      have hadvance := hsplit.advanceTo
      rw [length_encode] at hadvance
      simp only [Moves.bulk, hfaces.find?, hfind, hquote, Option.map_some]
      change (do return (true, ← cursor.advanceTo source _)) = _
      rw [hadvance, decide_eq_true hmem]
      rfl
    · have hfind := findIdx?_encode_of_not_mem hbyte (hquote ▸ hmem)
      have hall : cursor.Faces source (encode text ++ []) := by rwa [List.append_nil]
      have hadvance := hall.advanceTo
      rw [hfaces.current_add_length] at hadvance
      simp only [Moves.bulk, hfaces.find?, hfind, Option.map_none]
      change (do return (false, ← cursor.advanceTo source _)) = _
      rw [hadvance, decide_eq_false hmem, takeWhile_bne_of_not_mem hmem]
      rfl
  case toLineFeed =>
    intro source cursor text hfaces
    have hfeed : Char.ofUInt8 10 = '\n' := rfl
    have hbyte : (10 : UInt8).toNat < 128 := by decide
    have hcount : (encode (text.takeWhile (· != '\n'))).count 10 = 0 := by
      rw [count_lineFeed_encode, lineFeeds, List.count_eq_zero]
      exact not_mem_takeWhile (by decide)
    rw [Cursor.moved_of_count_eq_zero hcount, length_encode]
    by_cases hmem : '\n' ∈ text
    · have hfind := findIdx?_encode_of_mem hbyte (hfeed ▸ hmem)
      simp only [Moves.bulk, hfaces.find?, hfind, hfeed, Option.map_some]
      rfl
    · have hfind := findIdx?_encode_of_not_mem hbyte (hfeed ▸ hmem)
      have hsum := hfaces.current_add_length
      rw [length_encode] at hsum
      simp only [Moves.bulk, hfaces.find?, hfind, Option.map_none]
      rw [takeWhile_bne_of_not_mem hmem, hsum]
      rfl
  case pastCharacter =>
    intro source cursor c text byte high _ hstart hbytes
    have hlength : (byte :: high).length = c.utf8Size := by
      rw [← hbytes, String.length_utf8EncodeChar]
    have hpos := c.utf8Size_pos
    obtain ⟨other, tail, hother, htail, -⟩ := exists_encodeChar c
    rw [hbytes, List.cons.injEq] at hother
    obtain ⟨rfl, rfl⟩ := hother
    have hcount : (byte :: high).count 10 = [byte].count 10 := by
      have hhigh : high.count 10 = 0 := by
        rw [List.count_eq_zero]
        intro hmem
        exact absurd (htail 10 hmem) (by decide)
      rw [← List.singleton_append, List.count_append, hhigh, Nat.add_zero]
    simp only [Moves.bulk, Cursor.moved, hlength, hcount, hstart, Nat.max_eq_left hpos]

end LoxLexer
