import LoxLexer.Proofs.LineTable

/-!
# The line of every offset

A line table is asked about offsets of any kind: at a line feed, right after it, inside a
character, or past the end of the text.  Each time it answers with the line feeds among the
bytes below the offset, and one more (`lineTable_countsLineFeeds`).  The answer therefore grows with
the offset, and it grows exactly where a line feed is passed.

The first entry of the table is zero and the others increase strictly.  So there is just
one place where an offset can be found in it, or where it is missing, and that place is never in
front of the first entry.
-/

namespace LoxLexer

/-- A table of the lines of a source whose answers count line feeds. -/
structure LineTable.CountsLineFeeds (table : LineTable) (source : String) : Prop where
  lineOf_eq : ∀ position, table.lineOf position = 1 + lineFeedsBelow source position.toNat
  lineCount_eq : table.lineCount = 1 + (bytesOf source).count 10
  one_le_lineOf : ∀ position, 1 ≤ table.lineOf position
  lineOf_le_lineCount : ∀ position, table.lineOf position ≤ table.lineCount
  lineCount_lt : table.lineCount < UInt32.size
  lineOf_le_lineOf : ∀ {position further : UInt32}, position ≤ further →
    table.lineOf position ≤ table.lineOf further
  lineOf_lt_lineOf_iff : ∀ {position further : UInt32}, position ≤ further →
    (table.lineOf position < table.lineOf further ↔
      ∃ offset, position.toNat ≤ offset ∧ offset < further.toNat ∧
        (bytesOf source)[offset]? = some 10)
  head_starts : table.starts[0]? = some 0
  increasing : table.starts.toList.Pairwise (· < ·)
  locates_iff : ∀ position (slot : Slot), slot.Locates table.starts position ↔
    slot = Slot.find table.starts position 0 table.starts.size (Nat.le_refl _)
  find_ne_absent_zero : ∀ position,
    Slot.find table.starts position 0 table.starts.size (Nat.le_refl _) ≠ .absent 0

variable {source : String}

theorem lineFeedsBelow_add (source : String) (offset more : Nat) :
    lineFeedsBelow source (offset + more) =
      lineFeedsBelow source offset + (((bytesOf source).drop offset).take more).count 10 := by
  rw [lineFeedsBelow, List.take_add, List.count_append, lineFeedsBelow]

theorem lineFeedsBelow_le (source : String) (offset : Nat) :
    lineFeedsBelow source offset ≤ (bytesOf source).count 10 :=
  (List.take_sublist _ _).count_le 10

theorem lineFeedsBelow_mono {offset further : Nat} (hle : offset ≤ further) :
    lineFeedsBelow source offset ≤ lineFeedsBelow source further :=
  ((List.take_prefix_take_left hle).sublist).count_le 10

theorem lineFeedsBelow_lt_iff {offset further : Nat} (hle : offset ≤ further) :
    lineFeedsBelow source offset < lineFeedsBelow source further ↔
      ∃ feed, offset ≤ feed ∧ feed < further ∧ (bytesOf source)[feed]? = some 10 := by
  obtain ⟨more, rfl⟩ := Nat.exists_eq_add_of_le hle
  rw [lineFeedsBelow_add, Nat.lt_add_right_iff_pos, List.count_pos_iff, List.mem_iff_getElem?]
  constructor
  · rintro ⟨index, hindex⟩
    obtain ⟨hlength, -⟩ := List.getElem?_eq_some_iff.mp hindex
    have hless : index < more := Nat.lt_of_lt_of_le hlength (List.length_take_le _ _)
    have hfeed := hindex
    rw [List.getElem?_take_of_lt hless, List.getElem?_drop] at hfeed
    exact ⟨offset + index, Nat.le_add_right _ _, Nat.add_lt_add_left hless _, hfeed⟩
  · rintro ⟨feed, hfrom, hless, hfeed⟩
    obtain ⟨index, rfl⟩ := Nat.exists_eq_add_of_le hfrom
    refine ⟨index, ?_⟩
    rw [List.getElem?_take_of_lt (Nat.lt_of_add_lt_add_left hless), List.getElem?_drop]
    exact hfeed

theorem index_eq_of_getElem_eq {entries : Array UInt32}
    (hincreasing : entries.toList.Pairwise (· < ·)) {first second : Nat}
    (hfirst : first < entries.size) (hsecond : second < entries.size)
    (hentry : entries[first] = entries[second]) : first = second := by
  rcases Nat.lt_trichotomy first second with hless | hsame | hless
  · exact absurd hentry (UInt32.ne_of_lt (getElem_lt_getElem hincreasing hsecond hless))
  · exact hsame
  · exact absurd hentry.symm (UInt32.ne_of_lt (getElem_lt_getElem hincreasing hfirst hless))

namespace Brackets

variable {entries : Array UInt32} {position : UInt32} {low high : Nat}

/-- A position that is inserted between two entries is none of the entries. -/
theorem getElem_ne (hbrackets : Brackets entries position low low) {index : Nat}
    (hindex : index < entries.size) : entries[index] ≠ position := by
  rcases Nat.lt_or_ge index low with hless | hle
  · exact UInt32.ne_of_lt (hbrackets.below index hindex hless)
  · exact (UInt32.ne_of_lt (hbrackets.above index hindex hle)).symm

theorem low_le (hbrackets : Brackets entries position low low)
    (hother : Brackets entries position high high) (hsize : low ≤ entries.size) : low ≤ high := by
  by_contra hless
  have hindex : high < entries.size := by omega
  have hbelow := hbrackets.below high hindex (Nat.lt_of_not_le hless)
  exact UInt32.lt_asymm hbelow (hother.above high hindex (Nat.le_refl high))

end Brackets

theorem Slot.Locates.unique {entries : Array UInt32}
    (hincreasing : entries.toList.Pairwise (· < ·)) {position : UInt32} {slot other : Slot}
    (hslot : slot.Locates entries position) (hother : other.Locates entries position) :
    slot = other := by
  cases slot with
  | present index =>
      obtain ⟨hindex, hentry⟩ := hslot
      cases other with
      | present second =>
          obtain ⟨hsecond, hsame⟩ := hother
          rw [index_eq_of_getElem_eq hincreasing hindex hsecond (hentry.trans hsame.symm)]
      | absent second => exact absurd hentry (hother.2.getElem_ne hindex)
  | absent index =>
      obtain ⟨hsize, hbrackets⟩ := hslot
      cases other with
      | present second =>
          obtain ⟨hsecond, hsame⟩ := hother
          exact absurd hsame (hbrackets.getElem_ne hsecond)
      | absent second =>
          obtain ⟨hsizeOther, hbracketsOther⟩ := hother
          rw [Nat.le_antisymm (hbrackets.low_le hbracketsOther hsize)
            (hbracketsOther.low_le hbrackets hsizeOther)]

/-- Where the first entry is zero, nothing is inserted in front of it. -/
theorem Slot.Locates.ne_absent_zero {entries : Array UInt32} {position : UInt32} {slot : Slot}
    (hhead : entries[0]? = some 0) (hslot : slot.Locates entries position) :
    slot ≠ .absent 0 := by
  rintro rfl
  obtain ⟨hindex, hzero⟩ := Array.getElem?_eq_some_iff.mp hhead
  have hless := hslot.2.above 0 hindex (Nat.le_refl 0)
  rw [hzero] at hless
  exact UInt32.not_lt_zero hless

namespace LineTable

theorem lineCount_eq (source : String) :
    (ofText source).lineCount = 1 + (bytesOf source).count 10 := by
  rw [lineCount_ofText, bytesOf_eq_encode, count_lineFeed_encode]

theorem lineCount_lt (hbounded : Bounded source) : (ofText source).lineCount < UInt32.size := by
  have hfeeds := lineFeeds_le_byteLength source.toList
  have hsize : UInt32.size = 4294967296 := rfl
  unfold Bounded at hbounded
  rw [lineCount_ofText]
  omega

end LineTable

/-- The line table of a bounded source counts the line feeds below each offset. -/
theorem lineTable_countsLineFeeds (hbounded : Bounded source) :
    (LineTable.ofText source).CountsLineFeeds source := by
  have hlineOf := LineTable.lineOf_eq hbounded
  have hlocates := LineTable.locates_find (LineTable.pairwise_starts hbounded)
  constructor
  case lineOf_eq => exact hlineOf
  case lineCount_eq => exact LineTable.lineCount_eq source
  case one_le_lineOf =>
    intro position
    rw [hlineOf]
    exact Nat.le_add_right 1 _
  case lineOf_le_lineCount =>
    intro position
    rw [hlineOf, LineTable.lineCount_eq]
    exact Nat.add_le_add_left (lineFeedsBelow_le source _) 1
  case lineCount_lt => exact LineTable.lineCount_lt hbounded
  case lineOf_le_lineOf =>
    intro position further hle
    rw [hlineOf, hlineOf]
    exact Nat.add_le_add_left (lineFeedsBelow_mono (UInt32.le_iff_toNat_le.mp hle)) 1
  case lineOf_lt_lineOf_iff =>
    intro position further hle
    rw [hlineOf, hlineOf, Nat.add_lt_add_iff_left]
    exact lineFeedsBelow_lt_iff (UInt32.le_iff_toNat_le.mp hle)
  case head_starts => rfl
  case increasing => exact LineTable.pairwise_starts hbounded
  case locates_iff =>
    intro position slot
    constructor
    · exact fun hslot => hslot.unique (LineTable.pairwise_starts hbounded) (hlocates position)
    · rintro rfl
      exact hlocates position
  case find_ne_absent_zero => exact fun position => (hlocates position).ne_absent_zero rfl

theorem lineTable_countsLineFeeds_of_wide_characters :
    Bounded "\na\r\né\n\n" ∧ (LineTable.ofText "\na\r\né\n\n").CountsLineFeeds "\na\r\né\n\n" :=
  have hbounded : Bounded "\na\r\né\n\n" := by decide
  ⟨hbounded, lineTable_countsLineFeeds hbounded⟩

end LoxLexer
