import LoxLexer.Text.LineTable
import LoxLexer.Proofs.Cursor.Encoding
import Mathlib.Data.List.Pairwise

/-!
# What a line table answers

A line table increases strictly, so halving finds the one place of a position
in it: the line of a position is the number of lines that start at or before it
(`LineTable.lineOf_eq_countP`).  A table has one line more than the text has line
feeds, and the line of an offset between two characters counts the line feeds
in front of it (`LineTable.lineOf_byteLength`).
-/

namespace LoxLexer

/-- The entries below `low` are smaller than a position, and those from `high` on
are greater. -/
structure Brackets (entries : Array UInt32) (position : UInt32) (low high : Nat) : Prop where
  below : ∀ index (hindex : index < entries.size), index < low → entries[index] < position
  above : ∀ index (hindex : index < entries.size), high ≤ index → position < entries[index]

/-- A slot is where a position stands in a table. -/
def Slot.Locates (entries : Array UInt32) (position : UInt32) : Slot → Prop
  | .present index => ∃ hindex : index < entries.size, entries[index] = position
  | .absent index => index ≤ entries.size ∧ Brackets entries position index index

theorem getElem_lt_getElem {entries : Array UInt32}
    (hincreasing : entries.toList.Pairwise (· < ·)) {i j : Nat} (hj : j < entries.size)
    (hij : i < j) : entries[i] < entries[j] := by
  have hlist := List.pairwise_iff_getElem.mp hincreasing i j
    (by simpa using Nat.lt_trans hij hj) (by simpa using hj) hij
  rwa [Array.getElem_toList, Array.getElem_toList] at hlist

theorem Slot.locates_find {entries : Array UInt32} {position : UInt32}
    (hincreasing : entries.toList.Pairwise (· < ·)) (low high : Nat) (hhigh : high ≤ entries.size)
    (hlow : low ≤ high) (hbrackets : Brackets entries position low high) :
    (Slot.find entries position low high hhigh).Locates entries position := by
  fun_induction Slot.find entries position low high hhigh with
  | case1 low high hhigh hinside middle hmiddle entry hentry =>
      exact ⟨Nat.lt_of_lt_of_le hmiddle hhigh, hentry⟩
  | case2 low high hhigh hinside middle hmiddle entry hentry hsmaller ih =>
      refine ih (by omega) ⟨?_, hbrackets.above⟩
      intro index hindex hbelow
      rcases Nat.lt_succ_iff_lt_or_eq.mp hbelow with hless | rfl
      · exact UInt32.lt_trans
          (getElem_lt_getElem hincreasing (Nat.lt_of_lt_of_le hmiddle hhigh) hless) hsmaller
      · exact hsmaller
  | case3 low high hhigh hinside middle hmiddle entry hentry hsmaller ih =>
      have hgreater : position < entry :=
        UInt32.lt_of_le_of_ne (UInt32.not_lt.mp hsmaller) fun heq => hentry heq.symm
      refine ih (by omega) ⟨hbrackets.below, ?_⟩
      intro index hindex habove
      rcases Nat.eq_or_lt_of_le habove with rfl | hless
      · exact hgreater
      · exact UInt32.lt_trans hgreater (getElem_lt_getElem hincreasing hindex hless)
  | case4 low high hhigh hinside =>
      have heq : low = high := by omega
      subst heq
      exact ⟨hhigh, hbrackets⟩

theorem countP_eq_of_bracket {list : List UInt32} {position : UInt32} {index : Nat}
    (hindex : index ≤ list.length)
    (hbelow : ∀ i (hi : i < list.length), i < index → list[i] ≤ position)
    (habove : ∀ i (hi : i < list.length), index ≤ i → position < list[i]) :
    list.countP (· ≤ position) = index := by
  have htake : (list.take index).countP (· ≤ position) = (list.take index).length := by
    rw [List.countP_eq_length]
    intro entry hmem
    obtain ⟨i, hi, rfl⟩ := List.mem_take_iff_getElem.mp hmem
    exact decide_eq_true (hbelow i (by omega) (by omega))
  have hdrop : (list.drop index).countP (· ≤ position) = 0 := by
    rw [List.countP_eq_zero]
    intro entry hmem
    obtain ⟨i, hi, rfl⟩ := List.mem_drop_iff_getElem.mp hmem
    have hentry := habove (index + i) (by omega) (Nat.le_add_right _ _)
    simpa using hentry
  rw [← List.take_append_drop index list, List.countP_append, htake, hdrop, List.length_take]
  omega

namespace LineTable

/-- Halving finds where a position stands in a whole table. -/
theorem locates_find {table : LineTable} (hincreasing : table.starts.toList.Pairwise (· < ·))
    (position : UInt32) :
    (Slot.find table.starts position 0 table.starts.size (Nat.le_refl _)).Locates
      table.starts position := by
  refine Slot.locates_find hincreasing 0 table.starts.size (Nat.le_refl _) (Nat.zero_le _) ?_
  constructor
  case below => exact fun index _ hless => absurd hless (Nat.not_lt_zero index)
  case above => exact fun index hindex hle => absurd hindex (Nat.not_lt.mpr hle)

/-- The line of a position is the number of lines that start at or before it. -/
theorem lineOf_eq_countP {table : LineTable} (hincreasing : table.starts.toList.Pairwise (· < ·))
    (position : UInt32) :
    table.lineOf position = table.starts.toList.countP (· ≤ position) := by
  have hlocates := locates_find hincreasing position
  unfold lineOf
  cases hslot : Slot.find table.starts position 0 table.starts.size (Nat.le_refl _) with
  | present index =>
      rw [hslot] at hlocates
      obtain ⟨hindex, hentry⟩ := hlocates
      refine (countP_eq_of_bracket (by simpa using Nat.succ_le_of_lt hindex) ?_ ?_).symm
      · intro i hi hle
        rw [Array.getElem_toList]
        rcases Nat.lt_succ_iff_lt_or_eq.mp hle with hless | rfl
        · rw [← hentry]
          exact UInt32.le_of_lt (getElem_lt_getElem hincreasing hindex hless)
        · rw [hentry]
          exact UInt32.le_refl _
      · intro i hi hle
        rw [Array.getElem_toList, ← hentry]
        exact getElem_lt_getElem hincreasing (by simpa using hi) hle
  | absent index =>
      rw [hslot] at hlocates
      obtain ⟨hindex, hbrackets⟩ := hlocates
      refine (countP_eq_of_bracket (by simpa using hindex) ?_ ?_).symm
      · intro i hi hless
        simpa using UInt32.le_of_lt (hbrackets.below i (by simpa using hi) hless)
      · intro i hi hle
        simpa using hbrackets.above i (by simpa using hi) hle

end LineTable

theorem length_lineStarts (offset : Nat) (text : List Char) :
    (lineStarts offset text).length = lineFeeds text := by
  induction text generalizing offset with
  | nil => rfl
  | cons c text ih =>
      unfold lineFeeds at ih ⊢
      rw [lineStarts, List.count_cons]
      by_cases hfeed : c = '\n'
      · rw [if_pos hfeed, List.length_cons, ih, if_pos (beq_iff_eq.mpr hfeed)]
      · rw [if_neg hfeed, ih, if_neg (by simpa using hfeed), Nat.add_zero]

/-- The lines of a text after the first start inside it, and behind its first
byte. -/
theorem bounds_of_mem_lineStarts {offset : Nat} {text : List Char} {start : UInt32}
    (hbound : offset + byteLength text ≤ Span.greatestOffset)
    (hmem : start ∈ lineStarts offset text) :
    offset < start.toNat ∧ start.toNat ≤ offset + byteLength text := by
  induction text generalizing offset with
  | nil => simp [lineStarts] at hmem
  | cons c text ih =>
      rw [lineStarts] at hmem
      rw [byteLength_cons] at hbound ⊢
      have hpos := c.utf8Size_pos
      by_cases hfeed : c = '\n'
      · subst hfeed
        have hsize : Char.utf8Size '\n' = 1 := rfl
        rw [if_pos rfl, List.mem_cons] at hmem
        rw [hsize] at hbound ⊢
        rcases hmem with rfl | hmem
        · rw [Span.toNat_clamp]
          omega
        · have hrest := ih (by omega) hmem
          omega
      · rw [if_neg hfeed] at hmem
        have hrest := ih (by omega) hmem
        omega

theorem pairwise_lineStarts {offset : Nat} {text : List Char}
    (hbound : offset + byteLength text ≤ Span.greatestOffset) :
    (lineStarts offset text).Pairwise (· < ·) := by
  induction text generalizing offset with
  | nil => simp [lineStarts]
  | cons c text ih =>
      rw [byteLength_cons] at hbound
      rw [lineStarts]
      by_cases hfeed : c = '\n'
      · subst hfeed
        have hsize : Char.utf8Size '\n' = 1 := rfl
        rw [hsize] at hbound
        rw [if_pos rfl, List.pairwise_cons]
        refine ⟨?_, ih (by omega)⟩
        intro start hmem
        have hstart := bounds_of_mem_lineStarts (by omega) hmem
        rw [UInt32.lt_iff_toNat_lt, Span.toNat_clamp]
        omega
      · rw [if_neg hfeed]
        exact ih (by omega)

/-- Of the lines of a text after the first, those that start at or before a position are as
many as the line feeds below it. -/
theorem countP_lineStarts {offset : Nat} {text : List Char}
    (hbound : offset + byteLength text ≤ Span.greatestOffset) (position : UInt32) :
    (lineStarts offset text).countP (· ≤ position) =
      ((encode text).take (position.toNat - offset)).count 10 := by
  induction text generalizing offset with
  | nil => simp [lineStarts]
  | cons c text ih =>
      rw [byteLength_cons] at hbound
      rw [lineStarts, encode_cons, List.take_append, List.count_append,
        String.length_utf8EncodeChar, Nat.sub_sub]
      by_cases hfeed : c = '\n'
      · subst hfeed
        have hsize : Char.utf8Size '\n' = 1 := rfl
        rw [hsize] at hbound ⊢
        have hstart : (Span.clamp (offset + 1)).toNat = offset + 1 := by
          rw [Span.toNat_clamp]
          omega
        rw [if_pos rfl, List.countP_cons, ih (by omega), Nat.add_comm]
        congr 1
        simp only [decide_eq_true_eq, UInt32.le_iff_toNat_le, hstart]
        have hbyte : String.utf8EncodeChar '\n' = [10] := rfl
        rw [hbyte]
        by_cases hle : offset + 1 ≤ position.toNat
        · rw [if_pos hle, List.take_of_length_le (by simp; omega)]
          rfl
        · have hzero : position.toNat - offset = 0 := by omega
          rw [if_neg hle, hzero]
          rfl
      · have hnone : (((String.utf8EncodeChar c).take (position.toNat - offset))).count 10 = 0 := by
          have hall : (String.utf8EncodeChar c).count 10 = 0 := by
            rw [count_lineFeed_encodeChar, if_neg hfeed]
          exact Nat.eq_zero_of_le_zero (hall ▸ (List.take_sublist _ _).count_le 10)
        rw [if_neg hfeed, ih (by omega), hnone, Nat.zero_add]

/-- The line feeds among the bytes of a source below an offset. -/
def lineFeedsBelow (source : String) (offset : Nat) : Nat :=
  ((bytesOf source).take offset).count 10

namespace LineTable

variable {source : String}

theorem starts_ofText (source : String) :
    (ofText source).starts.toList = 0 :: lineStarts 0 source.toList := rfl

theorem pairwise_starts (hbounded : Bounded source) :
    (ofText source).starts.toList.Pairwise (· < ·) := by
  have hbound : 0 + byteLength source.toList ≤ Span.greatestOffset := by
    rw [Nat.zero_add]
    exact hbounded.byteLength_le
  rw [starts_ofText, List.pairwise_cons]
  refine ⟨?_, pairwise_lineStarts hbound⟩
  intro start hmem
  exact UInt32.lt_iff_toNat_lt.mpr (bounds_of_mem_lineStarts hbound hmem).1

theorem lineCount_ofText (source : String) :
    (ofText source).lineCount = 1 + lineFeeds source.toList := by
  rw [lineCount, ← Array.length_toList, starts_ofText, List.length_cons, length_lineStarts,
    Nat.add_comm]

/-- The line of a position counts the line feeds below it, wherever it lies. -/
theorem lineOf_eq (hbounded : Bounded source) (position : UInt32) :
    (ofText source).lineOf position = 1 + lineFeedsBelow source position.toNat := by
  have hbound : 0 + byteLength source.toList ≤ Span.greatestOffset := by
    rw [Nat.zero_add]
    exact hbounded.byteLength_le
  have hfirst : (0 : UInt32) ≤ position := UInt32.zero_le
  rw [lineOf_eq_countP (pairwise_starts hbounded), starts_ofText, List.countP_cons,
    countP_lineStarts hbound, if_pos (decide_eq_true hfirst), Nat.sub_zero, ← bytesOf_eq_encode,
    Nat.add_comm]
  rfl

/-- Between two characters of a text the line is one more than the number of line
feeds before. -/
theorem lineOf_byteLength (hbounded : Bounded source) {before after : List Char}
    (htext : source.toList = before ++ after) {position : UInt32}
    (hposition : position.toNat = byteLength before) :
    (ofText source).lineOf position = 1 + lineFeeds before := by
  rw [lineOf_eq hbounded, lineFeedsBelow, bytesOf_eq_encode, htext, encode_append, hposition,
    ← length_encode, List.take_left, count_lineFeed_encode]

end LineTable

end LoxLexer
