import LoxLexer.Word

/-!
# Spans of source text

A span selects the bytes of a source from its start up to, and without, its
end.  Offsets that do not fit into a word are moved down to the greatest one,
so a span beyond that point is empty there.
-/

namespace LoxLexer

/-- A range of bytes, given by its first byte and its length. -/
structure Span where
  start : UInt32
  length : UInt32
deriving DecidableEq, Repr

namespace Span

instance : Inhabited Span := ⟨⟨0, 0⟩⟩

def empty (position : UInt32) : Span :=
  ⟨position, 0⟩

def isEmpty (span : Span) : Bool :=
  span.length == 0

def ofBounds (start stop : UInt32) : Except Fault Span :=
  if start ≤ stop then .ok ⟨start, stop - start⟩ else .error .boundsReversed

def greatestOffset : Nat := 4294967295

/-- The word nearest to an offset. -/
def clamp (offset : Nat) : UInt32 :=
  UInt32.ofNat (min offset greatestOffset)

/-- The span between two offsets of any size. -/
def ofOffsets (start stop : Nat) : Except Fault Span :=
  ofBounds (clamp start) (clamp stop)

/-- The position just after the last byte. -/
def stop (span : Span) : Except Fault UInt32 :=
  Word.add span.start span.length

def bounds (span : Span) : Except Fault (UInt32 × UInt32) := do
  let stop ← span.stop
  return (span.start, stop)

/-- The half-open interval, as in `[3, 7)`. -/
def intervalText (span : Span) : Except Fault String := do
  let stop ← span.stop
  return "[" ++ span.start.toNat.repr ++ ", " ++ stop.toNat.repr ++ ")"

/-- The bounds with two dots between them, as in `3..7`. -/
def rangeText (span : Span) : Except Fault String := do
  let stop ← span.stop
  return span.start.toNat.repr ++ ".." ++ stop.toNat.repr

theorem toNat_clamp (offset : Nat) : (clamp offset).toNat = min offset greatestOffset := by
  have hlt : min offset greatestOffset < UInt32.size :=
    Nat.lt_of_le_of_lt (Nat.min_le_right _ _) (by decide)
  exact UInt32.toNat_ofNat_of_lt' hlt

theorem clamp_mono {x y : Nat} (h : x ≤ y) : clamp x ≤ clamp y := by
  rw [UInt32.le_iff_toNat_le, toNat_clamp, toNat_clamp]
  omega

theorem ofOffsets_of_le {start stop : Nat} (h : start ≤ stop) :
    ofOffsets start stop = .ok ⟨clamp start, clamp stop - clamp start⟩ :=
  if_pos (clamp_mono h)

end Span

end LoxLexer
