import LoxLexer.Text.Span
import LoxLexer.Text.Measure

/-!
# Line tables

A line table holds the offset at which each line of a text starts.  Only a
line feed ends a line.  The line of a position is found by halving: a position
that starts a line belongs to that line, and any other to the line that starts
last before it.
-/

namespace LoxLexer

/-- The starts of the lines after the first, for a text that begins at `offset`. -/
def lineStarts (offset : Nat) : List Char → List UInt32
  | [] => []
  | c :: text =>
    if c = '\n' then
      Span.clamp (offset + 1) :: lineStarts (offset + 1) text
    else
      lineStarts (offset + c.utf8Size) text

inductive Slot where
  | present (index : Nat)
  /-- It is no entry, and would be inserted at this index. -/
  | absent (index : Nat)
deriving DecidableEq, Repr

/-- Looks for a position among the entries from `low` up to `high`. -/
def Slot.find (entries : Array UInt32) (position : UInt32) (low high : Nat)
    (bounded : high ≤ entries.size) : Slot :=
  if inside : low < high then
    let middle := low + (high - low) / 2
    have : middle < high := by omega
    let entry := entries[middle]
    if entry = position then
      .present middle
    else if entry < position then
      Slot.find entries position (middle + 1) high bounded
    else
      Slot.find entries position low middle (by omega)
  else
    .absent low
termination_by high - low

structure LineTable where
  starts : Array UInt32

namespace LineTable

def ofText (text : String) : LineTable :=
  ⟨(0 :: lineStarts 0 text.toList).toArray⟩

/-- The line, counted from 1, on which a position lies. -/
def lineOf (table : LineTable) (position : UInt32) : Nat :=
  match Slot.find table.starts position 0 table.starts.size (Nat.le_refl _) with
  | .present index => index + 1
  | .absent index => index

def lineCount (table : LineTable) : Nat :=
  table.starts.size

end LineTable

end LoxLexer
