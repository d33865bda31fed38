/-!
# Checked 32-bit words

Offsets, lengths and line numbers are stored in 32-bit words.  Every sum on
them is checked: one that does not fit is a fault, and so is a span whose end
lies before its start.  A fault aborts the computation that ran into it.
-/

namespace LoxLexer

/-- What checked arithmetic on stored positions can run into. -/
inductive Fault where
  | additionOverflow
  /-- A span was asked to end before it starts. -/
  | boundsReversed
deriving DecidableEq, Repr

def Fault.message : Fault → String
  | .additionOverflow => "attempt to add with overflow"
  | .boundsReversed => "assertion failed: end >= start"

namespace Word

/-- The word that holds `n`, if there is one. -/
def ofNat (n : Nat) : Except Fault UInt32 :=
  if n < UInt32.size then .ok (UInt32.ofNat n) else .error .additionOverflow

def add (x y : UInt32) : Except Fault UInt32 :=
  ofNat (x.toNat + y.toNat)

theorem ofNat_of_lt {n : Nat} (h : n < UInt32.size) : ofNat n = .ok (UInt32.ofNat n) :=
  if_pos h

theorem ofNat_toNat (x : UInt32) : ofNat x.toNat = .ok x := by
  rw [ofNat_of_lt x.toNat_lt, UInt32.ofNat_toNat]

end Word

end LoxLexer
