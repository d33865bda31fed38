import LoxLexer.Number.Layout
import LoxLexer.Proofs.Number.Digits
import LoxLexer.Proofs.Number.Shortest

/-!
# The digits of a layout

A layout writes the digits of a decimal with a point among them, and with zeros where it has
none.  The digits before the point and behind it, taken as one whole number over a power of
ten, are the decimal again, in all places (`exists_positional_eq`); in front of an exponent
they are what the decimal is without it (`exists_scientific_eq`).
-/

namespace LoxLexer

namespace Decimal

def IsProper (x : Decimal) : Prop :=
  0 < x.coefficient ∨ x = ⟨0, 0⟩

theorem isProper_shortest {magnitude : Nat} (hfinite : magnitude < Binary64.infiniteMagnitude)
    (tie : TieRule) : (shortest tie magnitude).IsProper := by
  by_cases hmagnitude : magnitude = 0
  · exact .inr (if_pos hmagnitude)
  · exact .inl (coefficient_shortest_pos hmagnitude hfinite tie)

end Decimal

namespace Layout

def pointed (fraction : List Char) : List Char :=
  if fraction.isEmpty then [] else '.' :: fraction

/-- Digits before a point and behind it, if there are any.  Only a zero that stands alone
begins the digits before the point. -/
structure AreDigits (whole fraction : List Char) : Prop where
  whole_ne_nil : whole ≠ []
  isDigit_whole : ∀ c ∈ whole, isDigit c
  isDigit_fraction : ∀ c ∈ fraction, isDigit c
  eq_zero : whole.head? = some '0' → whole = ['0']

/-- Digits before a point and behind it which stand for a decimal. -/
structure Places (x : Decimal) (whole fraction : List Char) : Prop
    extends AreDigits whole fraction where
  isQuotient : x.IsQuotient (digitsValue (whole ++ fraction)) (Nat.pow 10 fraction.length)

variable {x : Decimal}

/-- The power of ten of the first digit. -/
def leading (x : Decimal) : Int :=
  x.exponent + ((decimalDigits x.coefficient).length - 1 : Nat)

theorem length_decimalDigits_pos (n : Nat) : 0 < (decimalDigits n).length :=
  List.length_pos_iff.mpr (decimalDigits_ne_nil n)

theorem places_of_lt {zeros : Nat} (hleading : leading x = .negSucc zeros) :
    Places x ['0'] (List.replicate zeros '0' ++ decimalDigits x.coefficient) := by
  have hlength := length_decimalDigits_pos x.coefficient
  constructor
  case toAreDigits =>
    have hzero : ∀ c ∈ ['0'], isDigit c := List.forall_mem_singleton.mpr (by decide)
    exact ⟨List.cons_ne_nil _ _, hzero,
      fun c hc =>
        (List.mem_append.mp hc).elim isDigit_of_mem_replicate isDigit_of_mem_decimalDigits,
      fun _ => rfl⟩
  case isQuotient =>
    have hvalue : digitsValue (['0'] ++ (List.replicate zeros '0' ++ decimalDigits x.coefficient)) =
        x.coefficient := by
      rw [← List.append_assoc]
      exact (digitsValue_replicate_append (zeros + 1) _).trans (digitsValue_decimalDigits _)
    have hdown : (-x.exponent).toNat = zeros + (decimalDigits x.coefficient).length := by
      unfold leading at hleading
      omega
    have hup : x.exponent.toNat = 0 := by
      unfold leading at hleading
      omega
    unfold Decimal.IsQuotient
    rw [hvalue, hdown, hup, List.length_append, List.length_replicate]
    exact congrArg (· * _) (Nat.mul_one x.coefficient).symm

theorem places_take {coefficient before : Nat} (hbefore : 0 < before)
    (hle : before ≤ (decimalDigits coefficient).length) :
    Places ⟨coefficient, before - ((decimalDigits coefficient).length : Int)⟩
      ((decimalDigits coefficient).take before) ((decimalDigits coefficient).drop before) := by
  have hne := Nat.pos_iff_ne_zero.mp hbefore
  constructor
  case toAreDigits =>
    refine ⟨fun hnil => ?_, fun c hc => isDigit_of_mem_decimalDigits (List.mem_of_mem_take hc),
      fun c hc => isDigit_of_mem_decimalDigits (List.mem_of_mem_drop hc), fun hhead => ?_⟩
    · exact (List.take_eq_nil_iff.mp hnil).elim hne (decimalDigits_ne_nil coefficient)
    · rw [List.head?_take, if_neg hne] at hhead
      obtain rfl : coefficient = 0 :=
        Nat.eq_zero_of_not_pos fun hpos => head_decimalDigits hpos hhead
      have hone : before = 1 := Nat.le_antisymm hle hbefore
      rw [hone]
      rfl
  case isQuotient =>
    -- As many powers of ten are divided by as digits stand behind the point.
    have hdown : (-((before : Int) - ((decimalDigits coefficient).length : Int))).toNat =
        (decimalDigits coefficient).length - before := by omega
    have hup : ((before : Int) - ((decimalDigits coefficient).length : Int)).toNat = 0 := by omega
    unfold Decimal.IsQuotient
    rw [List.take_append_drop, digitsValue_decimalDigits, List.length_drop, hdown, hup]
    exact congrArg (· * _) (Nat.mul_one coefficient).symm

/-- All digits stand before the point, with zeros behind them.  There may be further zeros
behind the point. -/
theorem places_of_ge {place : Nat} (hproper : x.IsProper) (hleading : leading x = place)
    (hle : (decimalDigits x.coefficient).length ≤ place + 1) (shown : Nat) :
    Places x (decimalDigits x.coefficient ++
        List.replicate (place + 1 - (decimalDigits x.coefficient).length) '0')
      (List.replicate shown '0') := by
  have hlength := length_decimalDigits_pos x.coefficient
  have hne := decimalDigits_ne_nil x.coefficient
  constructor
  case toAreDigits =>
    refine ⟨List.append_ne_nil_of_left_ne_nil hne _, fun c hc => ?_,
      fun c hc => isDigit_of_mem_replicate hc, fun hhead => ?_⟩
    · exact (List.mem_append.mp hc).elim isDigit_of_mem_decimalDigits isDigit_of_mem_replicate
    · rw [List.head?_append_of_ne_nil _ hne] at hhead
      rcases hproper with hpos | rfl
      · exact absurd hhead (head_decimalDigits hpos)
      · obtain rfl : place = 0 := Int.ofNat.inj hleading.symm
        rfl
  case isQuotient =>
    have hdown : (-x.exponent).toNat = 0 := by
      unfold leading at hleading
      omega
    have hup : x.exponent.toNat = place + 1 - (decimalDigits x.coefficient).length := by
      unfold leading at hleading
      omega
    unfold Decimal.IsQuotient
    rw [digitsValue_append_replicate, digitsValue_append_replicate, digitsValue_decimalDigits,
      List.length_replicate, hdown, hup]
    exact Nat.mul_one _

/-- A layout of all places consists of digits that stand for the decimal. -/
theorem exists_positional_eq (layout : Layout) (hproper : x.IsProper) :
    ∃ whole fraction, Places x whole fraction ∧ (layout.keepsFraction = true → fraction ≠ []) ∧
      layout.positional (decimalDigits x.coefficient) (leading x) = whole ++ pointed fraction := by
  cases hleading : leading x with
  | negSucc zeros =>
      have hne : List.replicate zeros '0' ++ decimalDigits x.coefficient ≠ [] :=
        List.append_ne_nil_of_right_ne_nil _ (decimalDigits_ne_nil x.coefficient)
      refine ⟨_, _, places_of_lt hleading, fun _ => hne, ?_⟩
      rw [pointed, if_neg (mt List.isEmpty_iff.mp hne)]
      rfl
  | ofNat place =>
      have hplace : x.exponent + ((decimalDigits x.coefficient).length - 1 : Nat) = (place : Int) :=
        hleading
      by_cases hlt : place + 1 < (decimalDigits x.coefficient).length
      · have hne : (decimalDigits x.coefficient).drop (place + 1) ≠ [] := by
          rw [ne_eq, List.drop_eq_nil_iff]
          omega
        have hexponent : x.exponent =
            (place + 1 : Nat) - ((decimalDigits x.coefficient).length : Int) := by
          omega
        have hplaces := places_take (Nat.succ_pos place) (Nat.le_of_lt hlt)
        rw [← hexponent] at hplaces
        refine ⟨_, _, hplaces, fun _ => hne, ?_⟩
        rw [pointed, positional, if_neg (mt List.isEmpty_iff.mp hne),
          if_neg (mt List.isEmpty_iff.mp hne)]
      · have hle := Nat.not_lt.mp hlt
        have hnil : (decimalDigits x.coefficient).drop (place + 1) = [] :=
          List.drop_eq_nil_iff.mpr hle
        have hwhole := List.take_of_length_le hle
        cases hkeeps : layout.keepsFraction with
        | true =>
            refine ⟨_, _, places_of_ge hproper hleading hle 1, fun _ => by simp, ?_⟩
            simp [positional, pointed, hnil, hwhole, hkeeps]
        | false =>
            refine ⟨_, _, places_of_ge hproper hleading hle 0, by simp, ?_⟩
            simp [positional, pointed, hnil, hwhole, hkeeps]

theorem exists_scientific_eq (x : Decimal) :
    ∃ whole fraction,
      Places ⟨x.coefficient, x.exponent - leading x⟩ whole fraction ∧
      scientific (decimalDigits x.coefficient) (leading x) =
        whole ++ pointed fraction ++ exponentText (leading x) := by
  have hlength := length_decimalDigits_pos x.coefficient
  have hexponent : x.exponent - leading x =
      (1 : Nat) - ((decimalDigits x.coefficient).length : Int) := by
    unfold leading
    omega
  rw [hexponent]
  exact ⟨_, _, places_take (by decide) hlength, rfl⟩

end Layout

end LoxLexer
