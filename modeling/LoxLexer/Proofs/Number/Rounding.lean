import LoxLexer.Proofs.Number.Nearest
import Mathlib.Algebra.Order.Field.Rat
import Mathlib.Tactic.Linarith
import Mathlib.Tactic.Positivity
import Mathlib.Tactic.Ring

/-!
# Rounding to doubles

The value of a finite double is a rational number, read off the fields of its pattern
(`value`).  A number that is not negative is rounded to the double whose value is nearest
to it, and between two equally near ones to that whose last bit is zero; beyond the point
halfway from the greatest finite value to `2 ^ 1024` it is rounded to infinity (`RoundsTo`).
This settles the double (`RoundsTo.unique`), and the double nearest to a quotient by its
magnitudes is the one that the quotient is rounded to (`roundsTo_nearest`).
-/

namespace LoxLexer

namespace Binary64

/-- Whether the pattern stands for no number, neither finite nor infinite. -/
def isNaN (x : Binary64) : Bool :=
  infiniteMagnitude < x.magnitude

def exponentField (x : Binary64) : Nat :=
  x.bits.toNat / Nat.pow 2 52 % Nat.pow 2 11

def fraction (x : Binary64) : Nat :=
  x.bits.toNat % Nat.pow 2 52

/-- The fraction behind a leading one, which is missing in the first exponent field. -/
def significand (x : Binary64) : Nat :=
  if x.exponentField = 0 then x.fraction else Nat.pow 2 52 + x.fraction

/-- The exact value of a finite double.  The first two exponent fields stand for the same
power of two. -/
def value (x : Binary64) : ℚ :=
  (if x.isNegative then -1 else 1) * x.significand * 2 ^ ((max x.exponentField 1 : ℤ) - 1075)

/-- The double that a number which is not negative is rounded to. -/
structure RoundsTo (number : ℚ) (x : Binary64) : Prop where
  isNegative_eq : x.isNegative = false
  isNaN_eq : x.isNaN = false
  isInfinite_iff : x.isInfinite = true ↔ 2 ^ 1024 - 2 ^ 970 ≤ number
  nearest : x.isFinite = true → ∀ y : Binary64, y.isFinite = true →
    |x.value - number| ≤ |y.value - number|
  even : x.isFinite = true → ∀ y : Binary64, y.isFinite = true → y.value ≠ x.value →
    |y.value - number| = |x.value - number| → x.fraction % 2 = 0

theorem natCast_pow_two (exponent : Nat) : ((Nat.pow 2 exponent : ℕ) : ℚ) = 2 ^ exponent :=
  Nat.cast_pow 2 exponent

theorem fraction_eq (x : Binary64) : x.fraction = x.magnitude % Nat.pow 2 52 := by
  have hsign : Nat.pow 2 63 = 9223372036854775808 := rfl
  unfold fraction magnitude
  rw [pow_fifty_two, hsign]
  omega

theorem fraction_mod_two (x : Binary64) : x.fraction % 2 = x.magnitude % 2 := by
  rw [fraction_eq, pow_fifty_two]
  omega

theorem exponentField_eq (x : Binary64) : x.exponentField = x.magnitude / Nat.pow 2 52 := by
  have hsign : Nat.pow 2 63 = 9223372036854775808 := rfl
  have hfield : Nat.pow 2 11 = 2048 := rfl
  unfold exponentField magnitude
  rw [pow_fifty_two, hsign, hfield]
  omega

theorem units_eq_significand_mul (x : Binary64) :
    units x.magnitude = x.significand * Nat.pow 2 (max x.exponentField 1 - 1) := by
  unfold significand units
  rw [fraction_eq, exponentField_eq]
  by_cases hsmall : x.magnitude < Nat.pow 2 52
  · rw [if_pos hsmall, if_pos (Nat.div_eq_of_lt hsmall), Nat.div_eq_of_lt hsmall,
      Nat.mod_eq_of_lt hsmall]
    exact (Nat.mul_one _).symm
  · have hone : 1 ≤ x.magnitude / Nat.pow 2 52 :=
      (Nat.le_div_iff_mul_le (by decide)).mpr (by rw [Nat.one_mul]; exact Nat.not_lt.mp hsmall)
    rw [if_neg hsmall, if_neg (by omega), Nat.max_eq_left hone]

def signedUnits (x : Binary64) : ℚ :=
  if x.isNegative then -units x.magnitude else units x.magnitude

theorem signedUnits_of_nonneg {x : Binary64} (hnegative : x.isNegative = false) :
    x.signedUnits = units x.magnitude := by
  rw [signedUnits, hnegative]
  rfl

theorem signedUnits_ofMagnitude {magnitude : Nat} (hle : magnitude ≤ infiniteMagnitude) :
    (ofMagnitude false magnitude).signedUnits = units magnitude := by
  rw [signedUnits_of_nonneg (isNegative_ofMagnitude hle), magnitude_ofMagnitude hle]

theorem value_eq (x : Binary64) : x.value = x.signedUnits / 2 ^ 1074 := by
  have hpower : (max x.exponentField 1 : ℤ) - 1075 =
      ((max x.exponentField 1 - 1 : ℕ) : ℤ) - ((1074 : ℕ) : ℤ) := by omega
  unfold value signedUnits
  rw [hpower, zpow_sub₀ (by decide), zpow_natCast, zpow_natCast, units_eq_significand_mul,
    Nat.cast_mul, natCast_pow_two]
  generalize (2 : ℚ) ^ 1074 = scale
  split <;> ring

theorem value_eq_iff (x y : Binary64) : x.value = y.value ↔ x.signedUnits = y.signedUnits := by
  rw [value_eq, value_eq]
  exact div_left_inj' (pow_ne_zero 1074 (by decide))

theorem distance_eq (x : Binary64) (number : ℚ) :
    |x.value - number| = |x.signedUnits - number * 2 ^ 1074| / 2 ^ 1074 := by
  have hscale : (0 : ℚ) < 2 ^ 1074 := pow_pos (by decide) 1074
  rw [value_eq]
  generalize (2 : ℚ) ^ 1074 = scale at *
  rw [← abs_of_pos hscale, ← abs_div, abs_of_pos hscale, sub_div,
    mul_div_cancel_right₀ _ hscale.ne']

theorem distance_le_iff (x y : Binary64) (number : ℚ) :
    |x.value - number| ≤ |y.value - number| ↔
      |x.signedUnits - number * 2 ^ 1074| ≤ |y.signedUnits - number * 2 ^ 1074| := by
  rw [distance_eq, distance_eq]
  exact div_le_div_iff_of_pos_right (pow_pos (by decide) 1074)

namespace IsNearest

variable {numerator denominator magnitude other : Nat}

theorem halfway_below (hpos : 0 < denominator)
    (hnearest : IsNearest numerator denominator magnitude) (hlt : other < magnitude) :
    (units other : ℚ) + units magnitude ≤ 2 * (numerator / denominator) ∧
      (magnitude % 2 = 1 →
        (units other : ℚ) + units magnitude < 2 * (numerator / denominator)) := by
  have hlow := hnearest.low (by omega)
  have hmono : units other ≤ units (magnitude - 1) := units_strictMono.monotone (by omega)
  have hsum := Nat.mul_le_mul_right denominator (Nat.add_le_add_right hmono (units magnitude))
  have hpos' : (0 : ℚ) < denominator := Nat.cast_pos.mpr hpos
  rw [mul_div_assoc', le_div_iff₀ hpos', lt_div_iff₀ hpos']
  constructor
  · exact_mod_cast (by omega : (units other + units magnitude) * denominator ≤ 2 * numerator)
  · intro hodd
    exact_mod_cast (by omega : (units other + units magnitude) * denominator < 2 * numerator)

theorem halfway_above (hpos : 0 < denominator)
    (hnearest : IsNearest numerator denominator magnitude) (hlt : magnitude < other)
    (hother : other ≤ infiniteMagnitude) :
    2 * ((numerator : ℚ) / denominator) ≤ units magnitude + units other ∧
      (magnitude % 2 = 1 →
        2 * ((numerator : ℚ) / denominator) < units magnitude + units other) := by
  have hhigh := hnearest.high (by omega)
  have hmono : units (magnitude + 1) ≤ units other := units_strictMono.monotone hlt
  have hsum := Nat.mul_le_mul_right denominator (Nat.add_le_add_left hmono (units magnitude))
  have hpos' : (0 : ℚ) < denominator := Nat.cast_pos.mpr hpos
  rw [mul_div_assoc', div_le_iff₀ hpos', div_lt_iff₀ hpos']
  constructor
  · exact_mod_cast (by omega : 2 * numerator ≤ (units magnitude + units other) * denominator)
  · intro hodd
    exact_mod_cast (by omega : 2 * numerator < (units magnitude + units other) * denominator)

theorem distance_le (hpos : 0 < denominator)
    (hnearest : IsNearest numerator denominator magnitude) (hother : other ≤ infiniteMagnitude) :
    |(units magnitude : ℚ) - numerator / denominator| ≤
      |(units other : ℚ) - numerator / denominator| := by
  rcases Nat.lt_trichotomy other magnitude with hlt | rfl | hgt
  · have hhalfway := (hnearest.halfway_below hpos hlt).1
    have hless : (units other : ℚ) < units magnitude := Nat.cast_lt.mpr (units_strictMono hlt)
    have hother : (0 : ℚ) < numerator / denominator - units other := by linarith
    rw [abs_sub_comm (units other : ℚ), abs_of_pos hother, abs_le]
    constructor <;> linarith
  · exact le_refl _
  · have hhalfway := (hnearest.halfway_above hpos hgt hother).1
    have hless : (units magnitude : ℚ) < units other := Nat.cast_lt.mpr (units_strictMono hgt)
    have hother : (0 : ℚ) < units other - numerator / denominator := by linarith
    rw [abs_of_pos hother, abs_le]
    constructor <;> linarith

theorem even_of_distance_eq (hpos : 0 < denominator)
    (hnearest : IsNearest numerator denominator magnitude) (hother : other ≤ infiniteMagnitude)
    (hne : other ≠ magnitude)
    (heq : |(units other : ℚ) - numerator / denominator| =
      |(units magnitude : ℚ) - numerator / denominator|) : magnitude % 2 = 0 := by
  have hunits : (units other : ℚ) ≠ units magnitude :=
    fun heq => hne (units_strictMono.injective (Nat.cast_injective heq))
  -- Both are equally far off, so the quotient is the point halfway between them.
  have hhalfway : 2 * ((numerator : ℚ) / denominator) = units other + units magnitude := by
    rcases abs_eq_abs.mp heq with heq | heq
    · exact absurd (by linarith) hunits
    · linarith
  refine (Nat.mod_two_eq_zero_or_one magnitude).resolve_right fun hodd => ?_
  rcases Nat.lt_or_gt_of_ne hne with hlt | hgt
  · have hstrict := (hnearest.halfway_below hpos hlt).2 hodd
    linarith
  · have hstrict := (hnearest.halfway_above hpos hgt hother).2 hodd
    linarith

/-- A value below zero is farther off than zero, except that zero itself may have a sign. -/
theorem distance_zero_le {value : ℚ} (hvalue : 0 ≤ value) :
    |(units 0 : ℚ) - numerator / denominator| + value =
      |-value - numerator / denominator| := by
  have hquotient : (0 : ℚ) ≤ numerator / denominator := by positivity
  rw [units_zero, Nat.cast_zero, zero_sub, abs_neg, abs_of_nonneg hquotient, ← neg_add', abs_neg,
    abs_of_nonneg (add_nonneg hvalue hquotient), add_comm]

theorem distance_le_signedUnits (hpos : 0 < denominator)
    (hnearest : IsNearest numerator denominator magnitude) {y : Binary64}
    (hy : y.isFinite = true) :
    |(units magnitude : ℚ) - numerator / denominator| ≤
      |y.signedUnits - numerator / denominator| := by
  have hother : y.magnitude ≤ infiniteMagnitude := Nat.le_of_lt (of_decide_eq_true hy)
  unfold signedUnits
  split
  · have hzero := hnearest.distance_le hpos (Nat.zero_le _)
    have hunits : (0 : ℚ) ≤ units y.magnitude := Nat.cast_nonneg _
    rw [← distance_zero_le hunits]
    exact hzero.trans (le_add_of_nonneg_right hunits)
  · exact hnearest.distance_le hpos hother

theorem even_of_signedUnits (hpos : 0 < denominator)
    (hnearest : IsNearest numerator denominator magnitude) {y : Binary64}
    (hy : y.isFinite = true) (hne : y.signedUnits ≠ units magnitude)
    (heq : |y.signedUnits - numerator / denominator| =
      |(units magnitude : ℚ) - numerator / denominator|) : magnitude % 2 = 0 := by
  have hother : y.magnitude ≤ infiniteMagnitude := Nat.le_of_lt (of_decide_eq_true hy)
  unfold signedUnits at hne heq
  split at hne
  · -- Only zero with a sign can be as near as the nearest value that has none.
    have hzero := hnearest.distance_le hpos (Nat.zero_le _)
    have hunits : (0 : ℚ) ≤ units y.magnitude := Nat.cast_nonneg _
    rw [if_pos ‹_›, ← distance_zero_le hunits] at heq
    have hnone : (units y.magnitude : ℚ) = 0 := by linarith
    rw [hnone, add_zero] at heq
    rw [hnone, neg_zero] at hne
    refine hnearest.even_of_distance_eq hpos (Nat.zero_le _) (fun hmagnitude => hne ?_) heq
    rw [← hmagnitude, units_zero, Nat.cast_zero]
  · rw [if_neg ‹_›] at heq
    exact hnearest.even_of_distance_eq hpos hother (fun hsame => hne (by rw [hsame])) heq

end IsNearest

theorem natCast_units_place {place bits : Nat} (hbits : place = 0 ∨ Nat.pow 2 52 ≤ bits)
    (hle : bits ≤ 2 * Nat.pow 2 52) :
    (units (place * Nat.pow 2 52 + bits) : ℚ) = bits * 2 ^ place := by
  rw [units_place hbits hle, Nat.cast_mul, natCast_pow_two]

/-- The point halfway from the greatest finite value to the one that would follow it. -/
theorem halfway_infinite : (units (infiniteMagnitude - 1) : ℚ) + units infiniteMagnitude =
    2 * ((2 ^ 1024 - 2 ^ 970) * 2 ^ 1074) := by
  have hgreatest : infiniteMagnitude - 1 = 2045 * Nat.pow 2 52 + 9007199254740991 := by decide
  have hinfinite : infiniteMagnitude = 2045 * Nat.pow 2 52 + 9007199254740992 := by decide
  have hbound : (2 : ℚ) ^ 1024 = 2 ^ 54 * 2 ^ 970 := pow_add 2 54 970
  have hunit : (2 : ℚ) ^ 2045 = 2 ^ 1 * 2 ^ 970 * 2 ^ 1074 := by rw [← pow_add, ← pow_add]
  rw [hgreatest, natCast_units_place (.inr (by decide)) (by decide), hinfinite,
    natCast_units_place (.inr (by decide)) (by decide), hbound, hunit]
  generalize (2 : ℚ) ^ 970 = least
  generalize (2 : ℚ) ^ 1074 = scale
  push_cast
  ring

theorem IsNearest.eq_infinite_iff {numerator denominator magnitude : Nat} (hpos : 0 < denominator)
    (hnearest : IsNearest numerator denominator magnitude) :
    magnitude = infiniteMagnitude ↔
      (2 ^ 1024 - 2 ^ 970) * 2 ^ 1074 ≤ (numerator : ℚ) / denominator := by
  have hbound := halfway_infinite
  generalize ((2 : ℚ) ^ 1024 - 2 ^ 970) * 2 ^ 1074 = bound at *
  constructor
  · rintro rfl
    have hhalfway := (hnearest.halfway_below hpos (Nat.sub_lt (by decide) Nat.one_pos)).1
    linarith
  · intro hle
    by_contra hne
    have hlt := Nat.lt_of_le_of_ne hnearest.le_infinite hne
    obtain ⟨hhalfway, hstrict⟩ := hnearest.halfway_above hpos hlt (Nat.le_refl _)
    -- Only the greatest finite value comes so near to the bound, and it is odd.
    have hgreatest : units magnitude ≤ units (infiniteMagnitude - 1) :=
      units_strictMono.monotone (Nat.le_sub_one_of_lt hlt)
    have hcast : (units magnitude : ℚ) ≤ units (infiniteMagnitude - 1) := Nat.cast_le.mpr hgreatest
    have hsame : units magnitude = units (infiniteMagnitude - 1) :=
      Nat.cast_injective (R := ℚ) (by linarith)
    have hodd : magnitude % 2 = 1 := by
      rw [units_strictMono.injective hsame]
      decide
    linarith [hstrict hodd]

theorem roundsTo_nearest (numerator : Nat) {denominator : Nat} (hpos : 0 < denominator) :
    RoundsTo (numerator / denominator) (ofMagnitude false (nearest numerator denominator)) := by
  have hnearest := isNearest_nearest numerator hpos
  generalize nearest numerator denominator = magnitude at *
  have hmagnitude := magnitude_ofMagnitude hnearest.le_infinite
  have hunits := signedUnits_ofMagnitude hnearest.le_infinite
  have hscale : (0 : ℚ) < 2 ^ 1074 := pow_pos (by decide) 1074
  have hnumber : ((numerator * Nat.pow 2 1074 : ℕ) : ℚ) / denominator =
      numerator / denominator * 2 ^ 1074 := by
    rw [Nat.cast_mul, mul_div_right_comm, natCast_pow_two]
  constructor
  case isNegative_eq => exact isNegative_ofMagnitude hnearest.le_infinite
  case isNaN_eq =>
    rw [isNaN, hmagnitude, decide_eq_false_iff_not]
    exact Nat.not_lt.mpr hnearest.le_infinite
  case isInfinite_iff =>
    rw [isInfinite, hmagnitude, beq_iff_eq, hnearest.eq_infinite_iff hpos, hnumber]
    exact mul_le_mul_iff_left₀ hscale
  case nearest =>
    intro _ y hy
    rw [distance_le_iff, hunits, ← hnumber]
    exact hnearest.distance_le_signedUnits hpos hy
  case even =>
    intro _ y hy hne heq
    rw [ne_eq, value_eq_iff, hunits] at hne
    have hle := (distance_le_iff y _ _).mp heq.le
    have hge := (distance_le_iff _ y _).mp heq.ge
    rw [hunits, ← hnumber] at hle hge
    rw [fraction_mod_two, hmagnitude]
    exact hnearest.even_of_signedUnits hpos hy hne (le_antisymm hle hge)

namespace RoundsTo

variable {number : ℚ} {x y : Binary64}

theorem isFinite_of_lt (hx : RoundsTo number x) (hlt : number < 2 ^ 1024 - 2 ^ 970) :
    x.isFinite = true := by
  have hinfinite := mt hx.isInfinite_iff.mp (not_le.mpr hlt)
  have hnumber := hx.isNaN_eq
  rw [isInfinite, beq_iff_eq] at hinfinite
  rw [isNaN, decide_eq_false_iff_not] at hnumber
  rw [isFinite, decide_eq_true_eq]
  omega

theorem not_lt (hx : RoundsTo number x) (hy : RoundsTo number y)
    (hlt : number < 2 ^ 1024 - 2 ^ 970) : ¬x.magnitude < y.magnitude := by
  intro hless
  have hxFinite := hx.isFinite_of_lt hlt
  have hyFinite := hy.isFinite_of_lt hlt
  have hxUnits := signedUnits_of_nonneg hx.isNegative_eq
  have hyUnits := signedUnits_of_nonneg hy.isNegative_eq
  have hne : y.value ≠ x.value := by
    rw [ne_eq, value_eq_iff, hxUnits, hyUnits, Nat.cast_inj]
    exact fun heq => hless.ne' (units_strictMono.injective heq)
  have heq := le_antisymm (hx.nearest hxFinite y hyFinite) (hy.nearest hyFinite x hxFinite)
  have hxEven := hx.even hxFinite y hyFinite hne heq.symm
  have hyEven := hy.even hyFinite x hxFinite hne.symm heq
  -- Between two even magnitudes there is a third one, which is nearer than both.
  rw [fraction_mod_two] at hxEven hyEven
  have hbetween : x.magnitude + 1 < y.magnitude := by omega
  have hfinite : x.magnitude + 1 < infiniteMagnitude :=
    hbetween.trans (of_decide_eq_true hyFinite)
  have hthird : (ofMagnitude false (x.magnitude + 1)).isFinite = true := by
    rw [isFinite, magnitude_ofMagnitude hfinite.le, decide_eq_true_eq]
    exact hfinite
  have hxThird := (distance_le_iff _ _ _).mp (hx.nearest hxFinite _ hthird)
  have hyThird := (distance_le_iff _ _ _).mp (hy.nearest hyFinite _ hthird)
  rw [hxUnits, signedUnits_ofMagnitude hfinite.le] at hxThird
  rw [hyUnits, signedUnits_ofMagnitude hfinite.le] at hyThird
  have hxLess : (units x.magnitude : ℚ) < units (x.magnitude + 1) :=
    Nat.cast_lt.mpr (units_strictMono (Nat.lt_succ_self _))
  have hyLess : (units (x.magnitude + 1) : ℚ) < units y.magnitude :=
    Nat.cast_lt.mpr (units_strictMono hbetween)
  generalize number * 2 ^ 1074 = middle at *
  rcases le_total middle (units (x.magnitude + 1)) with hbefore | hbehind
  · rw [abs_of_nonneg (sub_nonneg.mpr hbefore)] at hyThird
    linarith [le_abs_self ((units y.magnitude : ℚ) - middle)]
  · rw [abs_of_nonpos (sub_nonpos.mpr hbehind)] at hxThird
    linarith [neg_abs_le ((units x.magnitude : ℚ) - middle)]

theorem unique (hx : RoundsTo number x) (hy : RoundsTo number y) : x = y := by
  have hmagnitude : x.magnitude = y.magnitude := by
    rcases le_or_gt (2 ^ 1024 - 2 ^ 970) number with hle | hlt
    · exact (beq_iff_eq.mp (hx.isInfinite_iff.mpr hle)).trans
        (beq_iff_eq.mp (hy.isInfinite_iff.mpr hle)).symm
    · exact Nat.le_antisymm (Nat.not_lt.mp (hy.not_lt hx hlt)) (Nat.not_lt.mp (hx.not_lt hy hlt))
  rw [← ofMagnitude_magnitude x, ← ofMagnitude_magnitude y, hmagnitude, hx.isNegative_eq,
    hy.isNegative_eq]

end RoundsTo

end Binary64

end LoxLexer
