import LoxLexer.Number.Binary64
import Mathlib.Order.Monotone.Basic
import Mathlib.Tactic.Linarith

/-!
# The double nearest to a quotient

The magnitudes of finite doubles count their values in order (`units_strictMono`).  So the
double nearest to a value is the one whose neighbours are both farther off, or as far off
and odd: the value lies between the points halfway to these neighbours (`IsNearest`).  That
settles the double (`IsNearest.unique`), and `nearest` finds it (`isNearest_nearest`).

A magnitude consists of a place and of a row of bits that stands there (`exists_place`).
Beyond the first place a row of bits fills all of it, and the one after the greatest is the
least of the next place.
-/

namespace LoxLexer

namespace Binary64

theorem pow_fifty_two : Nat.pow 2 52 = 4503599627370496 := rfl

theorem infiniteMagnitude_eq : infiniteMagnitude = 9218868437227405312 := rfl

theorem magnitude_ofMagnitude {magnitude : Nat} (hle : magnitude ≤ infiniteMagnitude) :
    (ofMagnitude false magnitude).magnitude = magnitude := by
  have hsign : Nat.pow 2 63 = 9223372036854775808 := rfl
  have hsize : UInt64.size = 18446744073709551616 := rfl
  rw [infiniteMagnitude_eq] at hle
  unfold ofMagnitude Binary64.magnitude
  rw [if_neg (by decide), UInt64.toNat_ofNat_of_lt' (by omega), hsign]
  omega

theorem isNegative_ofMagnitude {magnitude : Nat} (hle : magnitude ≤ infiniteMagnitude) :
    (ofMagnitude false magnitude).isNegative = false := by
  have hsign : Nat.pow 2 63 = 9223372036854775808 := rfl
  have hsize : UInt64.size = 18446744073709551616 := rfl
  rw [infiniteMagnitude_eq] at hle
  unfold ofMagnitude isNegative
  rw [if_neg (by decide), UInt64.toNat_ofNat_of_lt' (by omega), hsign, decide_eq_false_iff_not]
  omega

theorem ofMagnitude_magnitude (x : Binary64) : ofMagnitude x.isNegative x.magnitude = x := by
  obtain ⟨bits⟩ := x
  have hlt := bits.toNat_lt
  have hsign : Nat.pow 2 63 = 9223372036854775808 := rfl
  have hnumber : (if Nat.pow 2 63 ≤ bits.toNat then Nat.pow 2 63 + bits.toNat % Nat.pow 2 63
      else bits.toNat % Nat.pow 2 63) = bits.toNat := by
    rw [hsign]
    split <;> omega
  unfold ofMagnitude isNegative magnitude
  simp only [decide_eq_true_eq]
  rw [hnumber, UInt64.ofNat_toNat]

theorem exists_place (magnitude : Nat) :
    ∃ place bits, magnitude = place * Nat.pow 2 52 + bits ∧
      (place = 0 ∨ Nat.pow 2 52 ≤ bits) ∧ bits < 2 * Nat.pow 2 52 := by
  rw [pow_fifty_two]
  by_cases hsmall : magnitude < 4503599627370496
  · exact ⟨0, magnitude, by omega, .inl rfl, by omega⟩
  · exact ⟨magnitude / 4503599627370496 - 1, 4503599627370496 + magnitude % 4503599627370496,
      by omega, .inr (by omega), by omega⟩

/-- The value of a magnitude with the given place and bits.  The bits may be those of the
least magnitude of the next place. -/
theorem units_place {place bits : Nat} (hbits : place = 0 ∨ Nat.pow 2 52 ≤ bits)
    (hle : bits ≤ 2 * Nat.pow 2 52) :
    units (place * Nat.pow 2 52 + bits) = bits * Nat.pow 2 place := by
  rw [pow_fifty_two] at *
  unfold units
  rw [pow_fifty_two]
  rcases Nat.lt_trichotomy bits (2 * 4503599627370496) with hlt | heq | hgt
  · by_cases hsmall : bits < 4503599627370496
    · obtain rfl : place = 0 := by omega
      rw [if_pos (by omega)]
      exact ((congrArg (· + bits) (Nat.zero_mul _)).trans (Nat.zero_add bits)).trans
        (Nat.mul_one bits).symm
    · have hrest : 4503599627370496 +
          (place * 4503599627370496 + bits) % 4503599627370496 = bits := by omega
      have hplace : (place * 4503599627370496 + bits) / 4503599627370496 - 1 = place := by omega
      rw [if_neg (by omega), hrest, hplace]
  · have hrest : 4503599627370496 +
        (place * 4503599627370496 + bits) % 4503599627370496 = 4503599627370496 := by omega
    have hplace : (place * 4503599627370496 + bits) / 4503599627370496 - 1 = place + 1 := by omega
    have hpow : Nat.pow 2 (place + 1) = Nat.pow 2 place * 2 := rfl
    rw [if_neg (by omega), hrest, hplace, hpow, heq]
    omega
  · omega

theorem units_lt_units_succ (magnitude : Nat) : units magnitude < units (magnitude + 1) := by
  obtain ⟨place, bits, rfl, hbits, hlt⟩ := exists_place magnitude
  have hnext : place = 0 ∨ Nat.pow 2 52 ≤ bits + 1 := by omega
  rw [Nat.add_assoc, units_place hbits (by omega), units_place hnext (by omega), Nat.add_one_mul]
  exact Nat.lt_add_of_pos_right (Nat.pow_pos (by decide))

theorem units_strictMono : StrictMono units :=
  strictMono_nat_of_lt_succ units_lt_units_succ

theorem units_zero : units 0 = 0 := rfl

theorem units_pos {magnitude : Nat} (hmagnitude : magnitude ≠ 0) : 0 < units magnitude :=
  units_zero ▸ units_strictMono (Nat.pos_of_ne_zero hmagnitude)

theorem divideToEven_bounds (numerator : Nat) {denominator : Nat} (hpos : 0 < denominator) :
    2 * (divideToEven numerator denominator * denominator) +
        divideToEven numerator denominator % 2 ≤ 2 * numerator + denominator ∧
      2 * numerator + divideToEven numerator denominator % 2 ≤
        2 * (divideToEven numerator denominator * denominator) + denominator := by
  have hdivision := Nat.div_add_mod numerator denominator
  have hless := Nat.mod_lt numerator hpos
  rw [Nat.mul_comm] at hdivision
  unfold divideToEven
  generalize numerator / denominator = quotient at *
  generalize numerator % denominator = rest at *
  have hnext := Nat.add_one_mul quotient denominator
  dsimp only
  split
  · omega
  · split
    · omega
    · rcases Nat.mod_two_eq_zero_or_one quotient with heven | hodd
      · rw [heven, Nat.add_zero]
        omega
      · rw [hodd]
        omega

/-- The magnitude to which `numerator / denominator` units are rounded.  The quotient lies
between the points halfway to the neighbours of the magnitude.  These points themselves
belong to it only if it is even. -/
structure IsNearest (numerator denominator magnitude : Nat) : Prop where
  le_infinite : magnitude ≤ infiniteMagnitude
  low : magnitude ≠ 0 → (units (magnitude - 1) + units magnitude) * denominator +
    magnitude % 2 ≤ 2 * numerator
  high : magnitude < infiniteMagnitude → 2 * numerator + magnitude % 2 ≤
    (units magnitude + units (magnitude + 1)) * denominator

theorem isNearest_zero (denominator : Nat) : IsNearest 0 denominator 0 := by
  constructor
  case le_infinite => exact Nat.zero_le _
  case low => exact fun hne => absurd rfl hne
  case high =>
    intro hpos
    rw [Nat.mul_zero, Nat.zero_mod]
    exact Nat.zero_le _

theorem IsNearest.numerator_pos {numerator denominator magnitude : Nat} (hpos : 0 < denominator)
    (hmagnitude : magnitude ≠ 0) (hnearest : IsNearest numerator denominator magnitude) :
    0 < numerator := by
  have hlow := hnearest.low hmagnitude
  have hvalue := Nat.mul_pos (units_pos hmagnitude) hpos
  rw [Nat.add_mul] at hlow
  omega

theorem IsNearest.not_lt {numerator denominator magnitude other : Nat} (hpos : 0 < denominator)
    (hnearest : IsNearest numerator denominator magnitude)
    (hother : IsNearest numerator denominator other) : ¬magnitude < other := by
  intro hlt
  have hhigh := hnearest.high (Nat.lt_of_lt_of_le hlt hother.le_infinite)
  have hlow := hother.low (by omega)
  have hbefore : units magnitude ≤ units (other - 1) := units_strictMono.monotone (by omega)
  have hbehind : units (magnitude + 1) ≤ units other := units_strictMono.monotone hlt
  have hsum := Nat.mul_le_mul_right denominator (Nat.add_le_add hbefore hbehind)
  -- Both halfway points are the quotient, so both magnitudes are even and not neighbours.
  have hgap : magnitude + 1 < other := by omega
  have hstrict := Nat.mul_lt_mul_of_pos_right
    (Nat.add_lt_add_of_le_of_lt hbefore (units_strictMono hgap)) hpos
  omega

theorem IsNearest.unique {numerator denominator magnitude other : Nat} (hpos : 0 < denominator)
    (hnearest : IsNearest numerator denominator magnitude)
    (hother : IsNearest numerator denominator other) : magnitude = other :=
  Nat.le_antisymm (Nat.not_lt.mp (hother.not_lt hpos hnearest))
    (Nat.not_lt.mp (hnearest.not_lt hpos hother))

theorem IsNearest.of_mul_eq {numerator denominator magnitude numerator' denominator' : Nat}
    (hpos : 0 < denominator) (hpos' : 0 < denominator')
    (heq : numerator * denominator' = numerator' * denominator)
    (hnearest : IsNearest numerator denominator magnitude) :
    IsNearest numerator' denominator' magnitude := by
  -- Bounds that leave out the halfway points are strict, and so they are after scaling.
  have hodd := Nat.mod_two_eq_zero_or_one magnitude
  constructor
  case le_infinite => exact hnearest.le_infinite
  case low =>
    intro hmagnitude
    have hlow := hnearest.low hmagnitude
    generalize units (magnitude - 1) + units magnitude = twiceLow at *
    by_contra hless
    have hscaled := Nat.mul_le_mul_right denominator' hlow
    have hscaled' := Nat.mul_le_mul_right denominator (Nat.lt_of_not_le hless)
    rcases hodd with hodd | hodd <;> rw [hodd] at hscaled hscaled' <;> nlinarith
  case high =>
    intro hfinite
    have hhigh := hnearest.high hfinite
    generalize units magnitude + units (magnitude + 1) = twiceHigh at *
    by_contra hgreater
    have hscaled := Nat.mul_le_mul_right denominator' hhigh
    have hscaled' := Nat.mul_le_mul_right denominator (Nat.lt_of_not_le hgreater)
    rcases hodd with hodd | hodd <;> rw [hodd] at hscaled hscaled' <;> nlinarith

/-- The place of a quotient is one where its leading bits fit, and fill all of it unless it
is the first. -/
theorem place_bounds {numerator denominator place : Nat} (hpos : 0 < denominator)
    (hplace : place = Nat.log2 (numerator / denominator) - 52) :
    (place = 0 ∨ Nat.pow 2 52 * (denominator * Nat.pow 2 place) ≤ numerator) ∧
      numerator < 2 * Nat.pow 2 52 * (denominator * Nat.pow 2 place) := by
  have hpow : ∀ place, Nat.pow 2 52 * (denominator * Nat.pow 2 place) =
      2 ^ (52 + place) * denominator := by
    intro place
    rw [Nat.mul_left_comm, Nat.mul_comm, Nat.pow_add]
    rfl
  have hpow' : 2 * Nat.pow 2 52 * (denominator * Nat.pow 2 place) =
      2 ^ (52 + place + 1) * denominator := by
    rw [Nat.mul_assoc, hpow, Nat.pow_succ, Nat.mul_right_comm, Nat.mul_comm 2]
  rw [hpow, hpow']
  constructor
  · by_cases hzero : place = 0
    · exact .inl hzero
    · have hquotient : numerator / denominator ≠ 0 := by
        intro hquotient
        rw [hquotient, Nat.log2_zero] at hplace
        omega
      have hbits : 52 + place = Nat.log2 (numerator / denominator) := by omega
      rw [hbits, ← Nat.le_div_iff_mul_le hpos]
      exact .inr (Nat.log2_self_le hquotient)
  · rw [← Nat.div_lt_iff_lt_mul hpos]
    have hbits : Nat.log2 (numerator / denominator) + 1 ≤ 52 + place + 1 := by omega
    exact Nat.lt_of_lt_of_le Nat.lt_log2_self (Nat.pow_le_pow_right (by decide) hbits)

/-- Bits to which a quotient is rounded at its place. -/
structure IsRounded (numerator denominator place bits : Nat) : Prop where
  fills : place = 0 ∨ Nat.pow 2 52 * (denominator * Nat.pow 2 place) ≤ numerator
  fits : numerator < 2 * Nat.pow 2 52 * (denominator * Nat.pow 2 place)
  low : 2 * (bits * (denominator * Nat.pow 2 place)) + bits % 2 ≤
    2 * numerator + denominator * Nat.pow 2 place
  high : 2 * numerator + bits % 2 ≤
    2 * (bits * (denominator * Nat.pow 2 place)) + denominator * Nat.pow 2 place

theorem isRounded_of_eq {numerator denominator place bits : Nat} (hpos : 0 < denominator)
    (hplace : place = Nat.log2 (numerator / denominator) - 52)
    (hbits : bits = divideToEven numerator (denominator * Nat.pow 2 place)) :
    IsRounded numerator denominator place bits := by
  obtain ⟨hfills, hfits⟩ := place_bounds hpos hplace
  have hunit : 0 < denominator * Nat.pow 2 place := Nat.mul_pos hpos (Nat.pow_pos (by decide))
  obtain ⟨hlow, hhigh⟩ := divideToEven_bounds numerator hunit
  rw [← hbits] at hlow hhigh
  exact ⟨hfills, hfits, hlow, hhigh⟩

namespace IsRounded

variable {numerator denominator place bits : Nat}

theorem unit_pos (hrounded : IsRounded numerator denominator place bits) :
    0 < denominator * Nat.pow 2 place :=
  Nat.pos_of_mul_pos_left (Nat.zero_lt_of_lt hrounded.fits)

theorem fills_bits (hrounded : IsRounded numerator denominator place bits) :
    place = 0 ∨ Nat.pow 2 52 ≤ bits := by
  refine hrounded.fills.imp_right fun hfills => Nat.not_lt.mp fun hless => ?_
  have hpos := hrounded.unit_pos
  have hhigh := hrounded.high
  have hmul := Nat.mul_le_mul_right (denominator * Nat.pow 2 place) hless
  rw [Nat.add_one_mul] at hmul
  omega

theorem bits_le (hrounded : IsRounded numerator denominator place bits) :
    bits ≤ 2 * Nat.pow 2 52 := by
  refine Nat.not_lt.mp fun hless => ?_
  have hfits := hrounded.fits
  have hlow := hrounded.low
  have hmul := Nat.mul_le_mul_right (denominator * Nat.pow 2 place) hless
  rw [Nat.add_one_mul] at hmul
  omega

theorem mod_two_eq (place bits : Nat) : (place * Nat.pow 2 52 + bits) % 2 = bits % 2 := by
  rw [pow_fifty_two]
  omega

theorem units_mul_eq (denominator : Nat) (hbits : place = 0 ∨ Nat.pow 2 52 ≤ bits)
    (hle : bits ≤ 2 * Nat.pow 2 52) :
    units (place * Nat.pow 2 52 + bits) * denominator =
      bits * (denominator * Nat.pow 2 place) := by
  rw [units_place hbits hle, Nat.mul_assoc, Nat.mul_comm (Nat.pow 2 place)]

theorem halfway_below_le (hrounded : IsRounded numerator denominator place bits)
    (hne : place * Nat.pow 2 52 + bits ≠ 0) :
    (units (place * Nat.pow 2 52 + bits - 1) + units (place * Nat.pow 2 52 + bits)) *
      denominator + (place * Nat.pow 2 52 + bits) % 2 ≤ 2 * numerator := by
  have hlow := hrounded.low
  have hle := hrounded.bits_le
  have hvalue := units_mul_eq denominator hrounded.fills_bits hle
  rw [mod_two_eq, Nat.add_mul, hvalue]
  by_cases hleast : place = 0 ∨ Nat.pow 2 52 < bits
  · obtain ⟨before, rfl⟩ : ∃ before, bits = before + 1 := by
      refine Nat.exists_eq_add_one_of_ne_zero ?_
      rw [pow_fifty_two] at *
      omega
    have hbefore := units_mul_eq denominator (hleast.imp_right Nat.lt_succ_iff.mp) (by omega)
    have hone : place * Nat.pow 2 52 + (before + 1) - 1 = place * Nat.pow 2 52 + before := by omega
    have hmul := Nat.add_one_mul before (denominator * Nat.pow 2 place)
    rw [hone, hbefore]
    omega
  · -- The neighbour below belongs to the place before, but it is no greater than this one, and
    -- the quotient fills its place.
    obtain ⟨hplace, hbits⟩ := not_or.mp hleast
    obtain rfl : bits = Nat.pow 2 52 :=
      Nat.le_antisymm (Nat.not_lt.mp hbits) (hrounded.fills_bits.resolve_left hplace)
    have hfills := hrounded.fills.resolve_left hplace
    have heven : Nat.pow 2 52 % 2 = 0 := by rw [pow_fifty_two]
    have hmono := Nat.mul_le_mul_right denominator
      (units_strictMono.monotone (Nat.sub_le (place * Nat.pow 2 52 + Nat.pow 2 52) 1))
    omega

theorem le_halfway_above (hrounded : IsRounded numerator denominator place bits) :
    2 * numerator + (place * Nat.pow 2 52 + bits) % 2 ≤
      (units (place * Nat.pow 2 52 + bits) + units (place * Nat.pow 2 52 + bits + 1)) *
        denominator := by
  have hhigh := hrounded.high
  have hle := hrounded.bits_le
  have hvalue := units_mul_eq denominator hrounded.fills_bits hle
  rw [mod_two_eq, Nat.add_mul, hvalue]
  by_cases hgreatest : bits < 2 * Nat.pow 2 52
  · have hfills : place = 0 ∨ Nat.pow 2 52 ≤ bits + 1 :=
      hrounded.fills_bits.imp_right fun hfills => Nat.le_succ_of_le hfills
    have hbehind := units_mul_eq denominator hfills hgreatest
    have hmul := Nat.add_one_mul bits (denominator * Nat.pow 2 place)
    rw [Nat.add_assoc, hbehind]
    omega
  · -- The neighbour above belongs to the place behind, but it is no less than this one, and the
    -- quotient fits into its place.
    obtain rfl : bits = 2 * Nat.pow 2 52 := Nat.le_antisymm hle (Nat.not_lt.mp hgreatest)
    have hfits := hrounded.fits
    have heven : 2 * Nat.pow 2 52 % 2 = 0 := by rw [pow_fifty_two]
    have hmono := Nat.mul_le_mul_right denominator
      (units_strictMono.monotone (Nat.le_add_right (place * Nat.pow 2 52 + 2 * Nat.pow 2 52) 1))
    omega

end IsRounded

/-- A quotient beyond all finite values is rounded to infinity. -/
theorem isNearest_min {numerator denominator magnitude : Nat}
    (hlow : magnitude ≠ 0 → (units (magnitude - 1) + units magnitude) * denominator +
      magnitude % 2 ≤ 2 * numerator)
    (hhigh : 2 * numerator + magnitude % 2 ≤
      (units magnitude + units (magnitude + 1)) * denominator) :
    IsNearest numerator denominator (min magnitude infiniteMagnitude) := by
  rcases Nat.le_total magnitude infiniteMagnitude with hle | hge
  · rw [Nat.min_eq_left hle]
    exact ⟨hle, hlow, fun _ => hhigh⟩
  · rw [Nat.min_eq_right hge]
    refine ⟨Nat.le_refl _, fun _ => ?_, fun hlt => absurd hlt (Nat.lt_irrefl _)⟩
    have hpos : 0 < infiniteMagnitude := by decide
    have hlow := hlow (by omega)
    have hbefore : units (infiniteMagnitude - 1) ≤ units (magnitude - 1) :=
      units_strictMono.monotone (Nat.sub_le_sub_right hge 1)
    have hsum := Nat.mul_le_mul_right denominator
      (Nat.add_le_add hbefore (units_strictMono.monotone hge))
    have heven : infiniteMagnitude % 2 = 0 := by decide
    omega

theorem exists_nearest_eq (numerator denominator : Nat) :
    ∃ scaled place bits, scaled = numerator * Nat.pow 2 1074 ∧
      place = Nat.log2 (scaled / denominator) - 52 ∧
      bits = divideToEven scaled (denominator * Nat.pow 2 place) ∧
      nearest numerator denominator = min (place * Nat.pow 2 52 + bits) infiniteMagnitude :=
  ⟨_, _, _, rfl, rfl, rfl, rfl⟩

theorem isNearest_nearest (numerator : Nat) {denominator : Nat} (hpos : 0 < denominator) :
    IsNearest (numerator * Nat.pow 2 1074) denominator (nearest numerator denominator) := by
  obtain ⟨scaled, place, bits, hscaled, hplace, hbits, heq⟩ :=
    exists_nearest_eq numerator denominator
  have hrounded := isRounded_of_eq hpos hplace hbits
  rw [heq, ← hscaled]
  exact isNearest_min hrounded.halfway_below_le hrounded.le_halfway_above

theorem nearest_eq {numerator denominator magnitude : Nat} (hpos : 0 < denominator)
    (hnearest : IsNearest (numerator * Nat.pow 2 1074) denominator magnitude) :
    nearest numerator denominator = magnitude :=
  (isNearest_nearest numerator hpos).unique hpos hnearest

end Binary64

end LoxLexer
