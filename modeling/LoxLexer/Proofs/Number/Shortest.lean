import LoxLexer.Number.Shortest
import LoxLexer.Proofs.Number.Nearest

/-!
# Shortest decimals read back

The search for a shortest decimal only ever takes one from the interval of the decimals
that read back (`Interval.exists_contains_shortest`), whichever of two equally near ones it
takes and wherever it starts.  So the double nearest to the decimal, however its value is
written as a quotient, is the one that the search began with (`nearest_of_shortest`).
-/

namespace LoxLexer

namespace Decimal

/-- The decimal as a quotient: its value is `numerator / denominator`. -/
def IsQuotient (x : Decimal) (numerator denominator : Nat) : Prop :=
  numerator * Nat.pow 10 (-x.exponent).toNat =
    x.coefficient * Nat.pow 10 x.exponent.toNat * denominator

theorem pow_pos (base exponent : Nat) (hbase : 0 < base) : 0 < Nat.pow base exponent :=
  Nat.pow_pos hbase

theorem pow_two_mul_pow_five (exponent : Nat) :
    Nat.pow 2 exponent * Nat.pow 5 exponent = Nat.pow 10 exponent :=
  (Nat.mul_pow 2 5 exponent).symm

theorem pow_ten_add (exponent more : Nat) :
    Nat.pow 10 (exponent + more) = Nat.pow 10 exponent * Nat.pow 10 more :=
  Nat.pow_add 10 exponent more

/-- An exponent may be split into powers that go up and down. -/
theorem isQuotient_iff {x : Decimal} {numerator denominator up down : Nat}
    (hexponent : x.exponent = up - (down : Int)) :
    x.IsQuotient numerator denominator ↔
      numerator * Nat.pow 10 down = x.coefficient * Nat.pow 10 up * denominator := by
  have hup : up = min up down + x.exponent.toNat := by omega
  have hdown : down = min up down + (-x.exponent).toNat := by omega
  generalize min up down = common at hup hdown
  have hpos := pow_pos 10 common (by decide)
  unfold IsQuotient
  rw [hup, hdown, pow_ten_add, pow_ten_add, ← Nat.mul_right_inj (Nat.ne_of_gt hpos)]
  constructor
  · intro heq
    calc numerator * (Nat.pow 10 common * Nat.pow 10 (-x.exponent).toNat)
        = Nat.pow 10 common * (numerator * Nat.pow 10 (-x.exponent).toNat) := by ac_rfl
      _ = Nat.pow 10 common * (x.coefficient * Nat.pow 10 x.exponent.toNat * denominator) := heq
      _ = x.coefficient * (Nat.pow 10 common * Nat.pow 10 x.exponent.toNat) * denominator := by
          ac_rfl
  · intro heq
    calc Nat.pow 10 common * (numerator * Nat.pow 10 (-x.exponent).toNat)
        = numerator * (Nat.pow 10 common * Nat.pow 10 (-x.exponent).toNat) := by ac_rfl
      _ = x.coefficient * (Nat.pow 10 common * Nat.pow 10 x.exponent.toNat) * denominator := heq
      _ = Nat.pow 10 common * (x.coefficient * Nat.pow 10 x.exponent.toNat * denominator) := by
          ac_rfl

-- The scale is kept from view, so that no step has to evaluate it.
theorem exists_scale (least : Nat) :
    ∃ scale, 0 < scale ∧ scale = Nat.pow 5 least ∧
      Nat.pow 2 least * scale = Nat.pow 10 least :=
  ⟨Nat.pow 5 least, pow_pos 5 least (by decide), rfl, pow_two_mul_pow_five least⟩

namespace Interval

def scaled (magnitude scale : Nat) : Interval where
  value := Binary64.units magnitude * scale
  twiceLow := (Binary64.units (magnitude - 1) + Binary64.units magnitude) * scale
  twiceHigh := (Binary64.units magnitude + Binary64.units (magnitude + 1)) * scale
  closed := magnitude % 2 == 0

theorem ofMagnitude_eq_scaled (magnitude : Nat) {scale : Nat} (hscale : scale = Nat.pow 5 1074) :
    ofMagnitude magnitude = scaled magnitude scale := by
  rw [hscale]
  rfl

variable {magnitude scale decimal : Nat}

theorem contains_value (hmagnitude : magnitude ≠ 0) (hscale : 0 < scale) :
    (scaled magnitude scale).contains (scaled magnitude scale).value = true := by
  have hbelow : Binary64.units (magnitude - 1) < Binary64.units magnitude :=
    Binary64.units_strictMono (by omega)
  have hlow := Nat.mul_lt_mul_of_pos_right hbelow hscale
  have hhigh := Nat.mul_lt_mul_of_pos_right (Binary64.units_lt_units_succ magnitude) hscale
  unfold contains scaled
  dsimp only
  rw [Nat.add_mul, Nat.add_mul]
  split <;> simp only [Bool.and_eq_true, decide_eq_true_eq] <;> omega

theorem isNearest_of_contains (hfinite : magnitude < Binary64.infiniteMagnitude)
    (hcontains : (scaled magnitude scale).contains decimal = true) :
    Binary64.IsNearest decimal scale magnitude := by
  unfold contains scaled at hcontains
  dsimp only at hcontains
  rcases Nat.mod_two_eq_zero_or_one magnitude with hmod | hmod
  · rw [hmod, if_pos (by decide), Bool.and_eq_true, decide_eq_true_eq, decide_eq_true_eq]
      at hcontains
    exact ⟨Nat.le_of_lt hfinite, fun _ => by omega, fun _ => by omega⟩
  · rw [hmod, if_neg (by decide), Bool.and_eq_true, decide_eq_true_eq, decide_eq_true_eq]
      at hcontains
    exact ⟨Nat.le_of_lt hfinite, fun _ => by omega, fun _ => by omega⟩

/-- Whatever the search comes to lies in the interval, if the value does. -/
theorem exists_contains_shortest {interval : Interval}
    (hvalue : interval.contains interval.value = true) (tie : TieRule) (step : Nat) :
    ∃ place : Nat, (interval.shortest tie step).exponent = place - ((1074 : Nat) : Int) ∧
      interval.contains ((interval.shortest tie step).coefficient * Nat.pow 10 place) = true := by
  induction step with
  | zero => exact ⟨0, rfl, (congrArg interval.contains (Nat.mul_one _)).trans hvalue⟩
  | succ step ih =>
      unfold shortest
      dsimp only
      generalize interval.value / Nat.pow 10 (step + 1) = below
      cases hbelow : interval.contains (below * Nat.pow 10 (step + 1)) with
      | false =>
          cases habove : interval.contains ((below + 1) * Nat.pow 10 (step + 1)) with
          | false => exact ih
          | true => exact ⟨step + 1, rfl, habove⟩
      | true =>
          cases habove : interval.contains ((below + 1) * Nat.pow 10 (step + 1)) with
          | false => exact ⟨step + 1, rfl, hbelow⟩
          | true =>
              refine ⟨step + 1, ?_⟩
              dsimp only
              split
              · exact ⟨rfl, hbelow⟩
              · exact ⟨rfl, habove⟩
              · exact ⟨rfl, habove⟩
              · refine ⟨rfl, ?_⟩
                rcases Nat.mod_two_eq_zero_or_one below with hmod | hmod
                · rw [hmod]
                  exact hbelow
                · rw [hmod]
                  exact habove

theorem exists_isNearest_shortest (hmagnitude : magnitude ≠ 0) (hscale : 0 < scale)
    (hfinite : magnitude < Binary64.infiniteMagnitude) (tie : TieRule) (step : Nat) :
    ∃ place : Nat,
      ((scaled magnitude scale).shortest tie step).exponent = place - ((1074 : Nat) : Int) ∧
      Binary64.IsNearest
        (((scaled magnitude scale).shortest tie step).coefficient * Nat.pow 10 place)
        scale magnitude := by
  obtain ⟨place, hexponent, hcontains⟩ :=
    exists_contains_shortest (contains_value hmagnitude hscale) tie step
  exact ⟨place, hexponent, isNearest_of_contains hfinite hcontains⟩

end Interval

variable {magnitude : Nat} {tie : TieRule}

/-- The shortest decimal of a magnitude lies on the grid of `10 ^ -1074`, where it is
rounded to that magnitude. -/
theorem exists_isNearest_shortest (hfinite : magnitude < Binary64.infiniteMagnitude)
    (tie : TieRule) :
    ∃ place scale : Nat, 0 < scale ∧ Nat.pow 2 1074 * scale = Nat.pow 10 1074 ∧
      (shortest tie magnitude).exponent = place - ((1074 : Nat) : Int) ∧
      Binary64.IsNearest ((shortest tie magnitude).coefficient * Nat.pow 10 place) scale
        magnitude := by
  obtain ⟨scale, hpos, hfive, hscale⟩ := exists_scale 1074
  have hinterval := Interval.ofMagnitude_eq_scaled magnitude hfive
  unfold shortest
  by_cases hmagnitude : magnitude = 0
  · rw [if_pos hmagnitude, hmagnitude]
    refine ⟨1074, scale, hpos, hscale, (Int.sub_self _).symm, ?_⟩
    dsimp only
    rw [Nat.zero_mul]
    exact Binary64.isNearest_zero scale
  · rw [if_neg hmagnitude, hinterval]
    obtain ⟨place, hexponent, hnearest⟩ :=
      Interval.exists_isNearest_shortest hmagnitude hpos hfinite tie _
    exact ⟨place, scale, hpos, hscale, hexponent, hnearest⟩

theorem coefficient_shortest_pos (hmagnitude : magnitude ≠ 0)
    (hfinite : magnitude < Binary64.infiniteMagnitude) (tie : TieRule) :
    0 < (shortest tie magnitude).coefficient := by
  obtain ⟨place, scale, hpos, -, -, hnearest⟩ := exists_isNearest_shortest hfinite tie
  exact Nat.pos_of_mul_pos_right (hnearest.numerator_pos hpos hmagnitude)

/-- The value of a shortest decimal, written as a quotient, is rounded to the double that
the decimal is for. -/
theorem nearest_of_shortest {numerator denominator : Nat}
    (hfinite : magnitude < Binary64.infiniteMagnitude) (hpos : 0 < denominator)
    (hquotient : (shortest tie magnitude).IsQuotient numerator denominator) :
    Binary64.nearest numerator denominator = magnitude := by
  obtain ⟨place, scale, hscalePos, hscale, hexponent, hnearest⟩ :=
    exists_isNearest_shortest hfinite tie
  refine Binary64.nearest_eq hpos (hnearest.of_mul_eq hscalePos hpos ?_)
  calc (shortest tie magnitude).coefficient * Nat.pow 10 place * denominator
      = numerator * Nat.pow 10 1074 := ((isQuotient_iff hexponent).mp hquotient).symm
    _ = numerator * (Nat.pow 2 1074 * scale) := congrArg (numerator * ·) hscale.symm
    _ = numerator * Nat.pow 2 1074 * scale := (Nat.mul_assoc _ _ _).symm

end Decimal

end LoxLexer
