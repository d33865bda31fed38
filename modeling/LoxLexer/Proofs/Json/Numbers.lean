import LoxLexer.Proofs.Json.Reader
import LoxLexer.Proofs.Number.Layout
import LoxLexer.Proofs.Stretch

/-!
# Numbers are read back

A number is read from its text up to where it ends, whatever follows (`readNumber_text`).
The text of a finite double is that of a number which is not whole, and whose exact value is
the shortest decimal of the double; so it stands for the same double again
(`exists_realText_eq`).
-/

namespace LoxLexer

namespace Json

namespace Number

def Proper (number : Number) : Prop :=
  Layout.AreDigits number.whole number.fraction

def exponentText (number : Number) : List Char :=
  (number.exponent.map Layout.exponentText).getD []

def text (number : Number) : List Char :=
  (if number.negative then ['-'] else []) ++
    (number.whole ++ (Layout.pointed number.fraction ++ number.exponentText))

end Number

/-- A text with which no number goes on. -/
def EndsNumber (rest : List Char) : Prop :=
  ∀ c ∈ rest.head?, isDigit c = false ∧ c ≠ '.' ∧ c ≠ 'e' ∧ c ≠ 'E'

variable {number : Number} {digits rest : List Char}

theorem EndsNumber.head_ne {c : Char} (hends : EndsNumber rest) (hc : c = '.' ∨ c = 'e' ∨ c = 'E') :
    rest.head? ≠ some c := by
  intro hhead
  obtain ⟨-, hpoint, hlower, hupper⟩ := hends c hhead
  exact hc.elim hpoint fun hc => hc.elim hlower hupper

theorem readDigits_append (hne : digits ≠ []) (hdigits : ∀ c ∈ digits, isDigit c)
    (hrest : ∀ c ∈ rest.head?, isDigit c = false) :
    readDigits (digits ++ rest) = some (digits, rest) := by
  rw [readDigits, takeWhile_eq_of_append hdigits hrest, dropWhile_eq_of_append hdigits hrest,
    if_neg (mt List.isEmpty_iff.mp hne)]

theorem readWhole_append (hproper : number.Proper) (hrest : ∀ c ∈ rest.head?, isDigit c = false) :
    readWhole (number.whole ++ rest) = some (number.whole, rest) := by
  unfold readWhole
  rw [List.head?_append_of_ne_nil _ hproper.whole_ne_nil]
  split
  · rename_i hzero
    rw [hproper.eq_zero hzero]
    rfl
  · exact readDigits_append hproper.whole_ne_nil hproper.isDigit_whole hrest

theorem readFraction_append (hproper : number.Proper)
    (hrest : ∀ c ∈ rest.head?, isDigit c = false) (hpoint : rest.head? ≠ some '.') :
    readFraction (Layout.pointed number.fraction ++ rest) = some (number.fraction, rest) := by
  unfold readFraction Layout.pointed
  cases hfraction : number.fraction with
  | nil => exact if_neg hpoint
  | cons c fraction =>
      have hdigits := hproper.isDigit_fraction
      rw [hfraction] at hdigits
      exact readDigits_append (List.cons_ne_nil c fraction) hdigits hrest

theorem readPower_exponentText (hrest : ∀ c ∈ rest.head?, isDigit c = false) (exponent : Int) :
    readPower ((Layout.exponentText exponent).tail ++ rest) = some (exponent, rest) := by
  have hdigits : ∀ n, readDigits (decimalDigits n ++ rest) = some (decimalDigits n, rest) :=
    fun n => readDigits_append (decimalDigits_ne_nil n) (fun c => isDigit_of_mem_decimalDigits)
      hrest
  cases exponent with
  | ofNat exponent => simp [Layout.exponentText, readPower, hdigits]
  | negSucc exponent =>
      have hread : readPower ('-' :: (decimalDigits (exponent + 1) ++ rest)) =
          some (-((exponent + 1 : Nat) : Int), rest) := by
        simp [readPower, hdigits]
      exact hread

theorem readExponent_append (hends : EndsNumber rest) :
    readExponent (number.exponentText ++ rest) = some (number.exponent, rest) := by
  unfold readExponent Number.exponentText
  cases number.exponent with
  | none =>
      refine if_neg fun hletter => ?_
      exact hletter.elim (hends.head_ne (.inr (.inl rfl))) (hends.head_ne (.inr (.inr rfl)))
  | some exponent =>
      have hletter : (Layout.exponentText exponent ++ rest).head? = some 'e' := by
        cases exponent <;> rfl
      have htail : (Layout.exponentText exponent ++ rest).tail =
          (Layout.exponentText exponent).tail ++ rest := by
        cases exponent <;> rfl
      rw [Option.map_some, Option.getD_some, if_pos (.inl hletter), htail,
        readPower_exponentText fun c hc => (hends c hc).1]
      rfl

theorem head_exponentText (hends : EndsNumber rest) :
    ∀ c ∈ (number.exponentText ++ rest).head?, isDigit c = false ∧ c ≠ '.' := by
  unfold Number.exponentText
  cases number.exponent with
  | none => exact fun c hc => ⟨(hends c hc).1, (hends c hc).2.1⟩
  | some exponent =>
      intro c hc
      obtain rfl : 'e' = c := by
        cases exponent <;> exact Option.some.inj hc
      decide

theorem head_pointed (hends : EndsNumber rest) :
    ∀ c ∈ (Layout.pointed number.fraction ++ (number.exponentText ++ rest)).head?,
      isDigit c = false := by
  unfold Layout.pointed
  intro c hc
  split at hc
  · exact (head_exponentText hends c hc).1
  · obtain rfl : '.' = c := Option.some.inj hc
    decide

theorem readNumber_text (hproper : number.Proper) (hends : EndsNumber rest) :
    readNumber (number.text ++ rest) = some (number, rest) := by
  have hsign : readSign (number.text ++ rest) = (number.negative,
      number.whole ++ (Layout.pointed number.fraction ++ (number.exponentText ++ rest))) := by
    obtain ⟨negative, whole, fraction, exponent⟩ := number
    unfold Number.text
    simp only [List.append_assoc]
    cases negative with
    | true => rfl
    | false =>
        obtain ⟨c, more, rfl⟩ := List.exists_cons_of_ne_nil hproper.whole_ne_nil
        have hdigit := hproper.isDigit_whole c List.mem_cons_self
        refine if_neg fun hhead => ?_
        obtain rfl : c = '-' := Option.some.inj hhead
        exact absurd hdigit (by decide)
  unfold readNumber
  rw [hsign]
  simp only [Option.bind_eq_bind, readWhole_append hproper (head_pointed hends),
    readFraction_append hproper (fun c hc => (head_exponentText hends c hc).1)
      (fun hhead => (head_exponentText hends '.' hhead).2 rfl),
    readExponent_append hends, Option.bind_some]
  rfl

theorem exists_decimalDigits_eq (n : Nat) :
    ∃ number : Number, number.Proper ∧ decimalDigits n = number.text ∧
      number.value = .integer n := by
  refine ⟨⟨false, decimalDigits n, [], none⟩, ?_, ?_, ?_⟩
  · have hplaces := Layout.places_take (Layout.length_decimalDigits_pos n) (Nat.le_refl _)
    rw [List.take_length, List.drop_length] at hplaces
    exact hplaces.toAreDigits
  · simp [Number.text, Number.exponentText, Layout.pointed]
  · exact congrArg Json.integer (digitsValue_decimalDigits n)

namespace Number

variable {x : Binary64}

theorem isQuotient {coefficient : Nat} {exponent : Int}
    (hplaces : Layout.Places ⟨coefficient, exponent - number.exponent.getD 0⟩ number.whole
      number.fraction) :
    Decimal.IsQuotient ⟨coefficient, exponent⟩ number.numerator number.denominator := by
  unfold numerator denominator
  generalize number.exponent.getD 0 = power at *
  have hshift : exponent - power = ((exponent.toNat + (-power).toNat : Nat) : Int) -
      (((-exponent).toNat + power.toNat : Nat) : Int) := by omega
  have hquotient := (Decimal.isQuotient_iff hshift).mp hplaces.isQuotient
  simp only [Decimal.pow_ten_add] at hquotient
  unfold Decimal.IsQuotient
  rw [Decimal.pow_ten_add]
  calc digitsValue (number.whole ++ number.fraction) * Nat.pow 10 power.toNat *
        Nat.pow 10 (-exponent).toNat
      = digitsValue (number.whole ++ number.fraction) *
          (Nat.pow 10 (-exponent).toNat * Nat.pow 10 power.toNat) := by ac_rfl
    _ = coefficient * (Nat.pow 10 exponent.toNat * Nat.pow 10 (-power).toNat) *
          Nat.pow 10 number.fraction.length := hquotient
    _ = coefficient * Nat.pow 10 exponent.toNat *
          (Nat.pow 10 number.fraction.length * Nat.pow 10 (-power).toNat) := by ac_rfl

/-- A number that is not whole stands for a double if its value is the shortest decimal of
the double. -/
theorem value_eq_real (hfinite : x.isFinite = true) (hnegative : number.negative = x.isNegative)
    (hwhole : number.isWhole = false)
    (hquotient : (Decimal.shortest .even x.magnitude).IsQuotient number.numerator
      number.denominator) :
    number.value = .real x := by
  have hpos : 0 < number.denominator := Decimal.pow_pos 10 _ (by decide)
  have hnearest := Decimal.nearest_of_shortest (of_decide_eq_true hfinite) hpos hquotient
  rw [value, hwhole, hnegative, hnearest, Binary64.ofMagnitude_magnitude]
  rfl

end Number

/-- The text of a decimal is that of the digits and the exponent of a number that is not
whole. -/
theorem exists_decimal_eq {x : Decimal} (hproper : x.IsProper) (negative : Bool) :
    ∃ number : Number, number.negative = negative ∧ number.Proper ∧ number.isWhole = false ∧
      x.IsQuotient number.numerator number.denominator ∧
      realLayout.decimal x = number.whole ++ (Layout.pointed number.fraction ++
        number.exponentText) := by
  cases hpositional : realLayout.isPositional (Layout.leading x) with
  | true =>
      obtain ⟨whole, fraction, hplaces, hkeeps, htext⟩ :=
        Layout.exists_positional_eq realLayout hproper
      have hwhole : Number.isWhole ⟨negative, whole, fraction, none⟩ = false := by
        simp [Number.isWhole, hkeeps rfl]
      refine ⟨⟨negative, whole, fraction, none⟩, rfl, hplaces.toAreDigits, hwhole, ?_, ?_⟩
      · exact Number.isQuotient (by rw [Option.getD_none, Int.sub_zero]; exact hplaces)
      · simp only [Number.exponentText, Option.map_none, Option.getD_none, List.append_nil]
        exact (if_pos hpositional).trans htext
  | false =>
      obtain ⟨whole, fraction, hplaces, htext⟩ := Layout.exists_scientific_eq x
      have hwhole :
          Number.isWhole ⟨negative, whole, fraction, some (Layout.leading x)⟩ = false := by
        simp [Number.isWhole]
      refine ⟨⟨negative, whole, fraction, some (Layout.leading x)⟩, rfl, hplaces.toAreDigits,
        hwhole, Number.isQuotient hplaces, ?_⟩
      rw [← List.append_assoc]
      exact (if_neg (Bool.eq_false_iff.mp hpositional)).trans htext

/-- The text of a finite double is that of a number which stands for it. -/
theorem exists_realText_eq {x : Binary64} (hfinite : x.isFinite = true) :
    ∃ number : Number, number.Proper ∧ realText x = number.text ∧ number.value = .real x := by
  have hshortest := Decimal.isProper_shortest (of_decide_eq_true hfinite) .even
  obtain ⟨number, hnegative, hproper, hwhole, hquotient, htext⟩ :=
    exists_decimal_eq hshortest x.isNegative
  refine ⟨number, hproper, ?_, Number.value_eq_real hfinite hnegative hwhole hquotient⟩
  have hlayout : realLayout.tie = .even := rfl
  rw [realText, if_pos hfinite, Layout.write, hlayout, htext, Number.text, hnegative]
  cases x.isNegative <;> rfl

end Json

end LoxLexer
