import LoxLexer.Proofs.Listing
import LoxLexer.Proofs.Number.Rounding

/-!
# The literals of numbers

A number token is a decimal: digits, with or without a point and further digits behind
them.  Each digit counts by its place, however many there are (`placeValue`).  The literal
of the token is the double to which this exact number is rounded, and no other pattern, so
it is neither negative nor without a value.  The text itself is read as this double: a scan
never has to put the value that is no number in its place.
-/

namespace LoxLexer

/-- The number that digits stand for when the first of them counts `10 ^ place`. -/
def placeValue (place : ℤ) : List Char → ℚ
  | [] => 0
  | c :: digits => digitValue c * 10 ^ place + placeValue (place - 1) digits

/-- A decimal, and the number that it stands for.  The last digit of the whole part counts
as it is. -/
inductive IsDecimal : List Char → ℚ → Prop where
  | whole {digits : List Char} (hne : digits ≠ []) (hdigits : ∀ c ∈ digits, isDigit c) :
      IsDecimal digits (placeValue (digits.length - 1) digits)
  | pointed {whole fraction : List Char} (hwhole : whole ≠ []) (hfraction : fraction ≠ [])
      (hdigits : ∀ c ∈ whole ++ fraction, isDigit c) :
      IsDecimal (whole ++ '.' :: fraction) (placeValue (whole.length - 1) (whole ++ fraction))

/-- A token whose text is a decimal, and is read as a double.  This is the literal of the
token, and the one double to which the decimal is rounded. -/
def Token.HoldsDecimal (token : Token) : Prop :=
  ∃ number x, IsDecimal token.lexeme.toList number ∧ Binary64.parse? token.lexeme = some x ∧
    token.literal = some (.number x) ∧ ∀ y : Binary64, y.RoundsTo number ↔ y = x

theorem digitsValue_cons (c : Char) (digits : List Char) :
    digitsValue (c :: digits) =
      digitValue c * Nat.pow 10 digits.length + digitsValue digits := by
  have hvalue : Nat.ofDigitChars 10 (c :: digits) 0 =
      10 ^ digits.length * (10 * 0 + digitValue c) + Nat.ofDigitChars 10 digits 0 := by
    rw [Nat.ofDigitChars_cons, Nat.ofDigitChars_eq_ofDigitChars_zero]
    rfl
  rw [digitsValue_eq_ofDigitChars, digitsValue_eq_ofDigitChars, hvalue, Nat.mul_zero, Nat.zero_add,
    Nat.mul_comm]
  rfl

theorem placeValue_eq (place : ℤ) (digits : List Char) :
    placeValue place digits = digitsValue digits * 10 ^ (place + 1 - digits.length) := by
  induction digits generalizing place with
  | nil => simp [placeValue, digitsValue]
  | cons c digits ih =>
      have htail : place - 1 + 1 - (digits.length : ℤ) = place + 1 - (digits.length + 1 : ℕ) := by
        omega
      have hhead : (10 : ℚ) ^ place =
          10 ^ (place + 1 - (digits.length + 1 : ℕ)) * 10 ^ digits.length := by
        rw [← zpow_natCast, ← zpow_add₀ (by decide)]
        congr 1
        omega
      have hvalue : ((digitsValue (c :: digits) : ℕ) : ℚ) =
          digitValue c * 10 ^ digits.length + digitsValue digits := by
        rw [digitsValue_cons, Nat.cast_add, Nat.cast_mul]
        exact congrArg (fun power => _ * power + _) (Nat.cast_pow 10 _)
      rw [placeValue, ih, hvalue, List.length_cons, htail, hhead]
      ring

/-- The digits on both sides of a point, read as one whole number, are divided by a power of
ten for those behind it. -/
theorem placeValue_append (whole fraction : List Char) :
    placeValue (whole.length - 1) (whole ++ fraction) =
      (digitsValue (whole ++ fraction) : ℚ) / (Nat.pow 10 fraction.length : ℕ) := by
  have hpower : (whole.length : ℤ) - 1 + 1 - (whole ++ fraction).length = -fraction.length := by
    rw [List.length_append]
    omega
  have hcast : ((Nat.pow 10 fraction.length : ℕ) : ℚ) = 10 ^ fraction.length := Nat.cast_pow 10 _
  rw [placeValue_eq, hpower, zpow_neg, zpow_natCast, hcast, div_eq_mul_inv]

theorem roundsTo_ofDecimal {whole fraction : List Char} (hwhole : ∀ c ∈ whole, isDigit c)
    {text : List Char} (htext : text = whole ++ '.' :: fraction ∨ text = whole ∧ fraction = []) :
    (Binary64.ofDecimal text).RoundsTo
      (placeValue (whole.length - 1) (whole ++ fraction)) := by
  rw [placeValue_append, Binary64.ofDecimal_eq hwhole htext]
  exact Binary64.roundsTo_nearest _ (Nat.pow_pos (by decide))

theorem Belongs.exists_decimal {text piece : List Char} (hbelongs : Belongs text .number piece) :
    ∃ number, IsDecimal piece number ∧ (Binary64.ofDecimal piece).RoundsTo number := by
  cases hbelongs with
  | whole hne hdigits =>
      have hrounds := roundsTo_ofDecimal hdigits (.inr ⟨rfl, rfl⟩)
      rw [List.append_nil] at hrounds
      exact ⟨_, .whole hne hdigits, hrounds⟩
  | decimal hwhole hfraction hdigits =>
      have hbefore := fun c hc => hdigits c (List.mem_append_left _ hc)
      exact ⟨_, .pointed hwhole hfraction hdigits, roundsTo_ofDecimal hbefore (.inl rfl)⟩

theorem Element.IsToken.of_number {element : Element} {kind : Kind} {literal : Option Literal}
    (hsound : element.Sound) (htoken : element.IsToken kind literal) (hkind : kind = .number) :
    element.form = .number ∧ literal = some (.number (.ofDecimal element.text)) := by
  cases htoken with
  | string => cases hkind
  | number digits => exact ⟨rfl, rfl⟩
  | reserved hreserved => exact absurd hkind (kind_of_mem_reservedWords hreserved).2
  | identifier => cases hkind
  | symbol kind piece =>
      obtain ⟨rest, hbelongs⟩ := hsound.belongs (by simp)
      cases hbelongs with
      | symbol hsymbol => exact absurd hkind (of_mem_symbols hsymbol).2.2

theorem holdsDecimal_of_mem {source : String} {token : Token}
    (hmem : token ∈ (boundedScan source).tokens) (hkind : token.kind = .number) :
    token.HoldsDecimal := by
  rw [tokens_boundedScan, List.mem_append, List.mem_singleton] at hmem
  rcases hmem with hmem | rfl
  · obtain ⟨placed, hplaced, houtcome⟩ := mem_tokensOf.mp hmem
    have hsound := sound_of_mem_placedElements hplaced
    obtain ⟨htoken, hlexeme⟩ := reads_of_outcome hsound houtcome
    obtain ⟨hform, hliteral⟩ := htoken.of_number hsound hkind
    obtain ⟨rest, hbelongs⟩ := hsound.belongs (by simp [hform])
    rw [hform] at hbelongs
    obtain ⟨number, hdecimal, hrounds⟩ := hbelongs.exists_decimal
    refine ⟨number, _, ?_, ?_, hliteral, fun y => ⟨fun hy => hy.unique hrounds, ?_⟩⟩
    · rwa [hlexeme, String.toList_ofList]
    · rw [hlexeme, hbelongs.parse?_eq]
    · rintro rfl
      exact hrounds
  · cases hkind

/-- Each number in a bounded source is a decimal, and is read as the double to which its
exact value is rounded. -/
theorem scan_roundsNumbers {source : String} (hbounded : Bounded source) :
    ∃ found, scan source = .ok found ∧
      ∀ token ∈ found.tokens, token.kind = .number → token.HoldsDecimal :=
  ⟨boundedScan source, scan_of_bounded hbounded, fun _ => holdsDecimal_of_mem⟩

theorem scan_roundsNumbers_of_halfway :
    Bounded "9007199254740993 9007199254740993.0001. 00.1" ∧
      ∃ found, scan "9007199254740993 9007199254740993.0001. 00.1" = .ok found ∧
        ∀ token ∈ found.tokens, token.kind = .number → token.HoldsDecimal :=
  have hbounded : Bounded "9007199254740993 9007199254740993.0001. 00.1" := by decide
  ⟨hbounded, scan_roundsNumbers hbounded⟩

end LoxLexer
