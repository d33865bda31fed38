import LoxLexer.Number.Parse
import LoxLexer.Proofs.Grammar

/-!
# Numbers of the grammar stand for doubles

A number of the source language has digits in front of its point and behind it, and neither
a sign nor an exponent.  So it always stands for a double, which is the one nearest to its
digits over a power of ten (`Belongs.parse?_eq`), and the value that is no number is
never taken in its place.
-/

namespace LoxLexer

/-- The double nearest to digits, which may be followed by a point and further digits. -/
def Binary64.ofDecimal (text : List Char) : Binary64 :=
  let whole := text.takeWhile isDigit
  let fraction := (text.dropWhile isDigit).drop 1
  ofMagnitude false (nearest (digitsValue (whole ++ fraction)) (Nat.pow 10 fraction.length))

namespace Binary64

variable {c : Char} {text whole fraction : List Char}

theorem splitSign_of_isDigit (hc : isDigit c) : splitSign (c :: text) = (false, c :: text) := by
  rw [splitSign]
  · rintro _ ⟨⟩
    exact absurd hc (by decide)
  · rintro _ ⟨⟩
    exact absurd hc (by decide)

/-- No name begins with a digit. -/
theorem magnitude?_of_isDigit (hc : isDigit c) : magnitude? (c :: text) = number? (c :: text) := by
  have hall : ∀ n < 128, isDigit (Char.ofNat n) →
      (Char.ofNat n).toLower ≠ 'i' ∧ (Char.ofNat n).toLower ≠ 'n' := by
    decide
  have hlower := hall c.toNat (toNat_lt_of_isDigit hc)
  rw [Char.ofNat_toNat] at hlower
  simp [magnitude?, hlower hc]

/-- The first digits of a decimal end where its point or the decimal itself ends. -/
theorem stretch_of_decimal (hwhole : ∀ d ∈ whole, isDigit d)
    (htext : text = whole ++ '.' :: fraction ∨ text = whole ∧ fraction = []) :
    text.takeWhile isDigit = whole ∧ text.dropWhile isDigit = text.drop whole.length := by
  rcases htext with rfl | ⟨rfl, rfl⟩
  · have hpoint : ∀ d ∈ ('.' :: fraction).head?, isDigit d = false := by
      rintro d ⟨⟩
      decide
    rw [List.drop_left]
    exact ⟨takeWhile_eq_of_append hwhole hpoint, dropWhile_eq_of_append hwhole hpoint⟩
  · rw [List.drop_length]
    exact ⟨List.takeWhile_eq_self_iff.mpr hwhole, List.dropWhile_eq_nil_iff.mpr hwhole⟩

theorem ofDecimal_eq (hwhole : ∀ d ∈ whole, isDigit d)
    (htext : text = whole ++ '.' :: fraction ∨ text = whole ∧ fraction = []) :
    ofDecimal text = ofMagnitude false
      (nearest (digitsValue (whole ++ fraction)) (Nat.pow 10 fraction.length)) := by
  have hparts := stretch_of_decimal hwhole htext
  rw [ofDecimal, hparts.1, hparts.2]
  rcases htext with rfl | ⟨rfl, rfl⟩
  · rw [List.drop_left, List.drop_one, List.tail_cons]
  · rw [List.drop_length, List.drop_nil]

theorem splitPoint_of_decimal (hdigits : ∀ d ∈ whole ++ fraction, isDigit d)
    (htext : text = whole ++ '.' :: fraction ∨ text = whole ∧ fraction = []) :
    splitPoint text = (whole, fraction, []) := by
  obtain ⟨hwhole, hfraction⟩ := List.forall_mem_append.mp hdigits
  have hparts := stretch_of_decimal hwhole htext
  rw [splitPoint, hparts.1, hparts.2]
  rcases htext with rfl | ⟨rfl, rfl⟩
  · rw [List.drop_left]
    simp only [List.takeWhile_eq_self_iff.mpr hfraction, List.dropWhile_eq_nil_iff.mpr hfraction]
  · rw [List.drop_length]

theorem parse?_of_decimal (hne : whole ≠ []) (hdigits : ∀ d ∈ whole ++ fraction, isDigit d)
    (htext : text = whole ++ '.' :: fraction ∨ text = whole ∧ fraction = []) :
    parse? (String.ofList text) = some (ofDecimal text) := by
  have hpoint := splitPoint_of_decimal hdigits htext
  have hvalue := ofDecimal_eq (List.forall_mem_append.mp hdigits).1 htext
  obtain ⟨c, digits, rfl⟩ := List.exists_cons_of_ne_nil hne
  have hc : isDigit c := hdigits c (by simp)
  obtain ⟨rest, rfl⟩ : ∃ rest, text = c :: rest := by
    rcases htext with rfl | ⟨rfl, -⟩
    · exact ⟨_, rfl⟩
    · exact ⟨_, rfl⟩
  rw [parse?, String.toList_ofList, splitSign_of_isDigit hc, hvalue]
  simp only [magnitude?_of_isDigit hc, number?, hpoint]
  simp [exponent?]

end Binary64

/-- A number of the grammar is read as a double. -/
theorem Belongs.parse?_eq {text piece : List Char} (hbelongs : Belongs text .number piece) :
    Binary64.parse? (String.ofList piece) = some (.ofDecimal piece) := by
  cases hbelongs with
  | whole hne hdigits =>
      exact Binary64.parse?_of_decimal hne (by rwa [List.append_nil]) (.inr ⟨rfl, rfl⟩)
  | decimal hwhole _ hdigits => exact Binary64.parse?_of_decimal hwhole hdigits (.inl rfl)

end LoxLexer
