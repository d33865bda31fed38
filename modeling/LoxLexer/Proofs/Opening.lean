import LoxLexer.Element.Cut

/-!
# What the first character decides

The first character of a text settles which kind of element comes off it.  The
classes of characters that the cutter asks for one after another do not meet,
so the order of its questions does not matter.
-/

namespace LoxLexer

theorem isWordCharacter_of_isLetter {c : Char} (hc : isLetter c) : isWordCharacter c := by
  simp [isWordCharacter, hc]

theorem isWordCharacter_of_isDigit {c : Char} (hc : isDigit c) : isWordCharacter c := by
  simp [isWordCharacter, hc]

theorem toNat_lt_of_isWordCharacter {c : Char} (hc : isWordCharacter c) : c.toNat < 128 := by
  have hletter : ∀ last : Char, c ≤ last → last.toNat < 128 → c.toNat < 128 :=
    fun last hle hlast => Nat.lt_of_le_of_lt (UInt32.le_iff_toNat_le.mp hle) hlast
  simp only [isWordCharacter, isLetter, isDigit, Bool.or_eq_true, Bool.and_eq_true,
    decide_eq_true_eq, beq_iff_eq] at hc
  rcases hc with ((hc | hc) | rfl) | hc
  · exact hletter 'z' hc.2 (by decide)
  · exact hletter 'Z' hc.2 (by decide)
  · decide
  · exact hletter '9' hc.2 (by decide)

theorem toNat_lt_of_isDigit {c : Char} (hc : isDigit c) : c.toNat < 128 :=
  toNat_lt_of_isWordCharacter (isWordCharacter_of_isDigit hc)

theorem isDigit_eq_false_of_isLetter {c : Char} (hc : isLetter c) :
    isDigit c = false := by
  simp only [isLetter, isDigit, Bool.or_eq_true, Bool.and_eq_true, decide_eq_true_eq,
    beq_iff_eq, Bool.and_eq_false_iff, decide_eq_false_iff_not] at hc ⊢
  rcases hc with (hc | hc) | rfl
  · exact Or.inr fun hle => absurd (Char.le_trans hc.1 hle) (by decide)
  · exact Or.inr fun hle => absurd (Char.le_trans hc.1 hle) (by decide)
  · decide

theorem isBlank_iff {c : Char} :
    isBlank c = true ↔ c ∈ [' ', '\t', '\r', '\n'] := by
  simp [isBlank, or_assoc]

theorem isBlank_eq_false_of_isWordCharacter {c : Char} (hc : isWordCharacter c) :
    isBlank c = false := by
  cases hblank : isBlank c with
  | false => rfl
  | true =>
      rw [isBlank_iff] at hblank
      simp only [List.mem_cons, List.not_mem_nil, or_false] at hblank
      rcases hblank with rfl | rfl | rfl | rfl <;> exact absurd hc (by decide)

theorem Kind.ofPunctuation?_of_isWordCharacter {c : Char} (hc : isWordCharacter c) :
    Kind.ofPunctuation? c = none := by
  fun_cases Kind.ofPunctuation? c with
  | case11 => rfl
  | _ => exact absurd hc (by decide)

theorem Kind.operatorForms?_of_isWordCharacter {c : Char} (hc : isWordCharacter c) :
    Kind.operatorForms? c = none := by
  fun_cases Kind.operatorForms? c with
  | case5 => rfl
  | _ => exact absurd hc (by decide)

/-- No punctuation mark begins an operator. -/
theorem Kind.ofPunctuation?_of_operatorForms? {c : Char} {forms : Kind.OperatorForms}
    (hforms : Kind.operatorForms? c = some forms) : Kind.ofPunctuation? c = none := by
  fun_cases Kind.ofPunctuation? c with
  | case11 => rfl
  | _ => simp [Kind.operatorForms?] at hforms

namespace Cut

theorem first_of_isDigit {c : Char} (hc : isDigit c) (text : List Char) :
    first c text = number c text := by
  have hword := isWordCharacter_of_isDigit hc
  rw [first, Kind.ofPunctuation?_of_isWordCharacter hword,
    Kind.operatorForms?_of_isWordCharacter hword]
  exact if_pos hc

theorem first_of_isLetter {c : Char} (hc : isLetter c) (text : List Char) :
    first c text = word c text := by
  have hword := isWordCharacter_of_isLetter hc
  have hdigit := isDigit_eq_false_of_isLetter hc
  rw [first, Kind.ofPunctuation?_of_isWordCharacter hword,
    Kind.operatorForms?_of_isWordCharacter hword]
  simp [hdigit, hc]

theorem first_of_ofPunctuation? {c : Char} {kind : Kind}
    (hkind : Kind.ofPunctuation? c = some kind) (text : List Char) :
    first c text = ⟨⟨.symbol kind, [c]⟩, text⟩ := by
  rw [first, hkind]

theorem first_of_operatorForms? {c : Char} {forms : Kind.OperatorForms}
    (hforms : Kind.operatorForms? c = some forms) (text : List Char) :
    first c text = operator c forms text := by
  rw [first, Kind.ofPunctuation?_of_operatorForms? hforms, hforms]

theorem first_quote (text : List Char) : first '"' text = string text := rfl

theorem first_slash (text : List Char) : first '/' text = slash text := rfl

theorem first_of_isBlank {c : Char} (hc : isBlank c) (text : List Char) :
    first c text = ⟨⟨.blank, [c]⟩, text⟩ := by
  rw [isBlank_iff] at hc
  simp only [List.mem_cons, List.not_mem_nil, or_false] at hc
  rcases hc with rfl | rfl | rfl | rfl <;> rfl

end Cut

end LoxLexer
