import LoxLexer.Json.Value
import LoxLexer.Options.Scalar
import LoxLexer.Scan.Bounded
import Mathlib.Tactic.SplitIfs

/-!
# Strings in quotes are read back

Each character is read back from the way that it stands inside quotes, whatever follows it
(`readString_escape`).  The quotes and control characters are those with an escape, and no
escape holds a character that ends the string.
-/

namespace LoxLexer

namespace Json

theorem readString_backslash {seen text rest : List Char} {c : Char}
    (hescape : readEscape text = .ok (c, rest)) :
    readString seen ('\\' :: text) = readString (c :: seen) rest := by
  rw [readString]
  split
  · rename_i hread
    rw [hescape] at hread
    cases hread
    rfl
  · rename_i hread
    rw [hescape] at hread
    contradiction

theorem readString_plain {seen text : List Char} {c : Char} (hquote : c ≠ '"')
    (hbackslash : c ≠ '\\') (hcontrol : ¬c.toNat < 0x20) :
    readString seen (c :: text) = readString (c :: seen) text := by
  rw [readString, if_neg hcontrol]
  · exact fun heq => hquote heq
  · exact fun heq => hbackslash heq

/-- The digits of a control character stand for it. -/
theorem hexNumber?_hexDigit {n : Nat} (hcontrol : n < 0x20) :
    hexNumber? ['0', '0', hexDigit (n / 16), hexDigit (n % 16)] = some n := by
  have hall : ∀ n < 0x20,
      hexNumber? ['0', '0', hexDigit (n / 16), hexDigit (n % 16)] = some n := by
    decide
  exact hall n hcontrol

theorem readEscape_codeUnit {c : Char} (hcontrol : c.toNat < 0x20) (rest : List Char) :
    readEscape ('u' :: '0' :: '0' :: hexDigit (c.toNat / 16) :: hexDigit (c.toNat % 16) :: rest) =
      .ok (c, rest) := by
  have hbytes : ¬byteLength ['0', '0', hexDigit (c.toNat / 16), hexDigit (c.toNat % 16)] < 4 := by
    have hlength := length_le_byteLength
      ['0', '0', hexDigit (c.toNat / 16), hexDigit (c.toNat % 16)]
    exact Nat.not_lt.mpr hlength
  have hhex : readHex ('0' :: '0' :: hexDigit (c.toNat / 16) :: hexDigit (c.toNat % 16) :: rest) =
      .ok (c.toNat, rest) := by
    rw [readHex, List.take_succ_cons, List.take_succ_cons, List.take_succ_cons,
      List.take_succ_cons, List.take_zero, if_neg hbytes]
    simp only [hexNumber?_hexDigit hcontrol]
  have htrailing : isTrailing c.toNat = false := by
    simp only [isTrailing, Bool.and_eq_false_iff, decide_eq_false_iff_not]
    omega
  have hleading : isLeading c.toNat = false := by
    simp only [isLeading, Bool.and_eq_false_iff, decide_eq_false_iff_not]
    omega
  rw [readEscape, if_pos rfl, readCodeUnits, hhex]
  simp only [htrailing, hleading, Char.ofNat_toNat]
  rfl

theorem readString_escape (seen rest : List Char) (c : Char) :
    readString seen (escape c ++ rest) = readString (c :: seen) rest := by
  unfold escape
  split_ifs with hquote hbackslash hbackspace htab hlineFeed hformFeed hreturn hcontrol
  · subst hquote
    exact readString_backslash rfl
  · subst hbackslash
    exact readString_backslash rfl
  · subst hbackspace
    exact readString_backslash rfl
  · subst htab
    exact readString_backslash rfl
  · subst hlineFeed
    exact readString_backslash rfl
  · subst hformFeed
    exact readString_backslash rfl
  · subst hreturn
    exact readString_backslash rfl
  · exact readString_backslash (readEscape_codeUnit hcontrol rest)
  · exact readString_plain hquote hbackslash hcontrol

theorem readString_flatMap_escape (text seen rest : List Char) :
    readString seen (text.flatMap escape ++ '"' :: rest) =
      .ok (String.ofList (seen.reverse ++ text), rest) := by
  induction text generalizing seen with
  | nil =>
      rw [List.flatMap_nil, List.nil_append, readString, List.append_nil]
  | cons c text ih =>
      rw [List.flatMap_cons, List.append_assoc, readString_escape, ih, List.reverse_cons,
        List.append_assoc]
      rfl

end Json

end LoxLexer
