import LoxLexer.Proofs.Json.Strings
import LoxLexer.Proofs.Options.Grammar
import LoxLexer.Proofs.Stretch

/-!
# Blanks, words and quotes in a configuration

Each reader of the leaves is matched with the grammar: it succeeds on a text exactly if the
text begins with a piece of its class, and leaves what follows the piece.  A string is read
to the end of what stands in quotes (`readString_eq_ok_iff`).
-/

namespace LoxLexer

open LoxLexer.Configuration

variable {text rest : List Char}

theorem isSpacing_iff {c : Char} : isSpacing c = true ↔ c ∈ [' ', '\n', '\t', '\r'] := by
  simp [isSpacing, or_assoc]

theorem blank_append {first second : List Char} (hfirst : Blank first) (hsecond : Blank second) :
    Blank (first ++ second) :=
  List.forall_mem_append.mpr ⟨hfirst, hsecond⟩

theorem exists_blank (text : List Char) :
    ∃ blank, Blank blank ∧ text = blank ++ skipSpacing text :=
  ⟨text.takeWhile isSpacing, fun _ hmem => isSpacing_iff.mp (List.mem_takeWhile_imp hmem),
    List.takeWhile_append_dropWhile.symm⟩

theorem exists_blank_of_skipSpacing {remaining : List Char}
    (hskip : skipSpacing text = remaining) :
    ∃ blank, Blank blank ∧ text = blank ++ remaining :=
  hskip ▸ exists_blank text

theorem skipSpacing_append {blank : List Char} (hblank : Blank blank) (text : List Char) :
    skipSpacing (blank ++ text) = skipSpacing text :=
  List.dropWhile_append_of_pos fun c hmem => isSpacing_iff.mpr (hblank c hmem)

theorem skipSpacing_cons {c : Char} (hc : isSpacing c = false) (text : List Char) :
    skipSpacing (c :: text) = c :: text := by
  rw [skipSpacing, List.dropWhile_cons_of_neg (by simp [hc])]

theorem skipSpacing_append_cons {blank : List Char} {c : Char} (hblank : Blank blank)
    (hc : isSpacing c = false) (text : List Char) :
    skipSpacing (blank ++ c :: text) = c :: text := by
  rw [skipSpacing_append hblank, skipSpacing_cons hc]

theorem skipSpacing_eq_nil_iff : skipSpacing text = [] ↔ Blank text := by
  simp only [skipSpacing, List.dropWhile_eq_nil_iff, isSpacing_iff, Blank]

theorem readWord_eq_ok_iff {word : List Char} :
    readWord word text = .ok rest ↔ text = word ++ rest := by
  induction word generalizing text with
  | nil => simp [readWord]
  | cons c word ih =>
      cases text with
      | nil => simp [readWord]
      | cons d text =>
          by_cases heq : d = c
          · simp [readWord, heq, ih]
          · simp [readWord, heq]

theorem toNat_lt_of_hexValue? {c : Char} {n : Nat} (hvalue : hexValue? c = some n) :
    c.toNat < 103 := by
  have hle : c ≤ 'f' := by
    unfold hexValue? isDigit at hvalue
    split_ifs at hvalue with hdigit hlower hupper
    · simp only [Bool.and_eq_true, decide_eq_true_eq] at hdigit
      exact Char.le_trans hdigit.2 (by decide)
    · exact hlower.2
    · exact Char.le_trans hupper.2 (by decide)
  exact Nat.lt_succ_of_le (UInt32.le_iff_toNat_le.mp (Char.le_def.mp hle))

theorem hexValue?_eq_some_iff {c : Char} {n : Nat} : hexValue? c = some n ↔ HexDigit c n := by
  constructor
  · intro hvalue
    have hall : ∀ m < 103, ∀ n ∈ hexValue? (Char.ofNat m), HexDigit (Char.ofNat m) n := by
      unfold HexDigit
      decide
    have hdigit := hall c.toNat (toNat_lt_of_hexValue? hvalue) n
    rw [Char.ofNat_toNat] at hdigit
    exact hdigit hvalue
  · have hlower : ∀ n < 16, lowerDigits[n]?.bind hexValue? = some n := by
      decide
    have hupper : ∀ n < 16, upperDigits[n]?.bind hexValue? = some n := by
      decide
    intro hdigit
    rcases hdigit with hdigit | hdigit
    · have hvalue := hlower n (List.getElem?_eq_some_iff.mp hdigit).1
      rwa [hdigit, Option.bind_some] at hvalue
    · have hvalue := hupper n (List.getElem?_eq_some_iff.mp hdigit).1
      rwa [hdigit, Option.bind_some] at hvalue

theorem HexDigit.lt {c : Char} {n : Nat} (hdigit : HexDigit c n) : n < 16 := by
  rcases hdigit with hdigit | hdigit
  · exact (List.getElem?_eq_some_iff.mp hdigit).1
  · exact (List.getElem?_eq_some_iff.mp hdigit).1

theorem hexNumber?_eq_some_iff {a b c d : Char} {n : Nat} :
    hexNumber? [a, b, c, d] = some n ↔ CodeUnit [a, b, c, d] n := by
  constructor
  · intro hnumber
    simp only [hexNumber?, List.foldl_cons, List.foldl_nil, Option.bind_eq_bind,
      Option.bind_eq_some_iff, Option.some.injEq, hexValue?_eq_some_iff] at hnumber
    obtain ⟨third, ⟨second, ⟨first, ⟨_, rfl, i, hi, hfirst⟩, j, hj, hsecond⟩, k, hk, hthird⟩,
      l, hl, hn⟩ := hnumber
    cases hfirst
    cases hsecond
    cases hthird
    cases hn
    rw [Nat.mul_zero, Nat.zero_add]
    exact .mk hi hj hk hl
  · intro hunit
    cases hunit with
    | mk ha hb hc hd =>
        simp [hexNumber?, hexValue?_eq_some_iff.mpr ha, hexValue?_eq_some_iff.mpr hb,
          hexValue?_eq_some_iff.mpr hc, hexValue?_eq_some_iff.mpr hd]

theorem CodeUnit.lt {digits : List Char} {unit : Nat} (hunit : CodeUnit digits unit) :
    unit < 0x10000 := by
  cases hunit with
  | mk ha hb hc hd =>
      have hi := HexDigit.lt ha
      have hj := HexDigit.lt hb
      have hk := HexDigit.lt hc
      have hl := HexDigit.lt hd
      omega

theorem readHex_append {digits : List Char} {unit : Nat} (hunit : CodeUnit digits unit)
    (rest : List Char) : readHex (digits ++ rest) = .ok (unit, rest) := by
  have hnumber := hunit
  cases hunit with
  | @mk a b c d =>
      have hbytes : ¬byteLength [a, b, c, d] < 4 :=
        Nat.not_lt.mpr (length_le_byteLength [a, b, c, d])
      have htake : (a :: b :: c :: d :: rest).take 4 = [a, b, c, d] := rfl
      rw [List.cons_append, List.cons_append, List.cons_append, List.cons_append,
        List.nil_append, readHex, htake, if_neg hbytes]
      simp only [hexNumber?_eq_some_iff.mpr hnumber]

theorem exists_codeUnit_of_readHex {unit : Nat} (hread : readHex text = .ok (unit, rest)) :
    ∃ digits, CodeUnit digits unit ∧ text = digits ++ rest := by
  unfold readHex at hread
  split at hread
  · contradiction
  · split at hread
    · split at hread
      · rename_i number hnumber
        cases hread
        exact ⟨_, hexNumber?_eq_some_iff.mp hnumber, rfl⟩
      · contradiction
    · contradiction

theorem escapedCharacter?_eq_some_iff {letter c : Char} :
    escapedCharacter? letter = some c ↔ (letter, c) ∈ letters := by
  unfold escapedCharacter?
  split <;> simp_all [letters, eq_comm]

theorem readTrailing_append {digits : List Char} {high low : Nat} (hunit : CodeUnit digits low)
    (hlow : 0xdc00 ≤ low ∧ low ≤ 0xdfff) (rest : List Char) :
    readTrailing high ('\\' :: 'u' :: (digits ++ rest)) =
      .ok (.ofNat (0x10000 + (high - 0xd800) * 0x400 + (low - 0xdc00)), rest) := by
  simp [readTrailing, readHex_append hunit, isTrailing, hlow]

theorem exists_codeUnit_of_readTrailing {high : Nat} {c : Char}
    (hread : readTrailing high text = .ok (c, rest)) :
    ∃ digits low, CodeUnit digits low ∧ (0xdc00 ≤ low ∧ low ≤ 0xdfff) ∧
      Char.ofNat (0x10000 + (high - 0xd800) * 0x400 + (low - 0xdc00)) = c ∧
      text = '\\' :: 'u' :: (digits ++ rest) := by
  fun_cases readTrailing high text with
  | case3 text low remaining hhex htrailing =>
      simp only [readTrailing, hhex, htrailing, if_true, Except.ok.injEq, Prod.mk.injEq] at hread
      obtain ⟨hc, rfl⟩ := hread
      obtain ⟨digits, hunit, rfl⟩ := exists_codeUnit_of_readHex hhex
      simp only [isTrailing, Bool.and_eq_true, decide_eq_true_eq] at htrailing
      exact ⟨digits, low, hunit, htrailing, hc, rfl⟩
  | _ => simp_all [readTrailing]

theorem toNat_ofNat_of_isValidChar {n : Nat} (hvalid : n.isValidChar) :
    (Char.ofNat n).toNat = n := by
  rw [Char.ofNat, dif_pos hvalid]
  rfl

theorem isTrailing_eq_true_iff {unit : Nat} :
    isTrailing unit = true ↔ 0xdc00 ≤ unit ∧ unit ≤ 0xdfff := by
  simp [isTrailing]

theorem isLeading_eq_true_iff {unit : Nat} :
    isLeading unit = true ↔ 0xd800 ≤ unit ∧ unit ≤ 0xdbff := by
  simp [isLeading]

theorem readEscape_append {escape : List Char} {c : Char} (hescape : Escape escape c)
    (rest : List Char) : readEscape (escape ++ rest) = .ok (c, rest) := by
  cases hescape with
  | @letter letter _ hletter =>
      have hu : letter ≠ 'u' := by
        rintro rfl
        simp [letters] at hletter
      simp [readEscape, hu, escapedCharacter?_eq_some_iff.mpr hletter]
  | @unit digits _ hunit =>
      have htrailing : ¬isTrailing c.toNat = true := by
        rw [isTrailing_eq_true_iff]
        rcases c.valid with hvalid | hvalid
        all_goals
          simp only [Char.toNat]
          omega
      have hleading : ¬isLeading c.toNat = true := by
        rw [isLeading_eq_true_iff]
        rcases c.valid with hvalid | hvalid
        all_goals
          simp only [Char.toNat]
          omega
      rw [List.cons_append, readEscape, if_pos rfl, readCodeUnits, readHex_append hunit]
      simp only [htrailing, hleading, Char.ofNat_toNat]
      rfl
  | @pair leading trailing high low _ hleading hhigh htrailing hlow hc =>
      have hnot : ¬isTrailing high = true := by
        rw [isTrailing_eq_true_iff]
        omega
      rw [List.cons_append, List.append_assoc, readEscape, if_pos rfl, readCodeUnits,
        readHex_append hleading]
      simp only [if_neg hnot, if_pos (isLeading_eq_true_iff.mpr hhigh)]
      rw [List.cons_append, List.cons_append, readTrailing_append htrailing hlow, ← hc,
        Char.ofNat_toNat]

theorem exists_escape_of_readCodeUnits {c : Char} (hread : readCodeUnits text = .ok (c, rest)) :
    ∃ escape, Escape ('u' :: escape) c ∧ text = escape ++ rest := by
  unfold readCodeUnits at hread
  split at hread
  · rename_i unit remaining hhex
    obtain ⟨digits, hunit, rfl⟩ := exists_codeUnit_of_readHex hhex
    split_ifs at hread with htrailing hleading
    · obtain ⟨trailing, low, hlow, hbounds, hc, rfl⟩ := exists_codeUnit_of_readTrailing hread
      rw [isLeading_eq_true_iff] at hleading
      refine ⟨_, .pair hunit hleading hlow hbounds ?_, by simp⟩
      rw [← hc, toNat_ofNat_of_isValidChar]
      exact .inr ⟨by omega, by omega⟩
    · rw [isTrailing_eq_true_iff] at htrailing
      rw [isLeading_eq_true_iff] at hleading
      have hlt := CodeUnit.lt hunit
      simp only [Except.ok.injEq, Prod.mk.injEq] at hread
      obtain ⟨hc, rfl⟩ := hread
      refine ⟨digits, .unit ?_, rfl⟩
      rwa [← hc, toNat_ofNat_of_isValidChar]
      by_cases hsmall : unit < 0xd800
      · exact .inl hsmall
      · exact .inr ⟨by omega, by omega⟩
  · contradiction

theorem exists_escape_of_readEscape {c : Char} (hread : readEscape text = .ok (c, rest)) :
    ∃ escape, Escape escape c ∧ text = escape ++ rest := by
  cases text with
  | nil => simp [readEscape] at hread
  | cons letter text =>
      rw [readEscape] at hread
      split_ifs at hread with hu
      · obtain ⟨escape, hescape, rfl⟩ := exists_escape_of_readCodeUnits hread
        exact ⟨_, hu ▸ hescape, rfl⟩
      · split at hread
        · rename_i escaped hescaped
          cases hread
          exact ⟨_, .letter (escapedCharacter?_eq_some_iff.mp hescaped), rfl⟩
        · contradiction

theorem readString_append {inside meant : List Char} (hinside : Inside inside meant)
    (seen rest : List Char) :
    readString seen (inside ++ '"' :: rest) = .ok (.ofList (seen.reverse ++ meant), rest) := by
  induction hinside generalizing seen with
  | nil => simp [readString]
  | plain hquote hbackslash hcontrol hrest ih =>
      rw [List.cons_append, Json.readString_plain hquote hbackslash (by omega), ih]
      simp
  | escape hescape hrest ih =>
      rw [List.cons_append, List.append_assoc,
        Json.readString_backslash (readEscape_append hescape _), ih]
      simp

theorem exists_inside_of_readString {seen : List Char} {value : String}
    (hread : readString seen text = .ok (value, rest)) :
    ∃ inside meant, Inside inside meant ∧ value = .ofList (seen.reverse ++ meant) ∧
      text = inside ++ '"' :: rest := by
  fun_induction readString seen text with
  | case1 => contradiction
  | case2 seen text =>
      cases hread
      exact ⟨[], [], .nil, by simp, rfl⟩
  | case3 seen text c remaining hescape ih =>
      obtain ⟨inside, meant, hinside, rfl, rfl⟩ := ih hread
      obtain ⟨escape, hwritten, rfl⟩ := exists_escape_of_readEscape hescape
      exact ⟨_, _, .escape hwritten hinside, by simp, by simp⟩
  | case4 => contradiction
  | case5 => contradiction
  | case6 seen c text hquote hbackslash hcontrol ih =>
      obtain ⟨inside, meant, hinside, rfl, rfl⟩ := ih hread
      exact ⟨_, _, .plain hquote hbackslash (by omega) hinside, by simp, rfl⟩

end LoxLexer
