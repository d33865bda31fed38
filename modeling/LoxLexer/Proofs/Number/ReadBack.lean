import LoxLexer.Proofs.Number.Layout
import LoxLexer.Proofs.Number.Literals

/-!
# Listed numbers are read back

A finite double that is not negative is listed as digits before a point and behind it, which
is how a source writes numbers.  These digits are the shortest decimal of the double, so a
scan of the text finds a single number, and the double is its literal again.

What a source has written there need not be that text, and is not listed.  Whatever it was,
the literal it has led to is listed as a text that leads to the same literal.
-/

namespace LoxLexer

/-- The scan of a text that is a single number. -/
def Scan.ofNumber (text : String) (x : Binary64) : Scan :=
  let size := Span.clamp text.utf8ByteSize
  { tokens := [⟨.number, text, some (.number x), 1, ⟨0, size⟩⟩, .endOfText 1 size]
    diagnostics := [] }

/-- A text that is a decimal which is rounded to this double, and in which a scan finds one
number, this double, and nothing else. -/
structure Binary64.ReadsBack (x : Binary64) (text : String) : Prop where
  isDecimal : ∃ number, IsDecimal text.toList number ∧ ∀ y : Binary64, y.RoundsTo number ↔ y = x
  scan_eq : scan text = .ok (.ofNumber text x)

section Single

variable {text : String} (hbelongs : Belongs text.toList .number text.toList)
include hbelongs

theorem placedElements_of_number :
    placedElements text.toList = [⟨⟨.number, text.toList⟩, 0, 1⟩] := by
  have hsound : Element.Sound ⟨.number, text.toList⟩ :=
    .inl ⟨[], by rwa [List.append_nil]⟩
  have hends : Element.EndsBefore ⟨.number, text.toList⟩ [] := hsound.endsBefore rfl (by simp)
  have helements := elements_of_endsBefore hends
  rw [List.append_nil, elements_nil] at helements
  rw [placedElements, helements, place_cons, place_nil]

theorem lineFeeds_of_number : lineFeeds text.toList = 0 :=
  List.count_eq_zero.mpr (not_mem_of_number hbelongs (by decide) (by decide))

theorem finding_of_number : Placed.finding ⟨⟨.number, text.toList⟩, 0, 1⟩ =
    .ok (.token ⟨.number, text, some (.number (.ofDecimal text.toList)), 1,
      ⟨0, Span.clamp text.utf8ByteSize⟩⟩) := by
  have hline : Placed.lastLine ⟨⟨.number, text.toList⟩, 0, 1⟩ < UInt32.size := by
    have hlast : Placed.lastLine ⟨⟨.number, text.toList⟩, 0, 1⟩ = 1 := by
      rw [Placed.lastLine, lineFeeds_of_number hbelongs]
    rw [hlast]
    decide
  have hdepth : Element.depth ⟨.number, text.toList⟩ < UInt32.size := Nat.zero_lt_succ _
  have hspan : Placed.span ⟨⟨.number, text.toList⟩, 0, 1⟩ =
      ⟨0, Span.clamp text.utf8ByteSize⟩ := by
    have hstart : Span.clamp 0 = 0 := rfl
    rw [Placed.span, Placed.stop, Nat.zero_add, byteLength_toList, hstart, UInt32.sub_zero]
  have hvalue := hbelongs.parse?_eq
  rw [String.ofList_toList] at hvalue
  rw [Placed.finding_of_lt hline hdepth, Placed.outcome, hspan]
  simp only [Element.finding, String.ofList_toList, hvalue, Option.getD_some]
  rfl

/-- A number is scanned by itself, however many digits it has. -/
theorem scan_of_number : scan text = .ok (.ofNumber text (.ofDecimal text.toList)) := by
  have hline : Word.ofNat (1 + lineFeeds text.toList) = .ok 1 := by
    rw [lineFeeds_of_number hbelongs]
    rfl
  rw [scan, placedElements_of_number hbelongs, List.mapM_cons, List.mapM_nil,
    finding_of_number hbelongs, hline, byteLength_toList]
  rfl

end Single

namespace Layout.AreDigits

variable {whole fraction : List Char} (hdigits : AreDigits whole fraction)
include hdigits

theorem isNumber :
    Belongs (whole ++ pointed fraction) .number (whole ++ pointed fraction) := by
  cases fraction with
  | nil =>
      rw [pointed, List.isEmpty_nil, if_pos rfl, List.append_nil]
      exact .whole hdigits.whole_ne_nil hdigits.isDigit_whole
  | cons c fraction =>
      refine .decimal hdigits.whole_ne_nil (List.cons_ne_nil c fraction) fun d hd => ?_
      exact (List.mem_append.mp hd).elim (hdigits.isDigit_whole d) (hdigits.isDigit_fraction d)

theorem ofDecimal_eq : Binary64.ofDecimal (whole ++ pointed fraction) =
    Binary64.ofMagnitude false
      (Binary64.nearest (digitsValue (whole ++ fraction)) (Nat.pow 10 fraction.length)) := by
  refine Binary64.ofDecimal_eq hdigits.isDigit_whole ?_
  cases fraction with
  | nil => exact .inr ⟨List.append_nil whole, rfl⟩
  | cons c fraction => exact .inl rfl

end Layout.AreDigits

variable {x : Binary64}

theorem Literal.exists_numberText_eq (hfinite : x.isFinite = true)
    (hnegative : x.isNegative = false) :
    ∃ whole fraction, Layout.AreDigits whole fraction ∧
      (numberText x).toList = whole ++ Layout.pointed fraction ∧
      Binary64.ofDecimal (whole ++ Layout.pointed fraction) = x := by
  have hmagnitude : x.magnitude < Binary64.infiniteMagnitude := of_decide_eq_true hfinite
  obtain ⟨whole, fraction, hplaces, -, htext⟩ :=
    Layout.exists_positional_eq numberLayout (Decimal.isProper_shortest hmagnitude .up)
  refine ⟨whole, fraction, hplaces.toAreDigits, ?_, ?_⟩
  · rw [numberText, if_pos hfinite, String.toList_ofList, Layout.write, hnegative, ← htext]
    rfl
  · have hnearest := Decimal.nearest_of_shortest hmagnitude
      (Decimal.pow_pos 10 fraction.length (by decide)) hplaces.isQuotient
    have hbits := x.ofMagnitude_magnitude
    rw [hnegative] at hbits
    rw [hplaces.toAreDigits.ofDecimal_eq, hnearest, hbits]

theorem Binary64.readsBack_numberText (hfinite : x.isFinite = true)
    (hnegative : x.isNegative = false) : x.ReadsBack (Literal.numberText x) := by
  obtain ⟨whole, fraction, hdigits, htext, hread⟩ := Literal.exists_numberText_eq hfinite hnegative
  have hbelongs := hdigits.isNumber
  rw [← htext] at hbelongs hread
  obtain ⟨number, hdecimal, hrounds⟩ := hbelongs.exists_decimal
  have hscan := scan_of_number hbelongs
  rw [hread] at hrounds hscan
  refine ⟨⟨number, hdecimal, fun y => ⟨fun hy => hy.unique hrounds, ?_⟩⟩, hscan⟩
  rintro rfl
  exact hrounds

/-- A number token and its double, which stands at the end of its line in a listing. -/
structure Token.ListsNumber (token : Token) (x : Binary64) : Prop where
  literal_eq : token.literal = some (.number x)
  listing_eq : token.listing = "[line " ++ decimalText token.line.toNat ++ "] NUMBER " ++
    token.lexeme ++ " " ++ (Literal.number x).listing
  readsBack : x.isFinite = true → x.ReadsBack (Literal.number x).listing

theorem exists_listsNumber_of_scan {source : String} {found : Scan}
    (hscan : scan source = .ok found) {token : Token} (hmem : token ∈ found.tokens)
    (hkind : token.kind = .number) : ∃ x, token.ListsNumber x := by
  rw [(of_scan_eq_ok hscan).1, List.mem_append, List.mem_singleton] at hmem
  rcases hmem with hmem | rfl
  · have hbounded : token ∈ (boundedScan source).tokens := by
      rw [tokens_boundedScan]
      exact List.mem_append_left _ hmem
    obtain ⟨number, x, -, -, hliteral, hunique⟩ := holdsDecimal_of_mem hbounded hkind
    have hnegative : x.isNegative = false := ((hunique x).mpr rfl).isNegative_eq
    refine ⟨x, hliteral, ?_, fun hfinite => Binary64.readsBack_numberText hfinite hnegative⟩
    have hname : Kind.number.name = "NUMBER" := rfl
    simp only [Token.listing, hliteral, hkind, hname, Option.map_some, Option.getD_some,
      String.append_assoc]
    rfl
  · cases hkind

/-- A finite double that is not negative is listed as a number of the source language, whose
scan is that double.  So each number token shows its value in a form that a scan reads back,
unless the value is infinite. -/
theorem scan_readsBack_listing :
    (∀ x : Binary64, x.isFinite = true → x.isNegative = false →
      x.ReadsBack (Literal.number x).listing) ∧
    ∀ (source : String) (found : Scan), scan source = .ok found →
      ∀ token ∈ found.tokens, token.kind = .number → ∃ x, token.ListsNumber x :=
  ⟨fun _ => Binary64.readsBack_numberText,
    fun _ _ hscan _ => exists_listsNumber_of_scan hscan⟩

theorem scan_readsBack_listing_of_least_double :
    Binary64.isFinite ⟨1⟩ = true ∧ Binary64.isNegative ⟨1⟩ = false ∧
      Binary64.ReadsBack ⟨1⟩ (Literal.number ⟨1⟩).listing ∧
      ∃ found, scan "x\n007.50." = .ok found ∧
        ∃ token ∈ found.tokens, token.kind = .number ∧ ∃ x, token.ListsNumber x := by
  have hfinite : Binary64.isFinite ⟨1⟩ = true := by decide
  have hnegative : Binary64.isNegative ⟨1⟩ = false := by decide
  have hscan : scan "x\n007.50." = .ok (boundedScan "x\n007.50.") := scan_of_bounded (by decide)
  obtain ⟨token, hmem, hkind⟩ :
      ∃ token ∈ (boundedScan "x\n007.50.").tokens, token.kind = .number := by
    decide +kernel
  exact ⟨hfinite, hnegative, scan_readsBack_listing.1 ⟨1⟩ hfinite hnegative, _, hscan, token, hmem,
    hkind, scan_readsBack_listing.2 _ _ hscan token hmem hkind⟩

end LoxLexer
