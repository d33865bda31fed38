import LoxLexer.Proofs.Boundary
import LoxLexer.Proofs.Cursor.Encoding
import LoxLexer.Proofs.Moving

/-!
# Two bytes of lookahead

Whether an element ends at some offset is settled by the two bytes behind it: what a
token goes on with is at most two bytes long, and a comment or a string that goes on
with everything sees whether anything is left
(`Element.EndsBefore.of_sharesBytes`).

Two sources with a common beginning therefore have the same elements as far as these
end two bytes in front of the end of that beginning
(`filter_place_of_sharesBytes`).  What comes behind does not change them.
-/

namespace LoxLexer

/-- Two texts with the same first bytes.  A text with fewer bytes has no others. -/
def SharesBytes (count : Nat) (text other : List Char) : Prop :=
  (encode text).take count = (encode other).take count

namespace SharesBytes

variable {count : Nat} {text other rest : List Char}

theorem symm (hshared : SharesBytes count text other) : SharesBytes count other text :=
  Eq.symm hshared

theorem mono {fewer : Nat} (hshared : SharesBytes count text other) (hle : fewer ≤ count) :
    SharesBytes fewer text other := by
  have htake := congrArg (List.take fewer) hshared
  rwa [List.take_take, List.take_take, Nat.min_eq_left hle] at htake

theorem eq_nil (hshared : SharesBytes count [] other) (hcount : 0 < count) : other = [] := by
  cases other with
  | nil => rfl
  | cons c other =>
      obtain ⟨byte, high, hencode, -⟩ := exists_encodeChar c
      obtain ⟨count, rfl⟩ := Nat.exists_eq_succ_of_ne_zero hcount.ne'
      unfold SharesBytes at hshared
      rw [encode_cons, hencode] at hshared
      simp at hshared

theorem exists_cons {c : Char} (hshared : SharesBytes count (c :: rest) other)
    (hcount : c.utf8Size ≤ count) :
    ∃ otherRest, other = c :: otherRest ∧ SharesBytes (count - c.utf8Size) rest otherRest := by
  have hpos := c.utf8Size_pos
  have htake : ∀ text, (encode (c :: text)).take count =
      String.utf8EncodeChar c ++ (encode text).take (count - c.utf8Size) := by
    intro text
    have hlength := String.length_utf8EncodeChar c
    rw [encode_cons, List.take_append, List.take_of_length_le (by omega), hlength]
  cases other with
  | nil =>
      have hnil := hshared.symm.eq_nil (by omega)
      cases hnil
  | cons d otherRest =>
      have hchar : c = d := by
        have hwhole : String.utf8EncodeChar c ++ ((encode rest).take (count - c.utf8Size) ++
            (encode (d :: otherRest)).drop count) =
              String.utf8EncodeChar d ++ encode otherRest :=
          calc
            _ = (encode (c :: rest)).take count ++ (encode (d :: otherRest)).drop count := by
              rw [htake, List.append_assoc]
            _ = (encode (d :: otherRest)).take count ++ (encode (d :: otherRest)).drop count :=
              congrArg (· ++ _) hshared
            _ = String.utf8EncodeChar d ++ encode otherRest := by
              rw [List.take_append_drop, encode_cons]
        exact (encodeChar_append_inj hwhole).1
      subst hchar
      unfold SharesBytes at hshared
      rw [htake, htake] at hshared
      exact ⟨otherRest, rfl, List.append_cancel_left hshared⟩

theorem exists_append {piece : List Char} (hshared : SharesBytes count (piece ++ rest) other)
    (hcount : byteLength piece ≤ count) :
    ∃ otherRest, other = piece ++ otherRest ∧
      SharesBytes (count - byteLength piece) rest otherRest := by
  induction piece generalizing count other with
  | nil => exact ⟨other, rfl, hshared⟩
  | cons c piece ih =>
      rw [byteLength_cons] at hcount
      obtain ⟨between, rfl, hbetween⟩ := hshared.exists_cons (by omega)
      obtain ⟨otherRest, rfl, hrest⟩ := ih hbetween (by omega)
      refine ⟨otherRest, rfl, ?_⟩
      rwa [byteLength_cons, ← Nat.sub_sub]

end SharesBytes

theorem utf8Size_of_ascii {c : Char} (hc : c.toNat < 128) : c.utf8Size = 1 := by
  rw [← String.length_utf8EncodeChar, encodeChar_of_ascii hc]
  rfl

theorem utf8Size_of_isWordCharacter {c : Char} (hc : isWordCharacter c) : c.utf8Size = 1 :=
  utf8Size_of_ascii (toNat_lt_of_isWordCharacter hc)

/-- What a token goes on with is at most two bytes long. -/
theorem Element.GoesOnWith.byteLength_le {element : Element} {ahead : List Char}
    (hahead : element.GoesOnWith ahead) (htoken : element.form.isToken) :
    byteLength ahead ≤ 2 := by
  cases hahead with
  | lineComment | openComment | openString => cases htoken
  | digit hdigit =>
      simp [utf8Size_of_isWordCharacter (isWordCharacter_of_isDigit hdigit)]
  | point _ hdigit =>
      have hpoint : Char.utf8Size '.' = 1 := rfl
      simp [utf8Size_of_isWordCharacter (isWordCharacter_of_isDigit hdigit), hpoint]
  | word hc => simp [utf8Size_of_isWordCharacter hc]
  | operator => decide
  | slash hc => rcases hc with rfl | rfl <;> decide

/-- Two bytes behind an element settle that it ends there. -/
theorem Element.EndsBefore.of_sharesBytes {element : Element} {rest other : List Char}
    (hends : element.EndsBefore rest) (hshared : SharesBytes 2 rest other) :
    element.EndsBefore other := by
  apply hends.transfer
  intro ahead hahead hbegins
  obtain ⟨otherRest, rfl⟩ := hbegins
  cases htoken : element.form.isToken with
  | true =>
      obtain ⟨after, rfl, -⟩ := hshared.symm.exists_append (hahead.byteLength_le htoken)
      exact ⟨ahead, hahead, after, rfl⟩
  | false =>
      obtain ⟨c, rfl, hc, hsame⟩ := hahead.other_than_token htoken
      cases rest with
      | nil => cases hshared.eq_nil (by decide)
      | cons d rest =>
          refine ⟨[d], hsame d ?_, rest, rfl⟩
          rintro hform rfl
          obtain ⟨_, hother, -⟩ := hshared.exists_cons (by decide)
          cases hother
          exact hc hform rfl

theorem Element.EndsBefore.exists_shared {element : Element} {rest other : List Char} {count : Nat}
    (hends : element.EndsBefore rest) (hshared : SharesBytes count (element.text ++ rest) other)
    (hcount : byteLength element.text + 2 ≤ count) :
    ∃ otherRest, other = element.text ++ otherRest ∧ element.EndsBefore otherRest ∧
      SharesBytes (count - byteLength element.text) rest otherRest := by
  obtain ⟨otherRest, rfl, hrest⟩ := hshared.exists_append (by omega)
  exact ⟨otherRest, rfl, hends.of_sharesBytes (hrest.mono (by omega)), hrest⟩

theorem filter_place_eq_nil {offset line stop : Nat} {text : List Char}
    (hlate : ∀ (element : Element) (rest : List Char), element.EndsBefore rest →
      text = element.text ++ rest → stop < offset + byteLength element.text) :
    (place offset line (elements text)).filter (fun placed => placed.stop ≤ stop) = [] := by
  rcases eq_nil_or_exists_endsBefore text with rfl | ⟨element, rest, hends, rfl⟩
  · rw [elements_nil]
    rfl
  · have hfirst := hlate element rest hends rfl
    rw [elements_of_endsBefore hends, place_cons, List.filter_eq_nil_iff]
    intro placed hmem
    rw [decide_eq_true_eq, Nat.not_le]
    rcases List.mem_cons.mp hmem with rfl | hmem
    · exact hfirst
    · have hstart := (mem_place hmem).1
      have hle := placed.start_le_stop
      omega

/-- Texts with the same bytes up to two behind an offset have the same elements up to
that offset, in the same places. -/
theorem filter_place_of_sharesBytes {offset stop : Nat} {text other : List Char}
    (hshared : SharesBytes (stop + 2 - offset) text other) (line : Nat) :
    (place offset line (elements text)).filter (fun placed => placed.stop ≤ stop) =
      (place offset line (elements other)).filter (fun placed => placed.stop ≤ stop) := by
  -- Behind an element that ends in time the texts share what is left of the bytes.
  induction hlength : text.length using Nat.strongRecOn generalizing offset line text other with
  | ind length ih =>
    by_cases hearly : ∃ (element : Element) (rest : List Char), element.EndsBefore rest ∧
        text = element.text ++ rest ∧ offset + byteLength element.text ≤ stop
    · obtain ⟨element, rest, hends, rfl, hstop⟩ := hearly
      obtain ⟨otherRest, rfl, hother, hrest⟩ := hends.exists_shared hshared (by omega)
      have hpos := List.length_pos_iff.mpr hends.text_ne_nil
      have hlt : rest.length < length := by
        rw [List.length_append] at hlength
        omega
      have hbehind : stop + 2 - offset - byteLength element.text =
          stop + 2 - (offset + byteLength element.text) := by omega
      rw [hbehind] at hrest
      rw [elements_of_endsBefore hends, elements_of_endsBefore hother, place_cons, place_cons,
        List.filter_cons, List.filter_cons, ih _ hlt hrest _ rfl]
    · -- If the other text had a first element in time, so would this one.
      rw [filter_place_eq_nil, filter_place_eq_nil]
      · intro element otherRest hends htext
        by_contra hstop
        rw [htext] at hshared
        obtain ⟨rest, hrest, hthis, -⟩ := hends.exists_shared hshared.symm (by omega)
        exact hearly ⟨element, rest, hthis, hrest, by omega⟩
      · intro element rest hends htext
        by_contra hstop
        exact hearly ⟨element, rest, hends, htext, by omega⟩

def Span.endsBy (span : Span) (stop : Nat) : Bool :=
  span.start.toNat + span.length.toNat ≤ stop

/-- The part of a scan that ends by an offset.  The end of the text is no part of
it. -/
def Scan.upTo (found : Scan) (stop : Nat) : Scan where
  tokens := found.tokens.filter fun token => !token.isEndOfText && token.span.endsBy stop
  diagnostics := found.diagnostics.filter fun diagnostic =>
    diagnostic.span.any fun span => span.endsBy stop

theorem endsBy_span_of_mem {source : String} (hbounded : Bounded source) {placed : Placed}
    (hmem : placed ∈ placedElements source.toList) (stop : Nat) :
    placed.span.endsBy stop = decide (placed.stop ≤ stop) := by
  have hstop := stop_le_of_mem_placedElements hbounded hmem
  unfold Span.endsBy
  rw [Placed.toNat_start_span hstop, Placed.toNat_length_span hstop]
  rfl

/-- What a scan finds up to an offset is what the elements up to it come to. -/
theorem upTo_boundedScan {source : String} (hbounded : Bounded source) (stop : Nat) :
    (boundedScan source).upTo stop =
      let early := (placedElements source.toList).filter fun placed => placed.stop ≤ stop
      { tokens := (early.map Placed.outcome).filterMap Finding.token?
        diagnostics := (early.map Placed.outcome).filterMap Finding.diagnostic? } := by
  have htokens : (tokensOf source ++ [endOf source]).filter
      (fun token => !token.isEndOfText && token.span.endsBy stop) =
        (tokensOf source).filter fun token => !token.isEndOfText && token.span.endsBy stop := by
    rw [List.filter_append]
    exact List.append_nil _
  rw [Scan.upTo, tokens_boundedScan, htokens]
  simp only [boundedScan, tokensOf, List.filterMap_map]
  congr 1
  · apply filter_filterMap_of_mem
    intro placed hmem token htoken
    have houtcome := Finding.token?_eq_some_iff.mp htoken
    have hsound := sound_of_mem_placedElements hmem
    have hkind := (reads_of_outcome hsound houtcome).1.kind_ne_eof hsound
    rw [(Placed.of_outcome_eq_token houtcome).2.2.1, endsBy_span_of_mem hbounded hmem]
    simp [Token.isEndOfText, hkind]
  · apply filter_filterMap_of_mem
    intro placed hmem diagnostic hdiagnostic
    have houtcome := Finding.diagnostic?_eq_some_iff.mp hdiagnostic
    rw [(Placed.of_outcome_eq_diagnostic houtcome).1]
    exact endsBy_span_of_mem hbounded hmem stop

/-- Scans of sources with the same bytes up to two behind an offset agree on all that
ends by that offset. -/
theorem scan_upTo_of_shared_bytes {source other : String} (hsource : Bounded source)
    (hother : Bounded other) {stop : Nat}
    (hshared : (bytesOf source).take (stop + 2) = (bytesOf other).take (stop + 2)) :
    ∃ found otherFound, scan source = .ok found ∧ scan other = .ok otherFound ∧
      found.upTo stop = otherFound.upTo stop := by
  refine ⟨boundedScan source, boundedScan other, scan_of_bounded hsource,
    scan_of_bounded hother, ?_⟩
  rw [bytesOf_eq_encode, bytesOf_eq_encode] at hshared
  have hbytes : SharesBytes (stop + 2 - 0) source.toList other.toList := hshared
  have hrow := filter_place_of_sharesBytes hbytes 1
  rw [upTo_boundedScan hsource, upTo_boundedScan hother, placedElements, hrow]
  rfl

theorem scan_upTo_of_shared_bytes_of_edit :
    Bounded "é \"a\n\" = /* b" ∧ Bounded "é \"a\n\" = /= \"" ∧
      (bytesOf "é \"a\n\" = /* b").take (9 + 2) = (bytesOf "é \"a\n\" = /= \"").take (9 + 2) ∧
      ∃ found otherFound, scan "é \"a\n\" = /* b" = .ok found ∧
        scan "é \"a\n\" = /= \"" = .ok otherFound ∧ found.upTo 9 = otherFound.upTo 9 :=
  have hsource : Bounded "é \"a\n\" = /* b" := by decide
  have hother : Bounded "é \"a\n\" = /= \"" := by decide
  have hshared : (bytesOf "é \"a\n\" = /* b").take (9 + 2) =
      (bytesOf "é \"a\n\" = /= \"").take (9 + 2) := by decide
  ⟨hsource, hother, hshared, scan_upTo_of_shared_bytes hsource hother hshared⟩

end LoxLexer
