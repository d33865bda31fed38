import LoxLexer.Proofs.Cursor.Basic
import LoxLexer.Proofs.Placing

/-!
# Texts as bytes

An ASCII character is encoded as one byte, which has its number.  Every byte of any
other character is beyond the ASCII numbers.  A byte below them therefore stands
for an ASCII character wherever it is found, and never for a part of another
one (`mem_encode_iff`).

Only offsets between two characters cut a text out of a source.
-/

namespace LoxLexer

def encode (text : List Char) : List UInt8 :=
  text.flatMap String.utf8EncodeChar

@[simp] theorem encode_nil : encode [] = [] := rfl

@[simp] theorem encode_cons (c : Char) (text : List Char) :
    encode (c :: text) = String.utf8EncodeChar c ++ encode text :=
  List.flatMap_cons

@[simp] theorem encode_append (x y : List Char) : encode (x ++ y) = encode x ++ encode y :=
  List.flatMap_append

theorem encode_eq_nil_iff {text : List Char} : encode text = [] ↔ text = [] := by
  cases text with
  | nil => simp
  | cons c text => simp [String.utf8EncodeChar_ne_nil]

theorem length_encode (text : List Char) : (encode text).length = byteLength text := by
  induction text with
  | nil => rfl
  | cons c text ih =>
      rw [encode_cons, List.length_append, String.length_utf8EncodeChar, ih, byteLength_cons]

theorem bytesOf_eq_encode (source : String) : bytesOf source = encode source.toList := by
  have hbytes : source.toUTF8 = (encode source.toList).toByteArray := by
    rw [encode, ← List.utf8Encode, ← String.toByteArray_ofList, String.ofList_toList]
    rfl
  rw [bytesOf, hbytes, List.data_toByteArray]

theorem fromUTF8?_eq_some_iff {bytes : ByteArray} {text : String} :
    String.fromUTF8? bytes = some text ↔ bytes = text.toUTF8 := by
  unfold String.fromUTF8?
  constructor
  · intro htext
    split at htext
    · cases htext
      rfl
    · contradiction
  · rintro rfl
    rw [String.toUTF8_eq_toByteArray, dif_pos text.isValidUTF8]
    rfl

theorem encodeChar_of_ascii {c : Char} (hc : c.toNat < 128) :
    String.utf8EncodeChar c = [UInt8.ofNat c.toNat] :=
  if_pos (Nat.le_of_lt_succ hc)

theorem high_of_mem_encodeChar {c : Char} (hc : 128 ≤ c.toNat) {byte : UInt8}
    (hmem : byte ∈ String.utf8EncodeChar c) : 128 ≤ byte.toNat := by
  have hfirst : ¬ c.val.toNat ≤ 127 := by
    intro hle
    exact absurd (Nat.lt_of_le_of_lt hle (Nat.lt_succ_self 127)) (Nat.not_lt.mpr hc)
  unfold String.utf8EncodeChar at hmem
  simp only [hfirst, if_false] at hmem
  split at hmem
  · simp only [List.mem_cons, List.not_mem_nil, or_false] at hmem
    rcases hmem with rfl | rfl <;> rw [UInt8.toNat_ofNat'] <;> omega
  split at hmem
  · simp only [List.mem_cons, List.not_mem_nil, or_false] at hmem
    rcases hmem with rfl | rfl | rfl <;> rw [UInt8.toNat_ofNat'] <;> omega
  · simp only [List.mem_cons, List.not_mem_nil, or_false] at hmem
    rcases hmem with rfl | rfl | rfl | rfl <;> rw [UInt8.toNat_ofNat'] <;> omega

theorem ofUInt8_ofNat_toNat {c : Char} (hc : c.toNat < 128) :
    Char.ofUInt8 (UInt8.ofNat c.toNat) = c := by
  apply Char.ext
  apply UInt32.toNat_inj.mp
  change (UInt8.ofNat c.toNat).toUInt32.toNat = c.toNat
  rw [UInt8.toNat_toUInt32, UInt8.toNat_ofNat']
  exact Nat.mod_eq_of_lt (Nat.lt_trans hc (by decide))

theorem toNat_ofUInt8 (byte : UInt8) : (Char.ofUInt8 byte).toNat = byte.toNat :=
  UInt8.toNat_toUInt32 byte

/-- A byte among the ASCII ones is the encoding of its character. -/
theorem encodeChar_ofUInt8 {byte : UInt8} (hbyte : byte.toNat < 128) :
    String.utf8EncodeChar (Char.ofUInt8 byte) = [byte] := by
  rw [encodeChar_of_ascii (by rwa [toNat_ofUInt8]), toNat_ofUInt8, UInt8.ofNat_toNat]

theorem mem_encodeChar_iff {byte : UInt8} (hbyte : byte.toNat < 128) {c : Char} :
    byte ∈ String.utf8EncodeChar c ↔ Char.ofUInt8 byte = c := by
  constructor
  · intro hmem
    by_cases hc : c.toNat < 128
    · rw [encodeChar_of_ascii hc, List.mem_singleton] at hmem
      rw [hmem, ofUInt8_ofNat_toNat hc]
    · have hhigh := high_of_mem_encodeChar (Nat.le_of_not_lt hc) hmem
      omega
  · rintro rfl
    rw [encodeChar_ofUInt8 hbyte]
    exact List.mem_singleton_self byte

theorem mem_encode_iff {byte : UInt8} (hbyte : byte.toNat < 128) {text : List Char} :
    byte ∈ encode text ↔ Char.ofUInt8 byte ∈ text := by
  simp only [encode, List.mem_flatMap, mem_encodeChar_iff hbyte, exists_eq_right']

/-- Of the bytes of a character none but the first can be an ASCII one. -/
theorem exists_encodeChar (c : Char) :
    ∃ byte high, String.utf8EncodeChar c = byte :: high ∧
      (∀ other ∈ high, 128 ≤ other.toNat) ∧
      (c.toNat < 128 ∧ Char.ofUInt8 byte = c ∨ 128 ≤ c.toNat ∧ 128 ≤ byte.toNat) := by
  by_cases hc : c.toNat < 128
  · exact ⟨_, [], encodeChar_of_ascii hc, by simp, .inl ⟨hc, ofUInt8_ofNat_toNat hc⟩⟩
  · have hhigh : ∀ byte ∈ String.utf8EncodeChar c, 128 ≤ byte.toNat :=
      fun byte => high_of_mem_encodeChar (Nat.le_of_not_lt hc)
    cases hbytes : String.utf8EncodeChar c with
    | nil => exact absurd hbytes String.utf8EncodeChar_ne_nil
    | cons byte high =>
        rw [hbytes] at hhigh
        exact ⟨byte, high, rfl, fun other hmem => hhigh other (List.mem_cons_of_mem _ hmem),
          .inr ⟨Nat.le_of_not_lt hc, hhigh byte List.mem_cons_self⟩⟩

/-- A test that no character beyond ASCII passes sees the first byte of a character as the
character. -/
theorem test_ofUInt8 {test : Char → Bool} (htest : ∀ c, test c → c.toNat < 128) {c : Char}
    {byte : UInt8} {high : List UInt8} (hbytes : String.utf8EncodeChar c = byte :: high) :
    test (Char.ofUInt8 byte) = test c := by
  obtain ⟨first, more, hfirst, -, hcases⟩ := exists_encodeChar c
  rw [hbytes, List.cons.injEq] at hfirst
  obtain ⟨rfl, -⟩ := hfirst
  rcases hcases with ⟨-, hbyte⟩ | ⟨hc, hbyte⟩
  · rw [hbyte]
  · have hleft : test (Char.ofUInt8 byte) = false := by
      refine Bool.eq_false_iff.mpr fun hpass => ?_
      have hlt := htest _ hpass
      rw [toNat_ofUInt8] at hlt
      omega
    have hright : test c = false := by
      refine Bool.eq_false_iff.mpr fun hpass => ?_
      have hlt := htest _ hpass
      omega
    rw [hleft, hright]

/-- The encoding of a character is not the beginning of that of another one. -/
theorem encodeChar_append_inj {c d : Char} {rest other : List UInt8}
    (hbytes : String.utf8EncodeChar c ++ rest = String.utf8EncodeChar d ++ other) :
    c = d ∧ rest = other := by
  have hdecode := congrArg (fun bytes : List UInt8 => bytes.toByteArray.utf8DecodeChar? 0) hbytes
  simp only [List.toByteArray_append, ByteArray.utf8DecodeChar?_utf8EncodeChar_append,
    Option.some.injEq] at hdecode
  subst hdecode
  exact ⟨rfl, List.append_cancel_left hbytes⟩

theorem count_lineFeed_encodeChar (c : Char) :
    (String.utf8EncodeChar c).count 10 = if c = '\n' then 1 else 0 := by
  by_cases hc : c = '\n'
  · subst hc
    rfl
  · rw [if_neg hc, List.count_eq_zero]
    intro hmem
    exact hc ((mem_encodeChar_iff (by decide)).mp hmem).symm

theorem count_lineFeed_encode (text : List Char) :
    (encode text).count 10 = lineFeeds text := by
  induction text with
  | nil => rfl
  | cons c text ih =>
      rw [encode_cons, List.count_append, count_lineFeed_encodeChar, ih, lineFeeds, lineFeeds,
        List.count_cons, Nat.add_comm]
      simp only [beq_iff_eq]

/-- A stretch of bytes that are ASCII characters of some kind is a stretch of such characters. -/
theorem takeWhile_encode_of_test {test : Char → Bool} (htest : ∀ c, test c → c.toNat < 128)
    (text : List Char) :
    (encode text).takeWhile (fun byte => test (Char.ofUInt8 byte)) =
      encode (text.takeWhile test) := by
  induction text with
  | nil => rfl
  | cons c text ih =>
      by_cases hc : test c
      · have hbytes := encodeChar_of_ascii (htest c hc)
        have hbyte := test_ofUInt8 htest hbytes
        rw [List.takeWhile_cons_of_pos hc, encode_cons, encode_cons, hbytes,
          List.singleton_append, List.singleton_append, List.takeWhile_cons, hbyte, hc, ih]
        rfl
      · obtain ⟨byte, high, hbytes, -, -⟩ := exists_encodeChar c
        have hbyte := test_ofUInt8 htest hbytes
        rw [List.takeWhile_cons_of_neg hc, encode_cons, hbytes, List.cons_append,
          List.takeWhile_cons, hbyte, if_neg hc, encode_nil]

/-- Looking for an ASCII byte takes whole characters. -/
theorem takeWhile_bne_encode {byte : UInt8} (hbyte : byte.toNat < 128) (text : List Char) :
    (encode text).takeWhile (· != byte) = encode (text.takeWhile (· != Char.ofUInt8 byte)) := by
  induction text with
  | nil => rfl
  | cons c text ih =>
      by_cases hc : Char.ofUInt8 byte = c
      · subst hc
        rw [encode_cons, encodeChar_ofUInt8 hbyte, List.singleton_append,
          List.takeWhile_cons_of_neg (by simp), List.takeWhile_cons_of_neg (by simp), encode_nil]
      · have hnone : ∀ other ∈ String.utf8EncodeChar c, other != byte := by
          intro other hother
          rw [bne_iff_ne]
          rintro rfl
          exact hc ((mem_encodeChar_iff hbyte).mp hother)
        rw [encode_cons, List.takeWhile_append_of_pos hnone, ih,
          List.takeWhile_cons_of_pos (by simpa using Ne.symm hc), encode_cons]

theorem findIdx?_encode_of_not_mem {byte : UInt8} (hbyte : byte.toNat < 128) {text : List Char}
    (hmem : Char.ofUInt8 byte ∉ text) : (encode text).findIdx? (· == byte) = none := by
  rw [List.findIdx?_eq_none_iff]
  intro other hother
  simp only [beq_eq_false_iff_ne, ne_eq]
  rintro rfl
  exact hmem ((mem_encode_iff hbyte).mp hother)

/-- The first byte of some value stands behind the text in front of its character. -/
theorem findIdx?_encode_of_mem {byte : UInt8} (hbyte : byte.toNat < 128) {text : List Char}
    (hmem : Char.ofUInt8 byte ∈ text) :
    (encode text).findIdx? (· == byte) =
      some (byteLength (text.takeWhile (· != Char.ofUInt8 byte))) := by
  have hbefore : Char.ofUInt8 byte ∉ text.takeWhile (· != Char.ofUInt8 byte) :=
    not_mem_takeWhile (by simp)
  cases hdrop : text.dropWhile (· != Char.ofUInt8 byte) with
  | nil => exact absurd hmem (not_mem_of_dropWhile_bne hdrop)
  | cons c after =>
      have hc : c = Char.ofUInt8 byte := by
        simpa using eq_false_of_dropWhile_eq_cons hdrop
      subst hc
      have hencode : encode text =
          encode (text.takeWhile (· != Char.ofUInt8 byte)) ++ byte :: encode after := by
        rw [← List.singleton_append, ← encodeChar_ofUInt8 hbyte, ← encode_cons, ← hdrop,
          ← encode_append, List.takeWhile_append_dropWhile]
      rw [hencode, List.findIdx?_append, findIdx?_encode_of_not_mem hbyte hbefore, length_encode]
      simp [List.findIdx?_cons]

theorem isValid_of_append {source : String} {before after : List Char}
    (hsource : source.toList = before ++ after) :
    String.Pos.Raw.IsValid source ⟨byteLength before⟩ := by
  rw [String.Pos.Raw.isValid_iff_exists_append]
  refine ⟨.ofList before, .ofList after, ?_, ?_⟩
  · rw [← String.ofList_append, ← hsource, String.ofList_toList]
  · exact congrArg String.Pos.Raw.mk (utf8ByteSize_ofList before).symm

/-- Between the ends of two beginnings of a source stands the text by which they
differ. -/
theorem textBetween_of_append {source : String} {before inside after : List Char}
    (hsource : source.toList = before ++ inside ++ after) :
    textBetween source (byteLength before) (byteLength (before ++ inside)) =
      .ok (String.ofList inside) := by
  have hstart : String.Pos.Raw.IsValid source ⟨byteLength before⟩ :=
    isValid_of_append (hsource.trans (List.append_assoc _ _ _))
  have hstop : String.Pos.Raw.IsValid source ⟨byteLength (before ++ inside)⟩ :=
    isValid_of_append hsource
  have hle : byteLength before ≤ byteLength (before ++ inside) := by
    rw [byteLength_append]
    exact Nat.le_add_right _ _
  have hbytes : source.toByteArray =
      (String.ofList before).toByteArray ++
        ((String.ofList inside).toByteArray ++ (String.ofList after).toByteArray) := by
    rw [← String.toByteArray_append, ← String.toByteArray_append, ← String.ofList_append,
      ← String.ofList_append, ← List.append_assoc, ← hsource, String.ofList_toList]
  have hsize : byteLength before = (String.ofList before).toByteArray.size := by
    rw [String.size_toByteArray, utf8ByteSize_ofList]
  have hinside : byteLength inside = (String.ofList inside).toByteArray.size := by
    rw [String.size_toByteArray, utf8ByteSize_ofList]
  rw [textBetween, dif_pos ⟨hstart, hstop, hle⟩]
  congr 1
  apply String.toByteArray_inj.mp
  rw [String.toByteArray_extract]
  change source.toByteArray.extract (byteLength before) (byteLength (before ++ inside)) = _
  rw [byteLength_append, hbytes, hsize, hinside]
  have hfront := ByteArray.extract_append_size_add (a := (String.ofList before).toByteArray)
    (b := (String.ofList inside).toByteArray ++ (String.ofList after).toByteArray) (i := 0)
    (j := (String.ofList inside).toByteArray.size)
  rw [Nat.add_zero] at hfront
  rw [hfront, ByteArray.extract_append_eq_left rfl]

end LoxLexer
