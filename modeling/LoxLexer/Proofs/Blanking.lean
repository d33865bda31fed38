import LoxLexer.Proofs.Boundary
import LoxLexer.Proofs.Cursor.Encoding
import LoxLexer.Proofs.Moving
import LoxLexer.Proofs.Tiling

/-!
# Blanked sources

A source is blanked by writing a space over each byte that a scan does not keep.  The
bytes of tokens and of an open string are kept, and so are line feeds.  What is
written over was a blank, a comment or a stray character, and turns into a row of
blanks that is as long and has as many line feeds (`Element.blanked`).

No token goes on with a blank, so an element that is kept ends in front of the blanks
wherever it ended before (`Element.EndsBefore.blanked`), and the blanked source splits
into the same elements with blanks between them (`Splits.blanked`).  They have not moved
(`filter_place_blankedRow`).
-/

namespace LoxLexer

/-- The byte that takes the place of one that is not kept. -/
def blankByte (byte : UInt8) : UInt8 :=
  if byte = 10 then byte else 32

/-- Whether an offset lies in a token, or in a string that is reported as
unterminated. -/
def Scan.Keeps (found : Scan) (offset : Nat) : Prop :=
  (∃ token ∈ found.tokens, token.span.Holds offset) ∨
    ∃ diagnostic ∈ found.diagnostics, diagnostic.code = Message.unterminatedString.code ∧
      ∃ span ∈ diagnostic.span, span.Holds offset

instance (span : Span) (offset : Nat) : Decidable (span.Holds offset) :=
  inferInstanceAs (Decidable (_ ∧ _))

instance (found : Scan) (offset : Nat) : Decidable (found.Keeps offset) :=
  inferInstanceAs (Decidable (_ ∨ _))

/-- The bytes of a source, blanked where a scan of it keeps nothing. -/
def Scan.blankBytes (found : Scan) (bytes : List UInt8) : List UInt8 :=
  bytes.mapIdx fun offset byte => if found.Keeps offset then byte else blankByte byte

def Diagnostic.isUnexpectedCharacter (diagnostic : Diagnostic) : Bool :=
  diagnostic.code == Message.unexpectedCharacter.code

/-- The scan without the characters that it reports as unexpected. -/
def Scan.withoutUnexpected (found : Scan) : Scan where
  tokens := found.tokens
  diagnostics := found.diagnostics.filter fun diagnostic => !diagnostic.isUnexpectedCharacter

def Form.isKept : Form → Bool
  | .string | .number | .word | .symbol _ | .openString => true
  | _ => false

theorem Form.isToken_or_openString_of_isKept {form : Form} (hkept : form.isKept) :
    form.isToken ∨ form = .openString := by
  cases form with
  | string | number | word | symbol => exact .inl rfl
  | openString => exact .inr rfl
  | _ => cases hkept

def blankCharacter (c : Char) : List Char :=
  if c = '\n' then ['\n'] else List.replicate c.utf8Size ' '

def blankText (text : List Char) : List Char :=
  text.flatMap blankCharacter

/-- Texts with as many bytes and as many line feeds. -/
structure SameExtent (text other : List Char) : Prop where
  byteLength_eq : byteLength text = byteLength other
  lineFeeds_eq : lineFeeds text = lineFeeds other

/-- What an element turns into where a source is blanked. -/
def Element.blanked (element : Element) : List Element :=
  if element.form.isKept then [element]
  else (blankText element.text).map fun c => ⟨.blank, [c]⟩

def blankedRow (row : List Element) : List Element :=
  row.flatMap Element.blanked

theorem SameExtent.append {text other rest otherRest : List Char} (hextent : SameExtent text other)
    (hrest : SameExtent rest otherRest) : SameExtent (text ++ rest) (other ++ otherRest) := by
  constructor
  case byteLength_eq =>
    rw [byteLength_append, byteLength_append, hextent.byteLength_eq, hrest.byteLength_eq]
  case lineFeeds_eq =>
    rw [lineFeeds_append, lineFeeds_append, hextent.lineFeeds_eq, hrest.lineFeeds_eq]

theorem byteLength_replicate (count : Nat) (c : Char) :
    byteLength (List.replicate count c) = count * c.utf8Size := by
  induction count with
  | zero => simp
  | succ count ih =>
      rw [List.replicate_succ, byteLength_cons, ih, Nat.succ_mul, Nat.add_comm]

theorem sameExtent_blankCharacter (c : Char) : SameExtent (blankCharacter c) [c] := by
  unfold blankCharacter
  split
  next hc =>
    subst hc
    exact ⟨rfl, rfl⟩
  next hc =>
    constructor
    case byteLength_eq =>
      have hspace : Char.utf8Size ' ' = 1 := rfl
      simp [byteLength_replicate, hspace]
    case lineFeeds_eq => simp [lineFeeds, List.count_replicate, hc]

theorem sameExtent_blankText (text : List Char) : SameExtent (blankText text) text := by
  induction text with
  | nil => exact ⟨rfl, rfl⟩
  | cons c text ih =>
      rw [blankText, List.flatMap_cons]
      exact (sameExtent_blankCharacter c).append ih

theorem isBlank_of_mem_blankText {text : List Char} {c : Char} (hmem : c ∈ blankText text) :
    isBlank c := by
  obtain ⟨original, -, hc⟩ := List.mem_flatMap.mp hmem
  unfold blankCharacter at hc
  split at hc
  next =>
    rw [List.mem_singleton.mp hc]
    decide
  next =>
    rw [List.eq_of_mem_replicate hc]
    decide

theorem eq_nil_of_blankText_eq_nil {text : List Char} (hblank : blankText text = []) :
    text = [] := by
  apply eq_nil_of_byteLength_eq_zero
  rw [← (sameExtent_blankText text).byteLength_eq, hblank]
  rfl

theorem map_blankByte_encodeChar (c : Char) :
    (String.utf8EncodeChar c).map blankByte = encode (blankCharacter c) := by
  by_cases hc : c = '\n'
  · subst hc
    rfl
  · have hspace : ∀ byte ∈ String.utf8EncodeChar c, blankByte byte = 32 := by
      intro byte hmem
      apply if_neg
      rintro rfl
      exact hc ((mem_encodeChar_iff (by decide)).mp hmem).symm
    have hencode : ∀ count, encode (List.replicate count ' ') = List.replicate count 32 := by
      intro count
      induction count with
      | zero => rfl
      | succ count ih => rw [List.replicate_succ, encode_cons, ih]; rfl
    rw [blankCharacter, if_neg hc, hencode, ← String.length_utf8EncodeChar]
    exact List.map_eq_replicate_iff.mpr hspace

theorem map_blankByte_encode (text : List Char) :
    (encode text).map blankByte = encode (blankText text) := by
  induction text with
  | nil => rfl
  | cons c text ih =>
      rw [encode_cons, List.map_append, map_blankByte_encodeChar, ih, blankText, blankText,
        List.flatMap_cons, encode_append]

theorem blankedRow_cons (element : Element) (row : List Element) :
    blankedRow (element :: row) = element.blanked ++ blankedRow row :=
  List.flatMap_cons

theorem text_blankedRow_cons (element : Element) (row : List Element) :
    (blankedRow (element :: row)).flatMap Element.text =
      element.blanked.flatMap Element.text ++ (blankedRow row).flatMap Element.text := by
  rw [blankedRow_cons, List.flatMap_append]

theorem flatMap_text_blanks (text : List Char) :
    (text.map fun c => (⟨.blank, [c]⟩ : Element)).flatMap Element.text = text := by
  rw [List.flatMap_map]
  exact List.flatMap_singleton' text

theorem Element.text_blanked (element : Element) :
    element.blanked.flatMap Element.text =
      if element.form.isKept then element.text else blankText element.text := by
  unfold Element.blanked
  split
  · simp
  · exact flatMap_text_blanks _

theorem Element.sameExtent_blanked (element : Element) :
    SameExtent (element.blanked.flatMap Element.text) element.text := by
  rw [Element.text_blanked]
  split
  · exact ⟨rfl, rfl⟩
  · exact sameExtent_blankText _

theorem sameExtent_blankedRow (row : List Element) :
    SameExtent ((blankedRow row).flatMap Element.text) (row.flatMap Element.text) := by
  induction row with
  | nil => exact ⟨rfl, rfl⟩
  | cons element row ih =>
      rw [text_blankedRow_cons, List.flatMap_cons]
      exact element.sameExtent_blanked.append ih

/-- A text without blanks is seen in front of blanked elements only where it stood
before. -/
theorem prefix_of_prefix_blankedRow {ahead : List Char} (hahead : ∀ c ∈ ahead, isBlank c = false)
    {row : List Element} (hbegins : ahead <+: (blankedRow row).flatMap Element.text) :
    ahead <+: row.flatMap Element.text := by
  induction row generalizing ahead with
  | nil => exact hbegins
  | cons element row ih =>
      rw [text_blankedRow_cons, Element.text_blanked] at hbegins
      rw [List.flatMap_cons]
      split at hbegins
      next =>
        rcases prefix_append_cases hbegins with htext | ⟨more, rfl, hmore⟩
        · exact htext.trans (List.prefix_append _ _)
        · apply (List.prefix_append_right_inj element.text).mpr
          exact ih (fun c hc => hahead c (List.mem_append_right _ hc)) hmore
      next =>
        cases ahead with
        | nil => exact List.nil_prefix
        | cons c ahead =>
            cases hblank : blankText element.text with
            | nil =>
                rw [hblank] at hbegins
                rw [eq_nil_of_blankText_eq_nil hblank]
                exact ih hahead hbegins
            | cons d blanks =>
                rw [hblank, List.cons_append, List.cons_prefix_cons] at hbegins
                have hd : isBlank d := isBlank_of_mem_blankText (hblank ▸ List.mem_cons_self)
                rw [← hbegins.1, hahead c List.mem_cons_self] at hd
                cases hd

theorem Element.EndsBefore.blanked {element : Element} {row : List Element}
    (hends : element.EndsBefore (row.flatMap Element.text)) (hkept : element.form.isKept) :
    element.EndsBefore ((blankedRow row).flatMap Element.text) := by
  by_cases htoken : element.form.isToken
  · apply hends.transfer
    intro ahead hahead hbegins
    exact ⟨ahead, hahead, prefix_of_prefix_blankedRow (hahead.isBlank_eq_false htoken) hbegins⟩
  · -- A string that is still open has nothing behind it that could be blanked.
    have hform := (Form.isToken_or_openString_of_isKept hkept).resolve_left htoken
    have hopen : ∀ c, element.GoesOnWith [c] := by
      obtain ⟨form, text⟩ := element
      cases hform
      exact fun _ => .openString
    have hrest := hends.rest_eq_nil hopen
    have hnil : (blankedRow row).flatMap Element.text = [] := by
      apply eq_nil_of_byteLength_eq_zero
      rw [(sameExtent_blankedRow row).byteLength_eq, hrest]
      rfl
    rwa [hnil, ← hrest]

theorem Splits.append_blanks {text other : List Char} {row : List Element}
    (htext : ∀ c ∈ text, isBlank c) (hsplits : Splits other row) :
    Splits (text ++ other) (text.map (fun c => ⟨.blank, [c]⟩) ++ row) := by
  induction text with
  | nil => exact hsplits
  | cons c text ih =>
      have hc := isBlank_iff.mp (htext c List.mem_cons_self)
      exact .of_endsBefore (Element.endsBefore_blank hc _)
        (ih fun d hd => htext d (List.mem_cons_of_mem _ hd))

theorem Splits.blanked {text : List Char} {row : List Element} (hsplits : Splits text row) :
    Splits ((blankedRow row).flatMap Element.text) (blankedRow row) := by
  induction hsplits with
  | nil => exact .nil
  | @cons element rest row hhead hrest ih =>
      rw [text_blankedRow_cons, blankedRow_cons]
      by_cases hkept : element.form.isKept
      · have hends := heads_append_iff.mp hhead
        rw [← hrest.flatMap_text] at hends
        rw [Element.blanked, if_pos hkept, List.flatMap_singleton]
        exact .of_endsBefore (hends.blanked hkept) ih
      · rw [Element.blanked, if_neg hkept, flatMap_text_blanks]
        exact ih.append_blanks fun c => isBlank_of_mem_blankText

/-! ## What blanked elements come to -/

theorem Element.blanked_of_mem {element other : Element} (hmem : other ∈ element.blanked) :
    other = element ∧ element.form.isKept ∨ other.form = .blank := by
  unfold Element.blanked at hmem
  split at hmem
  next hkept => exact .inl ⟨List.mem_singleton.mp hmem, hkept⟩
  next =>
    obtain ⟨c, -, rfl⟩ := List.mem_map.mp hmem
    exact .inr rfl

/-- Kept elements stay where they are. -/
theorem filter_place_blankedRow (offset line : Nat) (row : List Element) :
    (place offset line (blankedRow row)).filter (fun placed => placed.element.form.isKept) =
      (place offset line row).filter fun placed => placed.element.form.isKept := by
  induction row generalizing offset line with
  | nil => rfl
  | cons element row ih =>
      have hextent := element.sameExtent_blanked
      rw [blankedRow_cons, place_append, List.filter_append, hextent.byteLength_eq,
        hextent.lineFeeds_eq, ih, place_cons, List.filter_cons]
      by_cases hkept : element.form.isKept
      · rw [Element.blanked, if_pos hkept, place_cons, place_nil, List.filter_singleton,
          if_pos hkept]
        simp [hkept]
      · rw [if_neg hkept, List.filter_eq_nil_iff.mpr, List.nil_append]
        intro placed hmem
        rcases Element.blanked_of_mem (element_mem_of_mem_place hmem) with ⟨-, hagain⟩ | hblank
        · exact absurd hagain hkept
        · rw [hblank]
          decide

theorem Placed.isKept_of_token? {placed : Placed} {token : Token}
    (htoken : placed.outcome.token? = some token) : placed.element.form.isKept := by
  obtain ⟨⟨form, text⟩, start, line⟩ := placed
  cases form <;> first | rfl | cases htoken

/-- Of the elements that are errors all but stray characters are kept. -/
theorem Placed.isKept_of_diagnostic? {placed : Placed} {diagnostic : Diagnostic}
    (hdiagnostic : placed.outcome.diagnostic? = some diagnostic) :
    (!diagnostic.isUnexpectedCharacter) = placed.element.form.isKept := by
  have houtcome := Finding.diagnostic?_eq_some_iff.mp hdiagnostic
  unfold Diagnostic.isUnexpectedCharacter
  rcases (of_outcome_eq_diagnostic houtcome).2 with ⟨hform, hcode, -⟩ | ⟨hform, hcode, -⟩
  · rw [hform, hcode]
    rfl
  · rw [hform, hcode]
    rfl

theorem foundTokens_eq_of_kept (offset line : Nat) (row : List Element) :
    foundTokens offset line row =
      ((place offset line row).filter fun placed => placed.element.form.isKept).filterMap
        fun placed => placed.outcome.token? := by
  rw [foundTokens, List.filterMap_map, ← filter_filterMap_of_mem (p := fun _ => true)]
  · rw [List.filter_true]
    rfl
  · intro placed _ token htoken
    exact (Placed.isKept_of_token? htoken).symm

theorem filter_foundDiagnostics_eq (offset line : Nat) (row : List Element) :
    (foundDiagnostics offset line row).filter (fun diagnostic =>
        !diagnostic.isUnexpectedCharacter) =
      ((place offset line row).filter fun placed => placed.element.form.isKept).filterMap
        fun placed => placed.outcome.diagnostic? := by
  rw [foundDiagnostics, List.filterMap_map]
  apply filter_filterMap_of_mem
  intro placed _ diagnostic hdiagnostic
  exact Placed.isKept_of_diagnostic? hdiagnostic

theorem foundTokens_blankedRow (offset line : Nat) (row : List Element) :
    foundTokens offset line (blankedRow row) = foundTokens offset line row := by
  rw [foundTokens_eq_of_kept, filter_place_blankedRow, ← foundTokens_eq_of_kept]

/-- Nothing is unexpected where a source has been blanked. -/
theorem foundDiagnostics_blankedRow (offset line : Nat) (row : List Element) :
    foundDiagnostics offset line (blankedRow row) =
      (foundDiagnostics offset line row).filter fun diagnostic =>
        !diagnostic.isUnexpectedCharacter := by
  rw [filter_foundDiagnostics_eq, ← filter_place_blankedRow, ← filter_foundDiagnostics_eq,
    eq_comm, List.filter_eq_self]
  intro diagnostic hmem
  rw [foundDiagnostics, List.filterMap_map] at hmem
  obtain ⟨placed, hplaced, hdiagnostic⟩ := List.mem_filterMap.mp hmem
  have hkept := Placed.isKept_of_diagnostic? hdiagnostic
  obtain ⟨element, -, hblanked⟩ := List.mem_flatMap.mp (element_mem_of_mem_place hplaced)
  rcases Element.blanked_of_mem hblanked with ⟨rfl, hagain⟩ | hblank
  · rw [hkept, hagain]
  · obtain ⟨⟨form, text⟩, start, line⟩ := placed
    cases hblank
    cases hdiagnostic

theorem mapIdx_eq_map {α β : Type} {f : Nat → α → β} {g : α → β} {list : List α}
    (hsame : ∀ index < list.length, ∀ x, f index x = g x) : list.mapIdx f = list.map g := by
  apply List.ext_getElem
  · rw [List.length_mapIdx, List.length_map]
  · intro index hindex _
    rw [List.getElem_mapIdx, List.getElem_map]
    exact hsame index (by rwa [List.length_mapIdx] at hindex) _

/-- Blanking the bytes of a row of elements blanks its elements, if what is kept of each
of them is either all of it or nothing. -/
theorem encode_blankedRow (keeps : Nat → Prop) [DecidablePred keeps] {offset line : Nat}
    {row : List Element}
    (hkeeps : ∀ placed ∈ place offset line row, ∀ index, placed.start ≤ index →
      index < placed.stop → (keeps index ↔ placed.element.form.isKept)) :
    encode ((blankedRow row).flatMap Element.text) =
      (encode (row.flatMap Element.text)).mapIdx fun index byte =>
        if keeps (offset + index) then byte else blankByte byte := by
  induction row generalizing offset line with
  | nil => rfl
  | cons element row ih =>
      rw [place_cons, List.forall_mem_cons] at hkeeps
      obtain ⟨helement, hrow⟩ := hkeeps
      rw [text_blankedRow_cons, encode_append, List.flatMap_cons, encode_append,
        List.mapIdx_append, ih hrow]
      congr 1
      · -- No other element says anything about the bytes of the first one.
        have hinside : ∀ index < (encode element.text).length,
            (keeps (offset + index) ↔ element.form.isKept) := by
          intro index hindex
          rw [length_encode] at hindex
          exact helement _ (Nat.le_add_right _ _) (Nat.add_lt_add_left hindex _)
        rw [Element.text_blanked]
        split
        next hkept =>
          rw [mapIdx_eq_map (g := id), List.map_id]
          exact fun index hindex byte => if_pos ((hinside index hindex).mpr hkept)
        next hkept =>
          rw [mapIdx_eq_map (g := blankByte), map_blankByte_encode]
          exact fun index hindex byte => if_neg fun h => hkept ((hinside index hindex).mp h)
      · simp only [length_encode, Nat.add_assoc, Nat.add_comm (byteLength element.text)]

theorem eq_of_common_offset {source : String} {placed other : Placed} {offset : Nat}
    (hplaced : placed ∈ placedElements source.toList)
    (hother : other ∈ placedElements source.toList)
    (hin : placed.start ≤ offset ∧ offset < placed.stop)
    (hinOther : other.start ≤ offset ∧ offset < other.stop) : other = placed := by
  by_contra hne
  have hsymm : Std.Symm fun first second : Placed =>
      first.stop ≤ second.start ∨ second.stop ≤ first.start :=
    ⟨fun _ _ h => h.symm⟩
  have hall : (placedElements source.toList).Pairwise fun first second =>
      first.stop ≤ second.start ∨ second.stop ≤ first.start :=
    (pairwise_place 0 1 (elements source.toList)).imp fun h => .inl h.1
  rcases hall.forall hother hplaced hne with h | h <;> omega

theorem exists_isKept_of_keeps {source : String} {offset : Nat}
    (hkeeps : (boundedScan source).Keeps offset) :
    ∃ placed ∈ placedElements source.toList,
      placed.element.form.isKept ∧ placed.span.Holds offset := by
  rcases hkeeps with ⟨token, htoken, hholds⟩ | ⟨diagnostic, hdiagnostic, hcode, span, hspan, hholds⟩
  · rw [tokens_boundedScan] at htoken
    rcases List.mem_append.mp htoken with htoken | hend
    · obtain ⟨placed, hmem, houtcome⟩ := mem_tokensOf.mp htoken
      rw [(Placed.of_outcome_eq_token houtcome).2.2.1] at hholds
      have hkept := Placed.isKept_of_token? (Finding.token?_eq_some_iff.mpr houtcome)
      exact ⟨placed, hmem, hkept, hholds⟩
    · -- The end of the text holds no byte.
      rw [List.mem_singleton.mp hend] at hholds
      have hlength : (endOf source).span.length.toNat = 0 := rfl
      unfold Span.Holds at hholds
      omega
  · obtain ⟨placed, hmem, houtcome⟩ := mem_diagnostics.mp hdiagnostic
    rw [(Placed.of_outcome_eq_diagnostic houtcome).1] at hspan
    cases hspan
    have hkept := Placed.isKept_of_diagnostic? (Finding.diagnostic?_eq_some_iff.mpr houtcome)
    rw [Diagnostic.isUnexpectedCharacter, hcode] at hkept
    exact ⟨placed, hmem, hkept.symm, hholds⟩

theorem keeps_of_isKept {source : String} {placed : Placed}
    (hmem : placed ∈ placedElements source.toList) (hkept : placed.element.form.isKept)
    {offset : Nat} (hholds : placed.span.Holds offset) : (boundedScan source).Keeps offset := by
  rcases Form.isToken_or_openString_of_isKept hkept with htoken | hopen
  · have hspan := placed.span_token?
    rw [if_pos htoken] at hspan
    obtain ⟨token, houtcome, hspan⟩ := Option.map_eq_some_iff.mp hspan
    rw [Finding.token?_eq_some_iff] at houtcome
    refine .inl ⟨token, ?_, by rwa [hspan]⟩
    rw [tokens_boundedScan]
    exact List.mem_append_left _ (mem_tokensOf.mpr ⟨placed, hmem, houtcome⟩)
  · have hspan := placed.span_diagnostic?
    rw [hopen] at hspan
    obtain ⟨diagnostic, houtcome, hspan⟩ := Option.bind_eq_some_iff.mp hspan
    rw [Finding.diagnostic?_eq_some_iff] at houtcome
    refine .inr ⟨diagnostic, mem_diagnostics.mpr ⟨placed, hmem, houtcome⟩, ?_, _, hspan, hholds⟩
    rcases (Placed.of_outcome_eq_diagnostic houtcome).2 with ⟨hstray, -⟩ | ⟨-, hcode, -⟩
    · rw [hopen] at hstray
      cases hstray
    · exact hcode

theorem keeps_boundedScan_iff {source : String} (hbounded : Bounded source) {placed : Placed}
    (hmem : placed ∈ placedElements source.toList) {offset : Nat}
    (hin : placed.start ≤ offset ∧ offset < placed.stop) :
    (boundedScan source).Keeps offset ↔ placed.element.form.isKept := by
  constructor
  · intro hkeeps
    obtain ⟨other, hother, hkept, hholds⟩ := exists_isKept_of_keeps hkeeps
    rw [holds_span_iff hbounded hother] at hholds
    rwa [← eq_of_common_offset hmem hother hin hholds]
  · intro hkept
    exact keeps_of_isKept hmem hkept ((holds_span_iff hbounded hmem).mpr hin)

def blankedSource (source : String) : String :=
  String.ofList ((blankedRow (elements source.toList)).flatMap Element.text)

example : blankedSource "a/*é\n*/#\"b" = "a    \n   \"b" := by cbv

theorem sameExtent_blankedSource (source : String) :
    SameExtent (blankedSource source).toList source.toList := by
  have hextent := sameExtent_blankedRow (elements source.toList)
  rw [flatMap_text_elements] at hextent
  rwa [blankedSource, String.toList_ofList]

theorem elements_blankedSource (source : String) :
    elements (blankedSource source).toList = blankedRow (elements source.toList) := by
  rw [blankedSource, String.toList_ofList, ← (splits_elements source.toList).blanked.eq_elements]

theorem bytesOf_blankedSource {source : String} (hbounded : Bounded source) :
    bytesOf (blankedSource source) = (boundedScan source).blankBytes (bytesOf source) := by
  have hbytes := encode_blankedRow (boundedScan source).Keeps
    fun placed (hmem : placed ∈ placedElements source.toList) _ hstart hstop =>
      keeps_boundedScan_iff hbounded hmem ⟨hstart, hstop⟩
  rw [flatMap_text_elements] at hbytes
  rw [bytesOf_eq_encode, bytesOf_eq_encode, blankedSource, String.toList_ofList, hbytes]
  simp only [Scan.blankBytes, Nat.zero_add]

theorem boundedScan_blankedSource (source : String) :
    boundedScan (blankedSource source) = (boundedScan source).withoutUnexpected := by
  have hextent := sameExtent_blankedSource source
  have hend : endOf (blankedSource source) = endOf source := by
    rw [endOf, endOf, hextent.byteLength_eq, hextent.lineFeeds_eq]
  rw [boundedScan_eq, boundedScan_eq, elements_blankedSource, hend, foundTokens_blankedRow,
    foundDiagnostics_blankedRow]
  rfl

/-- Blanks, comments and unexpected characters never influence what is found elsewhere.
A source in which they are written over with spaces has the same tokens, and the same
diagnostics but for the unexpected characters. -/
theorem scan_of_blanked_bytes {source : String} (hbounded : Bounded source) :
    ∃ found blanked, scan source = .ok found ∧
      bytesOf blanked = found.blankBytes (bytesOf source) ∧
      scan blanked = .ok found.withoutUnexpected := by
  refine ⟨boundedScan source, blankedSource source, scan_of_bounded hbounded,
    bytesOf_blankedSource hbounded, ?_⟩
  rw [← boundedScan_blankedSource]
  apply scan_of_bounded
  unfold Bounded
  rwa [(sameExtent_blankedSource source).byteLength_eq]

theorem scan_of_blanked_bytes_of_wide_characters :
    Bounded "1/*\"/**/\né*/.5€// =\n=#= \"/*@" ∧
      ∃ found blanked, scan "1/*\"/**/\né*/.5€// =\n=#= \"/*@" = .ok found ∧
        bytesOf blanked = found.blankBytes (bytesOf "1/*\"/**/\né*/.5€// =\n=#= \"/*@") ∧
        scan blanked = .ok found.withoutUnexpected :=
  have hbounded : Bounded "1/*\"/**/\né*/.5€// =\n=#= \"/*@" := by decide
  ⟨hbounded, scan_of_blanked_bytes hbounded⟩

end LoxLexer
