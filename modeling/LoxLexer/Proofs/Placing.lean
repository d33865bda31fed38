import LoxLexer.Proofs.LongestMatch

/-!
# Where elements stand

The place of an element is settled by the elements before it: it starts at the
offset where their text ends, on the line that their line feeds have reached
(`mem_place_iff`).  Elements in their places follow one another without overlap
(`pairwise_place`).

What an element comes to keeps this place.  In a bounded source the span of a
token or a diagnostic is the span of its element, with nothing clamped.  Whatever the
size of a source, a scan that ends has found what its elements come to
(`of_scan_eq_ok`).
-/

namespace LoxLexer

theorem place_append (offset line : Nat) (before after : List Element) :
    place offset line (before ++ after) =
      place offset line before ++
        place (offset + byteLength (before.flatMap Element.text))
          (line + lineFeeds (before.flatMap Element.text)) after := by
  induction before generalizing offset line with
  | nil => simp
  | cons element before ih =>
      rw [List.cons_append, place_cons, place_cons, ih, List.cons_append, List.flatMap_cons,
        byteLength_append, lineFeeds_append, Nat.add_assoc, Nat.add_assoc]

theorem mem_place_iff {offset line : Nat} {row : List Element} {placed : Placed} :
    placed ∈ place offset line row ↔
      ∃ before after, row = before ++ placed.element :: after ∧
        placed.start = offset + byteLength (before.flatMap Element.text) ∧
        placed.line = line + lineFeeds (before.flatMap Element.text) := by
  constructor
  · intro hmem
    induction row generalizing offset line with
    | nil => simp at hmem
    | cons element row ih =>
        rw [place_cons, List.mem_cons] at hmem
        rcases hmem with rfl | hmem
        · exact ⟨[], row, rfl, rfl, rfl⟩
        · obtain ⟨before, after, rfl, hstart, hline⟩ := ih hmem
          refine ⟨element :: before, after, rfl, ?_, ?_⟩
          · rw [hstart, List.flatMap_cons, byteLength_append, Nat.add_assoc]
          · rw [hline, List.flatMap_cons, lineFeeds_append, Nat.add_assoc]
  · rintro ⟨before, after, rfl, hstart, hline⟩
    rw [place_append, List.mem_append, place_cons, List.mem_cons, ← hstart, ← hline]
    exact .inr (.inl rfl)

theorem element_mem_of_mem_place {offset line : Nat} {row : List Element} {placed : Placed}
    (hmem : placed ∈ place offset line row) : placed.element ∈ row := by
  obtain ⟨before, after, hrow, -⟩ := mem_place_iff.mp hmem
  rw [hrow]
  exact List.mem_append_right _ List.mem_cons_self

/-- Elements in their places are in order, and so are their lines. -/
theorem pairwise_place (offset line : Nat) (row : List Element) :
    (place offset line row).Pairwise fun first second =>
      first.stop ≤ second.start ∧ first.lastLine ≤ second.line := by
  induction row generalizing offset line with
  | nil => simp
  | cons element row ih =>
      rw [place_cons, List.pairwise_cons]
      refine ⟨?_, ih _ _⟩
      intro second hmem
      obtain ⟨before, after, -, hstart, hline⟩ := mem_place_iff.mp hmem
      constructor
      · rw [hstart]
        exact Nat.le_add_right _ _
      · rw [hline]
        exact Nat.le_add_right _ _

theorem Element.Sound.text_ne_nil {element : Element} (hsound : element.Sound) :
    element.text ≠ [] := by
  rcases hsound with ⟨rest, hbelongs⟩ | ⟨c, rfl⟩
  · exact List.length_pos_iff.mp hbelongs.length_pos
  · simp

theorem byteLength_pos {text : List Char} (htext : text ≠ []) : 0 < byteLength text := by
  cases text with
  | nil => exact absurd rfl htext
  | cons c text =>
      have hpos := c.utf8Size_pos
      rw [byteLength_cons]
      omega

theorem eq_nil_of_byteLength_eq_zero {text : List Char} (hlength : byteLength text = 0) :
    text = [] := by
  by_contra hne
  exact absurd hlength (byteLength_pos hne).ne'

theorem utf8ByteSize_ofList (text : List Char) :
    (String.ofList text).utf8ByteSize = byteLength text := by
  induction text with
  | nil => rfl
  | cons c text ih =>
      rw [← List.singleton_append, String.ofList_append, String.utf8ByteSize_append, ih,
        ← String.singleton_eq_ofList, String.utf8ByteSize_singleton, List.singleton_append,
        byteLength_cons]

theorem byteLength_toList (source : String) :
    byteLength source.toList = source.utf8ByteSize := by
  rw [← utf8ByteSize_ofList, String.ofList_toList]

namespace Placed

theorem toNat_start_span {placed : Placed} (hstop : placed.stop ≤ Span.greatestOffset) :
    placed.span.start.toNat = placed.start := by
  have hle := placed.start_le_stop
  rw [span, Span.toNat_clamp]
  omega

theorem toNat_length_span {placed : Placed} (hstop : placed.stop ≤ Span.greatestOffset) :
    placed.span.length.toNat = byteLength placed.element.text := by
  have hle := placed.start_le_stop
  rw [span, UInt32.toNat_sub_of_le _ _ (Span.clamp_mono hle), Span.toNat_clamp, Span.toNat_clamp,
    Nat.min_eq_left hstop, Nat.min_eq_left (hle.trans hstop)]
  exact Nat.add_sub_cancel_left _ _

/-- The token of an element keeps the text, the line and the place of the
element. -/
theorem of_outcome_eq_token {placed : Placed} {token : Token}
    (houtcome : placed.outcome = .token token) :
    token.lexeme = String.ofList placed.element.text ∧
      token.line = UInt32.ofNat placed.line ∧ token.span = placed.span ∧
      placed.element.form.isToken = true := by
  obtain ⟨⟨form, text⟩, start, line⟩ := placed
  cases form <;> cases houtcome <;> exact ⟨rfl, rfl, rfl, rfl⟩

/-- The diagnostic of an element is about the place of the element.  A stray
character is reported on its own line, an open string on the line that it ends
on. -/
theorem of_outcome_eq_diagnostic {placed : Placed} {diagnostic : Diagnostic}
    (houtcome : placed.outcome = .diagnostic diagnostic) :
    diagnostic.span = some placed.span ∧
      (placed.element.form = .stray ∧ diagnostic.code = Message.unexpectedCharacter.code ∧
          diagnostic.line = UInt32.ofNat placed.line ∨
        placed.element.form = .openString ∧
          diagnostic.code = Message.unterminatedString.code ∧
          diagnostic.line = UInt32.ofNat placed.lastLine) := by
  obtain ⟨⟨form, text⟩, start, line⟩ := placed
  cases form <;> cases houtcome
  · exact ⟨rfl, .inr ⟨rfl, rfl, rfl⟩⟩
  · exact ⟨rfl, .inl ⟨rfl, rfl, rfl⟩⟩

end Placed

theorem stop_le_of_mem_placedElements {source : String} (hbounded : Bounded source)
    {placed : Placed} (hmem : placed ∈ placedElements source.toList) :
    placed.stop ≤ Span.greatestOffset :=
  (mem_placedElements hmem).1.trans hbounded.byteLength_le

theorem sound_of_mem_placedElements {text : List Char} {placed : Placed}
    (hmem : placed ∈ placedElements text) : placed.element.Sound :=
  sound_of_mem_elements (element_mem_of_mem_place hmem)

theorem Finding.token?_eq_some_iff {finding : Finding} {token : Token} :
    finding.token? = some token ↔ finding = .token token := by
  cases finding <;> simp [Finding.token?]

theorem Finding.diagnostic?_eq_some_iff {finding : Finding} {diagnostic : Diagnostic} :
    finding.diagnostic? = some diagnostic ↔ finding = .diagnostic diagnostic := by
  cases finding <;> simp [Finding.diagnostic?]

theorem filterMap_cons_eq {α β : Type} (f : α → Option β) (item : α) (items : List α) :
    (item :: items).filterMap f = (f item).toList ++ items.filterMap f := by
  cases hitem : f item with
  | none => rw [List.filterMap_cons_none hitem, Option.toList_none, List.nil_append]
  | some value => rw [List.filterMap_cons_some hitem, Option.toList_some, List.singleton_append]

theorem filter_filterMap_of_mem {α β : Type} {f : α → Option β} {p : β → Bool} {q : α → Bool}
    {list : List α} (hsame : ∀ x ∈ list, ∀ y, f x = some y → p y = q x) :
    (list.filterMap f).filter p = (list.filter q).filterMap f := by
  induction list with
  | nil => rfl
  | cons x list ih =>
      have hrest := ih fun other hother => hsame other (List.mem_cons_of_mem _ hother)
      cases hx : f x with
      | none =>
          rw [List.filterMap_cons_none hx, hrest, List.filter_cons]
          split
          · rw [List.filterMap_cons_none hx]
          · rfl
      | some y =>
          rw [List.filterMap_cons_some hx, List.filter_cons, List.filter_cons,
            hsame x List.mem_cons_self y hx, hrest]
          split
          · rw [List.filterMap_cons_some hx]
          · rfl

def tokensOf (source : String) : List Token :=
  ((placedElements source.toList).map Placed.outcome).filterMap Finding.token?

def endOf (source : String) : Token :=
  .endOfText (UInt32.ofNat (1 + lineFeeds source.toList))
    (UInt32.ofNat (byteLength source.toList))

theorem tokens_boundedScan (source : String) :
    (boundedScan source).tokens = tokensOf source ++ [endOf source] := rfl

theorem mem_tokensOf {source : String} {token : Token} :
    token ∈ tokensOf source ↔
      ∃ placed ∈ placedElements source.toList, placed.outcome = .token token := by
  simp only [tokensOf, List.mem_filterMap, List.mem_map, exists_exists_and_eq_and,
    Finding.token?_eq_some_iff]

theorem mem_diagnostics {source : String} {diagnostic : Diagnostic} :
    diagnostic ∈ (boundedScan source).diagnostics ↔
      ∃ placed ∈ placedElements source.toList, placed.outcome = .diagnostic diagnostic := by
  simp only [boundedScan, List.mem_filterMap, List.mem_map, exists_exists_and_eq_and,
    Finding.diagnostic?_eq_some_iff]

theorem Element.Sound.reads_of_finding {element : Element} (hsound : element.Sound)
    {line lastLine : UInt32} {span : Span} {token : Token}
    (hfinding : element.finding line lastLine span = .token token) :
    token.Reads element ∧ element.form.isToken := by
  rcases hsound.finding line lastLine span
    with ⟨other, hother, hform, -, hreads⟩ | ⟨other, hother, -⟩ | ⟨hother, -⟩
  · rw [hother] at hfinding
    cases hfinding
    exact ⟨hreads, hform⟩
  · rw [hother] at hfinding
    cases hfinding
  · rw [hother] at hfinding
    cases hfinding

theorem reads_of_outcome {placed : Placed} {token : Token} (hsound : placed.element.Sound)
    (houtcome : placed.outcome = .token token) : token.Reads placed.element :=
  (hsound.reads_of_finding houtcome).1

theorem Word.eq_of_ofNat_eq_ok {n : Nat} {word : UInt32} (hword : Word.ofNat n = .ok word) :
    word = UInt32.ofNat n := by
  unfold Word.ofNat at hword
  split at hword
  · exact (Except.ok.inj hword).symm
  · contradiction

theorem Placed.of_finding_eq_ok {placed : Placed} {finding : Finding}
    (hfinding : placed.finding = .ok finding) : finding = placed.outcome := by
  unfold Placed.finding at hfinding
  obtain ⟨line, hline, hfinding⟩ := exists_of_bind_eq_ok hfinding
  obtain ⟨lastLine, hlastLine, hfinding⟩ := exists_of_bind_eq_ok hfinding
  obtain ⟨-, -, hfinding⟩ := exists_of_bind_eq_ok hfinding
  obtain ⟨span, hspan, hfinding⟩ := exists_of_bind_eq_ok hfinding
  rw [Span.ofOffsets_of_le placed.start_le_stop] at hspan
  cases hspan
  cases hfinding
  rw [Word.eq_of_ofNat_eq_ok hline, Word.eq_of_ofNat_eq_ok hlastLine]
  rfl

theorem mapM_eq_ok_iff_forall₂ {α β ε : Type} {f : α → Except ε β} {items : List α}
    {values : List β} :
    items.mapM f = .ok values ↔
      List.Forall₂ (fun item value => f item = .ok value) items values := by
  induction items generalizing values with
  | nil =>
      rw [List.forall₂_nil_left_iff, List.mapM_nil]
      exact ⟨fun hvalues => (Except.ok.inj hvalues).symm, fun hvalues => hvalues ▸ rfl⟩
  | cons item items ih =>
      rw [List.mapM_cons, List.forall₂_cons_left_iff]
      constructor
      · intro hvalues
        obtain ⟨first, hfirst, hrest⟩ := exists_of_bind_eq_ok hvalues
        obtain ⟨rest, hitems, hcons⟩ := exists_of_bind_eq_ok hrest
        cases hcons
        exact ⟨first, rest, hfirst, ih.mp hitems, rfl⟩
      · rintro ⟨first, rest, hfirst, hitems, rfl⟩
        rw [bind_of_eq_ok hfirst, bind_of_eq_ok (ih.mpr hitems)]
        rfl

variable {source : String} {found : Scan}

/-- What a scan has found is read off the places of the elements, whatever their number. -/
theorem of_scan_eq_ok (hscan : scan source = .ok found) :
    found.tokens = tokensOf source ++ [.endOfText (UInt32.ofNat (1 + lineFeeds source.toList))
      (Span.clamp (byteLength source.toList))] ∧
    found.diagnostics = (boundedScan source).diagnostics := by
  unfold scan at hscan
  obtain ⟨findings, hfindings, hscan⟩ := exists_of_bind_eq_ok hscan
  obtain ⟨lastLine, hlastLine, hscan⟩ := exists_of_bind_eq_ok hscan
  have houtcomes : (placedElements source.toList).map Placed.outcome = findings := by
    rw [mapM_eq_ok_iff_forall₂] at hfindings
    rw [← List.forall₂_eq_eq_eq, List.forall₂_map_left_iff]
    exact hfindings.imp fun _ _ hfinding => (Placed.of_finding_eq_ok hfinding).symm
  cases hscan
  rw [Word.eq_of_ofNat_eq_ok hlastLine]
  exact ⟨by rw [tokensOf, houtcomes], by rw [boundedScan, houtcomes]⟩

end LoxLexer
