import LoxLexer.Scan

/-!
# Scans of bounded sources

In a source of less than `2 ^ 32 - 1` bytes every offset and every line number
fits into a word, and so does the depth of every comment.  Such a source is
scanned without a fault (`scan_of_bounded`), and what each element comes to is
then read off its place directly.
-/

namespace LoxLexer

/-- Whether all positions and lines of a source fit into words. -/
def Bounded (source : String) : Prop :=
  byteLength source.toList < 4294967295

instance (source : String) : Decidable (Bounded source) :=
  inferInstanceAs (Decidable (_ < _))

theorem Bounded.byteLength_le {source : String} (hbounded : Bounded source) :
    byteLength source.toList ≤ Span.greatestOffset :=
  Nat.le_of_lt hbounded

theorem length_le_byteLength (text : List Char) : text.length ≤ byteLength text := by
  induction text with
  | nil => simp
  | cons c text ih =>
    have hpos := c.utf8Size_pos
    simp only [List.length_cons, byteLength_cons]
    omega

theorem commentDepth_le (opened deepest : Nat) (text : List Char) :
    commentDepth opened deepest text ≤ max deepest (opened + text.length) := by
  fun_induction commentDepth opened deepest text <;> simp_all <;> omega

theorem Element.depth_le (element : Element) : element.depth ≤ byteLength element.text := by
  have hdepth := commentDepth_le 0 0 element.text
  have hlength := length_le_byteLength element.text
  unfold Element.depth
  split <;> omega

/-- Where elements stand that are placed from an offset and a line on. -/
theorem mem_place {offset line : Nat} {elements : List Element} {placed : Placed}
    (hmem : placed ∈ place offset line elements) :
    offset ≤ placed.start ∧ line ≤ placed.line ∧
      placed.stop ≤ offset + byteLength (elements.flatMap Element.text) ∧
      placed.lastLine ≤ line + lineFeeds (elements.flatMap Element.text) := by
  induction elements generalizing offset line with
  | nil => simp at hmem
  | cons element elements ih =>
    rw [place_cons, List.mem_cons] at hmem
    rw [List.flatMap_cons, byteLength_append, lineFeeds_append]
    rcases hmem with rfl | hmem
    · simp only [Placed.stop, Placed.lastLine]
      omega
    · have hrest := ih hmem
      omega

/-- The elements of a text lie inside it. -/
theorem mem_placedElements {text : List Char} {placed : Placed}
    (hmem : placed ∈ placedElements text) :
    placed.stop ≤ byteLength text ∧ 1 ≤ placed.line ∧ placed.lastLine ≤ 1 + lineFeeds text := by
  have hplace := mem_place hmem
  rw [flatMap_text_elements] at hplace
  omega

namespace Placed

/-- The bytes of an element, as far as words can hold their offsets. -/
def span (placed : Placed) : Span :=
  ⟨Span.clamp placed.start, Span.clamp placed.stop - Span.clamp placed.start⟩

/-- What an element comes to, as long as its lines fit into words. -/
def outcome (placed : Placed) : Finding :=
  placed.element.finding (UInt32.ofNat placed.line) (UInt32.ofNat placed.lastLine) placed.span

theorem start_le_stop (placed : Placed) : placed.start ≤ placed.stop :=
  Nat.le_add_right _ _

theorem line_le_lastLine (placed : Placed) : placed.line ≤ placed.lastLine :=
  Nat.le_add_right _ _

theorem finding_of_lt {placed : Placed} (hline : placed.lastLine < UInt32.size)
    (hdepth : placed.element.depth < UInt32.size) : placed.finding = .ok placed.outcome := by
  have hfirst := Nat.lt_of_le_of_lt placed.line_le_lastLine hline
  simp only [finding, Word.ofNat_of_lt hfirst, Word.ofNat_of_lt hline, Word.ofNat_of_lt hdepth,
    Span.ofOffsets_of_le placed.start_le_stop]
  rfl

end Placed

theorem mapM_ok {α β ε : Type} {f : α → Except ε β} {g : α → β} {items : List α}
    (h : ∀ item ∈ items, f item = .ok (g item)) : items.mapM f = .ok (items.map g) := by
  induction items with
  | nil => rfl
  | cons item items ih =>
    have htail := ih fun other hother => h other (List.mem_cons_of_mem _ hother)
    rw [List.mapM_cons, h item List.mem_cons_self, htail]
    rfl

theorem bind_of_eq_ok {α β ε : Type} {computation : Except ε α} {first : α}
    (hfirst : computation = .ok first) (next : α → Except ε β) :
    (computation >>= next) = next first := by
  rw [hfirst]
  rfl

theorem exists_of_bind_eq_ok {α β ε : Type} {computation : Except ε α} {next : α → Except ε β}
    {value : β} (hvalue : (computation >>= next) = .ok value) :
    ∃ first, computation = .ok first ∧ next first = .ok value := by
  cases computation with
  | error reason => cases hvalue
  | ok first => exact ⟨first, rfl, hvalue⟩

theorem exists_of_mem_mapM {α β ε : Type} {f : α → Except ε β} {items : List α} {values : List β}
    (hvalues : items.mapM f = .ok values) {value : β} (hmem : value ∈ values) :
    ∃ item ∈ items, f item = .ok value := by
  induction items generalizing values with
  | nil =>
      cases hvalues
      cases hmem
  | cons item items ih =>
      rw [List.mapM_cons] at hvalues
      obtain ⟨first, hfirst, hrest⟩ := exists_of_bind_eq_ok hvalues
      obtain ⟨rest, hitems, hcons⟩ := exists_of_bind_eq_ok hrest
      cases hcons
      rcases List.mem_cons.mp hmem with rfl | hmem
      · exact ⟨item, List.mem_cons_self, hfirst⟩
      · obtain ⟨other, hother, heq⟩ := ih hitems hmem
        exact ⟨other, List.mem_cons_of_mem _ hother, heq⟩

def boundedScan (source : String) : Scan :=
  let outcomes := (placedElements source.toList).map Placed.outcome
  { tokens := outcomes.filterMap Finding.token? ++
      [.endOfText (UInt32.ofNat (1 + lineFeeds source.toList))
        (UInt32.ofNat (byteLength source.toList))]
    diagnostics := outcomes.filterMap Finding.diagnostic? }

theorem scan_of_bounded {source : String} (h : Bounded source) :
    scan source = .ok (boundedScan source) := by
  have hfeeds := lineFeeds_le_byteLength source.toList
  unfold Bounded at h
  have hsize : UInt32.size = 4294967296 := rfl
  have hfindings : (placedElements source.toList).mapM Placed.finding =
      .ok ((placedElements source.toList).map Placed.outcome) := by
    refine mapM_ok fun placed hmem => Placed.finding_of_lt ?_ ?_
    · have hplace := mem_placedElements hmem
      omega
    · have hplace := mem_placedElements hmem
      have hdepth := placed.element.depth_le
      simp only [Placed.stop] at hplace
      omega
  have hclamp : Span.clamp (byteLength source.toList) =
      UInt32.ofNat (byteLength source.toList) := by
    rw [Span.clamp, Nat.min_eq_left]
    simp only [Span.greatestOffset]
    omega
  have hlast : 1 + lineFeeds source.toList < UInt32.size := by omega
  simp only [scan, hfindings, Word.ofNat_of_lt hlast, hclamp, boundedScan]
  rfl

end LoxLexer
