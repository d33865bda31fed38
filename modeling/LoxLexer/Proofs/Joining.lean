import LoxLexer.Proofs.Boundary
import LoxLexer.Proofs.LineNumbers
import LoxLexer.Proofs.Moving

/-!
# Texts joined by line feeds

No element but a string or a block comment goes on behind a line feed.  Where a text
leaves neither of them open, a line feed and another text behind it therefore add
their own elements to those of the text (`Splits.append_lineFeed`).  The scan of both
is the scan of the first, followed by the scan of the second in its new place.

A text that leaves a string or a block comment open lends it to the next line
(`Splits.exists_crossing`).  So a source in which none of them crosses the end of a
line is scanned line by line.
-/

namespace LoxLexer

/-- Strings and block comments that run to the end of the text. -/
def Form.isOpen : Form → Bool
  | .openString | .openComment => true
  | _ => false

/-- A text with no string and no block comment still open at its end. -/
def LeavesNothingOpen (source : String) : Prop :=
  ∀ element ∈ elements source.toList, element.form.isOpen = false

def Form.isStringOrBlockComment : Form → Bool
  | .string | .openString | .blockComment | .openComment => true
  | _ => false

/-- A string or a block comment that goes on behind the end of a line. -/
def Element.CrossesLine (element : Element) : Prop :=
  element.form.isStringOrBlockComment ∧ '\n' ∈ element.text

/-- A scan that is made of two others: it has the tokens of the first but for its
end, and then those of the second some lines and bytes further on.  The same holds
of the diagnostics. -/
structure Scan.Joins (lines bytes : Nat) (first second found : Scan) : Prop where
  tokens_eq : ∃ tokens last moved, first.tokens = tokens ++ [last] ∧ last.kind = .eof ∧
    found.tokens = tokens ++ moved ∧
    List.Forall₂ (Token.MovedBy lines bytes) second.tokens moved
  diagnostics_eq : ∃ moved, found.diagnostics = first.diagnostics ++ moved ∧
    List.Forall₂ (Diagnostic.MovedBy lines bytes) second.diagnostics moved

/-- Lines that are scanned one by one, and what has been found in all of them
together. -/
inductive ScannedByLine : List String → Scan → Prop where
  | last {line : String} {found : Scan} (hscan : scan line = .ok found) :
      ScannedByLine [line] found
  | cons {line : String} {lines : List String} {first second found : Scan}
      (hfirst : scan line = .ok first) (hsecond : ScannedByLine lines second)
      (hjoins : Scan.Joins (lineFeeds line.toList + 1) (line.utf8ByteSize + 1) first second found) :
      ScannedByLine (line :: lines) found

theorem Element.GoesOnWith.lineFeed_not_mem {element : Element} {ahead : List Char}
    (hahead : element.GoesOnWith ahead) (hopen : element.form.isOpen = false) : '\n' ∉ ahead := by
  by_cases htoken : element.form.isToken
  · intro hmem
    exact absurd (hahead.isBlank_eq_false htoken _ hmem) (by decide)
  · cases hahead with
    | lineComment hc => simpa using hc.symm
    | openComment | openString => cases hopen
    | _ => exact absurd rfl htoken

theorem prefix_of_prefix_append_cons {α : Type} {beginning before after : List α} {x : α}
    (hx : x ∉ beginning) (hbegins : beginning <+: before ++ x :: after) :
    beginning <+: before := by
  rcases prefix_append_cases hbegins with hbefore | ⟨more, rfl, hmore⟩
  · exact hbefore
  · cases more with
    | nil => simp
    | cons y more =>
        obtain ⟨rfl, -⟩ := List.cons_prefix_cons.mp hmore
        exact absurd (List.mem_append_right _ List.mem_cons_self) hx

theorem Element.EndsBefore.append_lineFeed {element : Element} {rest : List Char}
    (hends : element.EndsBefore rest) (hopen : element.form.isOpen = false) (after : List Char) :
    element.EndsBefore (rest ++ '\n' :: after) :=
  hends.transfer fun ahead hahead hbegins =>
    ⟨ahead, hahead, prefix_of_prefix_append_cons (hahead.lineFeed_not_mem hopen) hbegins⟩

theorem Splits.append_lineFeed {text after : List Char} {row afterRow : List Element}
    (hsplits : Splits text row) (hopen : ∀ element ∈ row, element.form.isOpen = false)
    (hafter : Splits after afterRow) :
    Splits (text ++ '\n' :: after) (row ++ ⟨.blank, ['\n']⟩ :: afterRow) := by
  induction hsplits with
  | nil => exact .of_endsBefore (Element.endsBefore_blank (by decide) after) hafter
  | @cons element rest row hhead _ ih =>
      rw [List.append_assoc, List.cons_append]
      have hends := heads_append_iff.mp hhead
      exact .of_endsBefore (hends.append_lineFeed (hopen _ List.mem_cons_self) after)
        (ih fun other hother => hopen other (List.mem_cons_of_mem _ hother))

theorem Cut.string_crossesLine {inside : List Char} (hinside : '"' ∉ inside) (after : List Char) :
    (string (inside ++ '\n' :: after)).element.CrossesLine := by
  have hstretch : inside ++ ['\n'] <+: (inside ++ '\n' :: after).takeWhile (· != '"') := by
    apply prefix_takeWhile
    · exact ⟨after, by simp⟩
    · apply bne_of_not_mem
      simp [hinside]
  have hmem : '\n' ∈ (inside ++ '\n' :: after).takeWhile (· != '"') :=
    hstretch.subset (by simp)
  fun_cases string (inside ++ '\n' :: after) with
  | case1 => exact ⟨rfl, by simp⟩
  | case2 quote rest => exact ⟨rfl, by simp [hmem]⟩

theorem Cut.slash_crossesLine {body : List Char}
    (hopen : ∀ inner, inner <+: body → ¬ CommentBody inner) (after : List Char) :
    (slash ('*' :: (body ++ '\n' :: after))).element.CrossesLine := by
  rcases slash_star_cases (body ++ '\n' :: after)
    with ⟨inner, rest, htext, hinner, hcut⟩ | ⟨-, hcut⟩
  · -- A comment that the line feed is not part of would have been closed before.
    have hmem : '\n' ∈ inner := by
      by_contra hnot
      apply hopen inner _ hinner
      exact prefix_of_prefix_append_cons hnot ⟨rest, htext.symm⟩
    rw [hcut]
    exact ⟨rfl, by simp [hmem]⟩
  · rw [hcut]
    exact ⟨rfl, by simp⟩

theorem Element.EndsBefore.first_crossesLine {c : Char} {text rest : List Char} {form : Form}
    (hends : Element.EndsBefore ⟨form, c :: text⟩ rest) (hopen : form.isOpen) (after : List Char) :
    (Cut.first c (text ++ '\n' :: after)).element.CrossesLine := by
  rcases hends.known with hbelongs | ⟨d, hstray, -⟩
  · simp only at hbelongs
    generalize hpiece : c :: text = piece at hbelongs
    cases hbelongs with
    | openComment hbody hunclosed =>
        subst hbody
        cases hpiece
        exact Cut.slash_crossesLine (fun inner => not_commentBody_of_open hunclosed) after
    | openString hinsideEq hinside =>
        subst hinsideEq
        cases hpiece
        exact Cut.string_crossesLine hinside after
    | _ => cases hopen
  · cases hstray
    cases hopen

theorem Element.EndsBefore.rest_eq_nil_of_isOpen {element : Element} {rest : List Char}
    (hends : element.EndsBefore rest) (hopen : element.form.isOpen) : rest = [] := by
  apply hends.rest_eq_nil
  intro c
  obtain ⟨form, text⟩ := element
  cases form with
  | openComment => exact .openComment
  | openString => exact .openString
  | _ => cases hopen

/-- What a text leaves open goes on in the next line. -/
theorem Splits.exists_crossing {text : List Char} {row : List Element}
    (hsplits : Splits text row) (after : List Char) {element : Element} (hmem : element ∈ row)
    (hopen : element.form.isOpen) :
    ∃ crossing ∈ elements (text ++ '\n' :: after), crossing.CrossesLine := by
  induction hsplits with
  | nil => cases hmem
  | @cons first rest row hhead _ ih =>
      have hends := heads_append_iff.mp hhead
      cases hfirst : first.form.isOpen with
      | true =>
          obtain ⟨form, piece⟩ := first
          obtain ⟨c, piece, rfl⟩ := List.exists_cons_of_ne_nil hends.text_ne_nil
          rw [hends.rest_eq_nil_of_isOpen hfirst, List.append_nil, List.cons_append, elements_cons]
          exact ⟨_, List.mem_cons_self, hends.first_crossesLine hfirst after⟩
      | false =>
          have hrest : element ∈ row := by
            rcases List.mem_cons.mp hmem with rfl | hrest
            · rw [hfirst] at hopen
              cases hopen
            · exact hrest
          obtain ⟨crossing, hcrossing, hcrosses⟩ := ih hrest
          have hwhole := Splits.of_endsBefore (hends.append_lineFeed hfirst after)
            (splits_elements (rest ++ '\n' :: after))
          rw [List.append_assoc, ← hwhole.eq_elements]
          exact ⟨crossing, List.mem_cons_of_mem _ hcrossing, hcrosses⟩

theorem toList_append_lineFeed (first second : String) :
    (first ++ "\n" ++ second).toList = first.toList ++ '\n' :: second.toList := by
  simp [String.toList_append]

theorem byteLength_append_lineFeed (first second : String) :
    byteLength (first ++ "\n" ++ second).toList =
      byteLength first.toList + 1 + byteLength second.toList := by
  rw [toList_append_lineFeed, byteLength_append, byteLength_cons, Nat.add_assoc]
  rfl

theorem lineFeeds_append_lineFeed (first second : String) :
    lineFeeds (first ++ "\n" ++ second).toList =
      lineFeeds first.toList + 1 + lineFeeds second.toList := by
  rw [toList_append_lineFeed, ← List.singleton_append, lineFeeds_append, lineFeeds_append,
    Nat.add_assoc]
  rfl

theorem Bounded.of_append {first second : String} (hbounded : Bounded (first ++ "\n" ++ second)) :
    Bounded first ∧ Bounded second := by
  unfold Bounded at hbounded ⊢
  rw [byteLength_append_lineFeed] at hbounded
  omega

theorem elements_append_lineFeed {first : String} (hopen : LeavesNothingOpen first)
    (second : String) :
    elements (first ++ "\n" ++ second).toList =
      elements first.toList ++ ⟨.blank, ['\n']⟩ :: elements second.toList := by
  have hsplits := (splits_elements first.toList).append_lineFeed hopen
    (splits_elements second.toList)
  rw [toList_append_lineFeed, ← hsplits.eq_elements]

section Behind

variable (text : List Char) (row : List Element)

theorem foundTokens_behind_lineFeed :
    foundTokens 0 1 (elements text ++ ⟨.blank, ['\n']⟩ :: row) =
      foundTokens 0 1 (elements text) ++
        foundTokens (0 + (byteLength text + 1)) (1 + (lineFeeds text + 1)) row := by
  rw [foundTokens_append, foundTokens_cons, flatMap_text_elements, ← Nat.add_assoc, ← Nat.add_assoc]
  rfl

theorem foundDiagnostics_behind_lineFeed :
    foundDiagnostics 0 1 (elements text ++ ⟨.blank, ['\n']⟩ :: row) =
      foundDiagnostics 0 1 (elements text) ++
        foundDiagnostics (0 + (byteLength text + 1)) (1 + (lineFeeds text + 1)) row := by
  rw [foundDiagnostics_append, foundDiagnostics_cons, flatMap_text_elements, ← Nat.add_assoc,
    ← Nat.add_assoc]
  rfl

end Behind

theorem toNat_start_endOf {source : String} (hbounded : Bounded source) :
    (endOf source).span.start.toNat = byteLength source.toList := by
  apply UInt32.toNat_ofNat_of_lt'
  exact Nat.lt_trans hbounded (by decide)

theorem endOf_movedBy {first second : String} (hbounded : Bounded (first ++ "\n" ++ second)) :
    (endOf second).MovedBy (lineFeeds first.toList + 1) (byteLength first.toList + 1)
      (endOf (first ++ "\n" ++ second)) := by
  constructor
  case kind_eq => rfl
  case lexeme_eq => rfl
  case literal_eq => rfl
  case line_eq =>
    rw [toNat_line_endOf hbounded, toNat_line_endOf hbounded.of_append.2, lineFeeds_append_lineFeed]
    omega
  case span_moved =>
    refine ⟨?_, rfl⟩
    rw [toNat_start_endOf hbounded, toNat_start_endOf hbounded.of_append.2,
      byteLength_append_lineFeed]
    omega

theorem boundedScan_joins {first second : String} (hbounded : Bounded (first ++ "\n" ++ second))
    (hopen : LeavesNothingOpen first) :
    Scan.Joins (lineFeeds first.toList + 1) (byteLength first.toList + 1) (boundedScan first)
      (boundedScan second) (boundedScan (first ++ "\n" ++ second)) := by
  have hlength := byteLength_append_lineFeed first second
  have hfeeds := lineFeeds_append_lineFeed first second
  have hle := lineFeeds_le_byteLength (first ++ "\n" ++ second).toList
  have hrow := flatMap_text_elements second.toList
  have hbound : byteLength (first ++ "\n" ++ second).toList < 4294967295 := hbounded
  have hoffset : 0 + (byteLength first.toList + 1) +
      byteLength ((elements second.toList).flatMap Element.text) ≤ Span.greatestOffset := by
    rw [hrow, Span.greatestOffset]
    omega
  have hline : 1 + (lineFeeds first.toList + 1) +
      lineFeeds ((elements second.toList).flatMap Element.text) < UInt32.size := by
    rw [hrow, UInt32.size]
    omega
  rw [boundedScan_eq, boundedScan_eq, boundedScan_eq, elements_append_lineFeed hopen,
    foundTokens_behind_lineFeed, foundDiagnostics_behind_lineFeed]
  constructor
  case tokens_eq =>
    refine ⟨_, _, _, rfl, rfl, List.append_assoc _ _ _, ?_⟩
    apply List.rel_append (forall₂_foundTokens hoffset hline)
    exact .cons (endOf_movedBy hbounded) .nil
  case diagnostics_eq => exact ⟨_, rfl, forall₂_foundDiagnostics hoffset hline⟩

theorem leavesNothingOpen_of_not_crosses {first second : String}
    (hstays : ∀ element ∈ elements (first ++ "\n" ++ second).toList, ¬ element.CrossesLine) :
    LeavesNothingOpen first := by
  intro element hmem
  by_contra hopen
  obtain ⟨crossing, hcrossing, hcrosses⟩ :=
    (splits_elements first.toList).exists_crossing second.toList hmem (by simpa using hopen)
  rw [← toList_append_lineFeed] at hcrossing
  exact hstays crossing hcrossing hcrosses

/-- What does not cross a line in a text does not do so in the lines behind the
first. -/
theorem not_crosses_of_append {first second : String} (hopen : LeavesNothingOpen first)
    (hstays : ∀ element ∈ elements (first ++ "\n" ++ second).toList, ¬ element.CrossesLine) :
    ∀ element ∈ elements second.toList, ¬ element.CrossesLine := by
  intro element hmem
  apply hstays
  rw [elements_append_lineFeed hopen]
  exact List.mem_append_right _ (List.mem_cons_of_mem _ hmem)

theorem scannedByLine_boundedScan {lines : List String} (hlines : lines ≠ [])
    (hbounded : Bounded ("\n".intercalate lines))
    (hstays : ∀ element ∈ elements ("\n".intercalate lines).toList, ¬ element.CrossesLine) :
    ScannedByLine lines (boundedScan ("\n".intercalate lines)) := by
  induction lines with
  | nil => exact absurd rfl hlines
  | cons line lines ih =>
      cases lines with
      | nil =>
          rw [String.intercalate_singleton] at hbounded ⊢
          exact .last (scan_of_bounded hbounded)
      | cons next lines =>
          rw [String.intercalate_cons_cons] at hbounded hstays ⊢
          have hopen := leavesNothingOpen_of_not_crosses hstays
          have hrest := ih (List.cons_ne_nil next lines) hbounded.of_append.2
            (not_crosses_of_append hopen hstays)
          have hjoins := boundedScan_joins hbounded hopen
          rw [byteLength_toList] at hjoins
          exact .cons (scan_of_bounded hbounded.of_append.1) hrest hjoins

/-- Scanning works line by line.  A text that leaves nothing open is scanned as if
nothing followed its line feed, and what follows as if nothing stood in front of it.  So a
source in which no string and no block comment crosses a line is scanned as its lines are. -/
theorem scan_joins_at_lineFeeds :
    (∀ first second : String, Bounded (first ++ "\n" ++ second) → LeavesNothingOpen first →
      ∃ firstFound secondFound found, scan first = .ok firstFound ∧
        scan second = .ok secondFound ∧ scan (first ++ "\n" ++ second) = .ok found ∧
        Scan.Joins (lineFeeds first.toList + 1) (first.utf8ByteSize + 1)
          firstFound secondFound found) ∧
    (∀ lines : List String, lines ≠ [] → Bounded ("\n".intercalate lines) →
      (∀ element ∈ elements ("\n".intercalate lines).toList, ¬ element.CrossesLine) →
      ∃ found, scan ("\n".intercalate lines) = .ok found ∧ ScannedByLine lines found) := by
  constructor
  · intro first second hbounded hopen
    refine ⟨boundedScan first, boundedScan second, boundedScan (first ++ "\n" ++ second),
      scan_of_bounded hbounded.of_append.1, scan_of_bounded hbounded.of_append.2,
      scan_of_bounded hbounded, ?_⟩
    rw [← byteLength_toList]
    exact boundedScan_joins hbounded hopen
  · intro lines hlines hbounded hstays
    exact ⟨_, scan_of_bounded hbounded, scannedByLine_boundedScan hlines hbounded hstays⟩

theorem scan_joins_at_lineFeeds_of_lookahead :
    (Bounded ("\"é\n\" 1." ++ "\n" ++ "5 /* =") ∧ LeavesNothingOpen "\"é\n\" 1." ∧
      ∃ firstFound secondFound found, scan "\"é\n\" 1." = .ok firstFound ∧
        scan "5 /* =" = .ok secondFound ∧ scan ("\"é\n\" 1." ++ "\n" ++ "5 /* =") = .ok found ∧
        Scan.Joins (lineFeeds "\"é\n\" 1.".toList + 1) ("\"é\n\" 1.".utf8ByteSize + 1)
          firstFound secondFound found) ∧
    (Bounded ("\n".intercalate ["@ // \"", "/*€*/ 7.", "= \"b"]) ∧
      (∀ element ∈ elements ("\n".intercalate ["@ // \"", "/*€*/ 7.", "= \"b"]).toList,
        ¬ element.CrossesLine) ∧
      ∃ found, scan ("\n".intercalate ["@ // \"", "/*€*/ 7.", "= \"b"]) = .ok found ∧
        ScannedByLine ["@ // \"", "/*€*/ 7.", "= \"b"] found) := by
  constructor
  · have hbounded : Bounded ("\"é\n\" 1." ++ "\n" ++ "5 /* =") := by decide
    have hopen : LeavesNothingOpen "\"é\n\" 1." := by
      intro element hmem
      have hall : (elements "\"é\n\" 1.".toList).all (fun element => !element.form.isOpen) =
          true := by
        cbv
      simpa using List.all_eq_true.mp hall element hmem
    exact ⟨hbounded, hopen, scan_joins_at_lineFeeds.1 _ _ hbounded hopen⟩
  · have hbounded : Bounded ("\n".intercalate ["@ // \"", "/*€*/ 7.", "= \"b"]) := by decide
    have hstays : ∀ element ∈ elements ("\n".intercalate ["@ // \"", "/*€*/ 7.", "= \"b"]).toList,
        ¬ element.CrossesLine := by
      intro element hmem
      have hall : (elements ("\n".intercalate ["@ // \"", "/*€*/ 7.", "= \"b"]).toList).all
          (fun element => !(element.form.isStringOrBlockComment && element.text.contains '\n')) =
            true := by
        cbv
      simpa [Element.CrossesLine, imp_iff_not_or] using List.all_eq_true.mp hall element hmem
    exact ⟨hbounded, hstays, scan_joins_at_lineFeeds.2 _ (by decide) hbounded hstays⟩

end LoxLexer
