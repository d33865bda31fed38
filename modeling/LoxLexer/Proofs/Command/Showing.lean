import LoxLexer.Command.Showing
import LoxLexer.Proofs.Locating

/-!
# What is shown of a source

The tokens of a source are printed and its diagnostics become notices, each a line or a
drawing, with a line behind them that counts the errors (`Shows`).  Nothing but the scan of
the source can stop this: a span never ends beyond the last word, so every diagnostic can be
drawn (`exists_shows_iff`).
-/

namespace LoxLexer

/-- A notice about a diagnostic: a drawing or a line. -/
inductive Diagnostic.NoticedAs (sourceName source : String) (diagnostic : Diagnostic) :
    Bool → Notice → Prop where
  | line : NoticedAs sourceName source diagnostic false (.line diagnostic.listing)
  | drawing {report : Report}
      (hreport : Report.ofDiagnostic diagnostic sourceName source = .ok report) :
      NoticedAs sourceName source diagnostic true (.drawing report)

/-- The line that counts the errors among diagnostics, if there are any. -/
def errorCountNotices (diagnostics : List Diagnostic) : List Notice :=
  let count := diagnostics.countP fun diagnostic => diagnostic.category = .error
  if count = 0 then []
  else if count = 1 then [.line "Found 1 error."]
  else [.line ("Found " ++ decimalText count ++ " errors.")]

/-- What is shown of a source in which a scan has found something, behind the diagnostics
about it from before. -/
structure Shows (format : OutputFormat) (draws : Bool) (sourceName source : String)
    (before : List Diagnostic) (found : Scan) (shown : Shown) : Prop where
  scan_eq : scan source = .ok found
  output_eq : shown.output = format.print found.tokens
  notices_eq : ∃ notices,
    List.Forall₂ (fun diagnostic => diagnostic.NoticedAs sourceName source draws)
      (before ++ found.diagnostics) notices ∧
    shown.notices = notices ++ errorCountNotices (before ++ found.diagnostics)
  hasErrors_iff : shown.hasErrors = true ↔
    ∃ diagnostic ∈ before ++ found.diagnostics, diagnostic.category = .error

variable {source : String} {found : Scan} {diagnostic : Diagnostic}

theorem category_of_outcome {placed : Placed} (houtcome : placed.outcome = .diagnostic diagnostic) :
    diagnostic.category = .error := by
  obtain ⟨⟨form, text⟩, start, line⟩ := placed
  cases form <;> cases houtcome <;> rfl

theorem exists_outcome_eq_diagnostic_iff {placed : Placed} :
    (∃ diagnostic, placed.outcome = .diagnostic diagnostic) ↔
      placed.element.form = .stray ∨ placed.element.form = .openString := by
  obtain ⟨⟨form, text⟩, start, line⟩ := placed
  cases form <;> simp [Placed.outcome, Element.finding]

theorem exists_mem_place_iff {offset line : Nat} {row : List Element} {element : Element} :
    element ∈ row ↔ ∃ placed ∈ place offset line row, placed.element = element := by
  constructor
  · intro hmem
    obtain ⟨before, after, rfl⟩ := List.append_of_mem hmem
    exact ⟨⟨element, _, _⟩, mem_place_iff.mpr ⟨before, after, rfl, rfl, rfl⟩, rfl⟩
  · rintro ⟨placed, hmem, rfl⟩
    exact element_mem_of_mem_place hmem

/-- A scan reports an error exactly if the source has a stray character or an open string. -/
theorem exists_error_iff (hscan : scan source = .ok found) :
    (∃ diagnostic ∈ found.diagnostics, diagnostic.category = .error) ↔
      ∃ element ∈ elements source.toList, element.form = .stray ∨ element.form = .openString := by
  rw [(of_scan_eq_ok hscan).2]
  constructor
  · rintro ⟨diagnostic, hmem, -⟩
    obtain ⟨placed, hplaced, houtcome⟩ := mem_diagnostics.mp hmem
    exact ⟨placed.element, element_mem_of_mem_place hplaced,
      exists_outcome_eq_diagnostic_iff.mp ⟨diagnostic, houtcome⟩⟩
  · rintro ⟨element, hmem, hform⟩
    obtain ⟨placed, hplaced, rfl⟩ := exists_mem_place_iff.mp hmem
    obtain ⟨diagnostic, houtcome⟩ := exists_outcome_eq_diagnostic_iff.mpr hform
    exact ⟨diagnostic, mem_diagnostics.mpr ⟨placed, hplaced, houtcome⟩,
      category_of_outcome houtcome⟩

/-- A span of a scan never ends beyond the last word. -/
theorem Placed.start_add_length_lt (placed : Placed) :
    placed.span.start.toNat + placed.span.length.toNat < UInt32.size := by
  have hle := Span.clamp_mono placed.start_le_stop
  have hlength : placed.span.length.toNat =
      (Span.clamp placed.stop).toNat - (Span.clamp placed.start).toNat :=
    UInt32.toNat_sub_of_le _ _ hle
  rw [UInt32.le_iff_toNat_le] at hle
  calc
    placed.span.start.toNat + placed.span.length.toNat = (Span.clamp placed.stop).toNat := by
      rw [hlength]
      exact Nat.add_sub_cancel' hle
    _ < UInt32.size := (Span.clamp placed.stop).toNat_lt

theorem exists_report_of_scan (hscan : scan source = .ok found)
    (hmem : diagnostic ∈ found.diagnostics) (sourceName other : String) :
    ∃ report, Report.ofDiagnostic diagnostic sourceName other = .ok report := by
  rw [(of_scan_eq_ok hscan).2, mem_diagnostics] at hmem
  obtain ⟨placed, -, houtcome⟩ := hmem
  have hspan := (Placed.of_outcome_eq_diagnostic houtcome).1
  obtain ⟨report, hreport, -⟩ :=
    Report.exists_of_span sourceName other hspan placed.start_add_length_lt
  exact ⟨report, hreport⟩

theorem noticedAs_false_iff {sourceName : String} {notice : Notice} :
    diagnostic.NoticedAs sourceName source false notice ↔ .line diagnostic.listing = notice := by
  constructor
  · intro hnoticed
    cases hnoticed
    rfl
  · rintro rfl
    exact .line

theorem noticedAs_true_iff {sourceName : String} {notice : Notice} :
    diagnostic.NoticedAs sourceName source true notice ↔
      Notice.drawing <$> Report.ofDiagnostic diagnostic sourceName source = .ok notice := by
  constructor
  · intro hnoticed
    cases hnoticed with
    | drawing hreport => rw [hreport, Except.map_ok]
  · intro hdrawing
    cases hreport : Report.ofDiagnostic diagnostic sourceName source with
    | error fault => simp [hreport] at hdrawing
    | ok report =>
        rw [hreport] at hdrawing
        cases hdrawing
        exact .drawing hreport

theorem forall₂_noticedAs_false_iff {sourceName : String} {diagnostics : List Diagnostic}
    {notices : List Notice} :
    List.Forall₂ (fun diagnostic => diagnostic.NoticedAs sourceName source false)
      diagnostics notices ↔
      notices = diagnostics.map fun diagnostic => .line diagnostic.listing := by
  rw [eq_comm, ← List.forall₂_eq_eq_eq, List.forall₂_map_left_iff]
  exact ⟨fun h => h.imp fun _ _ => noticedAs_false_iff.mp,
    fun h => h.imp fun _ _ => noticedAs_false_iff.mpr⟩

theorem forall₂_noticedAs_true_iff {sourceName : String} {diagnostics : List Diagnostic}
    {notices : List Notice} :
    List.Forall₂ (fun diagnostic => diagnostic.NoticedAs sourceName source true)
      diagnostics notices ↔
      (diagnostics.mapM fun diagnostic =>
        Notice.drawing <$> Report.ofDiagnostic diagnostic sourceName source) = .ok notices := by
  rw [mapM_eq_ok_iff_forall₂]
  exact ⟨fun h => h.imp fun _ _ => noticedAs_true_iff.mp,
    fun h => h.imp fun _ _ => noticedAs_true_iff.mpr⟩

theorem exists_noticedAs {draws : Bool} {sourceName : String}
    (hreport : ∃ report, Report.ofDiagnostic diagnostic sourceName source = .ok report) :
    ∃ notice, diagnostic.NoticedAs sourceName source draws notice := by
  obtain ⟨report, hreport⟩ := hreport
  cases draws with
  | false => exact ⟨_, .line⟩
  | true => exact ⟨_, .drawing hreport⟩

namespace Collection

theorem summary_notices (held : Collection) :
    (if held.hasErrors then [Notice.line held.summary] else []) =
      errorCountNotices held.entries := by
  have hcount : held.errorCount =
      held.entries.countP fun diagnostic => diagnostic.category = .error := by
    rw [errorCount]
    congr 1
  simp only [errorCountNotices, ← hcount]
  by_cases hzero : held.errorCount = 0
  · have herrors : ¬held.hasErrors = true := by simp [hasErrors_iff, hzero]
    rw [if_neg herrors, if_pos hzero]
  · have herrors : held.hasErrors = true := (hasErrors_iff held).mpr (Nat.pos_of_ne_zero hzero)
    rw [if_pos herrors, if_neg hzero, summary]
    by_cases hone : held.errorCount = 1
    · rw [if_pos hone, if_pos hone, hone]
      rfl
    · rw [if_neg hone, if_neg hone]

theorem notices_eq_ok_iff {held : Collection} {draws : Bool} {sourceName : String}
    {result : List Notice} :
    held.notices draws sourceName source = .ok result ↔
      ∃ shown, List.Forall₂ (fun diagnostic => diagnostic.NoticedAs sourceName source draws)
        held.entries shown ∧ result = shown ++ errorCountNotices held.entries := by
  rw [notices, summary_notices]
  cases draws with
  | false =>
      simp only [forall₂_noticedAs_false_iff, exists_eq_left]
      exact ⟨fun h => (Except.ok.inj h).symm, fun h => congrArg Except.ok h.symm⟩
  | true =>
      simp only [forall₂_noticedAs_true_iff]
      constructor
      · intro hresult
        obtain ⟨shown, hentries, hrest⟩ := exists_of_bind_eq_ok hresult
        cases hrest
        exact ⟨shown, hentries, rfl⟩
      · rintro ⟨shown, hentries, rfl⟩
        rw [if_pos trivial, bind_of_eq_ok hentries]
        rfl

end Collection

theorem exists_forall₂_iff {α β : Type} {r : α → β → Prop} {items : List α} :
    (∃ values, List.Forall₂ r items values) ↔ ∀ item ∈ items, ∃ value, r item value := by
  induction items with
  | nil => simp
  | cons item items ih =>
      simp only [List.forall₂_cons_left_iff, List.forall_mem_cons, ← ih]
      constructor
      · rintro ⟨_, value, values, hvalue, hvalues, rfl⟩
        exact ⟨⟨value, hvalue⟩, values, hvalues⟩
      · rintro ⟨⟨value, hvalue⟩, values, hvalues⟩
        exact ⟨_, value, values, hvalue, hvalues, rfl⟩

theorem showSource_eq_ok_iff {options : Options} {terminal : Bool} {sourceName : String}
    {before : Collection} {shown : Shown} :
    showSource options terminal sourceName source before = .ok shown ↔
      ∃ found, Shows options.format (options.drawsDiagnostics && terminal) sourceName source
        before.entries found shown := by
  unfold showSource
  constructor
  · intro hshown
    obtain ⟨found, hscan, hshown⟩ := exists_of_bind_eq_ok hshown
    obtain ⟨notices, hnotices, hshown⟩ := exists_of_bind_eq_ok hshown
    cases hshown
    exact ⟨found, hscan, rfl, Collection.notices_eq_ok_iff.mp hnotices,
      Collection.hasErrors_iff_exists _⟩
  · rintro ⟨found, hshows⟩
    have hnotices : (before.addAll found.diagnostics).notices
        (options.drawsDiagnostics && terminal) sourceName source = .ok shown.notices :=
      Collection.notices_eq_ok_iff.mpr hshows.notices_eq
    have herrors : (before.addAll found.diagnostics).hasErrors = shown.hasErrors := by
      rw [Bool.eq_iff_iff, Collection.hasErrors_iff_exists, hshows.hasErrors_iff]
      rfl
    rw [bind_of_eq_ok hshows.scan_eq, bind_of_eq_ok hnotices, ← hshows.output_eq, herrors]
    rfl

/-- Only the scan of a source can keep it from being shown, if what was reported about it
before can be drawn. -/
theorem exists_shows_iff {format : OutputFormat} {draws : Bool} {sourceName : String}
    {before : List Diagnostic}
    (hbefore : ∀ diagnostic ∈ before,
      ∃ report, Report.ofDiagnostic diagnostic sourceName source = .ok report) :
    (∃ found shown, Shows format draws sourceName source before found shown) ↔
      ∃ found, scan source = .ok found := by
  constructor
  · rintro ⟨found, shown, hshows⟩
    exact ⟨found, hshows.scan_eq⟩
  · rintro ⟨found, hscan⟩
    have hnoticed : ∀ diagnostic ∈ before ++ found.diagnostics,
        ∃ notice, diagnostic.NoticedAs sourceName source draws notice := by
      intro diagnostic hmem
      rcases List.mem_append.mp hmem with hmem | hmem
      · exact exists_noticedAs (hbefore diagnostic hmem)
      · exact exists_noticedAs (exists_report_of_scan hscan hmem sourceName source)
    obtain ⟨notices, hnotices⟩ := exists_forall₂_iff.mpr hnoticed
    exact ⟨found, ⟨_, _, (Collection.mk (before ++ found.diagnostics)).hasErrors⟩, hscan, rfl,
      ⟨notices, hnotices, rfl⟩, Collection.hasErrors_iff_exists _⟩

end LoxLexer
