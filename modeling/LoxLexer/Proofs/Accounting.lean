import LoxLexer.Proofs.Cursor.Reporting
import LoxLexer.Proofs.Printing
import LoxLexer.Session
import Mathlib.Data.List.DropRight

/-!
# What a collection holds during a session

A step of a session puts its own diagnostics behind those that the collection holds, or
clears it.  So after any row of steps the collection holds what the steps since the last
clear have contributed, in order (`Step.Appends.of_takeAll`); whether it has errors, and how
many, follows from that.

A scan can report into the collection while it runs, or hand over its diagnostics when it is
done.  In both ways it contributes what it would contribute to an empty collection, and
sessions with bounded sources cannot tell the ways apart.
-/

namespace LoxLexer

abbrev Record := Step × StepResult

def Step.isClear : Step → Bool
  | .clear => true
  | _ => false

/-- The records of a session behind the last clear. -/
def sinceClear (taken : List Record) : List Record :=
  taken.rtakeWhile fun record => !record.1.isClear

def contributions (records : List Record) : List (List Diagnostic) :=
  records.map fun record => record.2.added

/-- A collection that holds exactly what has been contributed. -/
structure Collection.Accounts (held : Collection) (contributed : List (List Diagnostic)) :
    Prop where
  entries_eq : held.entries = contributed.flatten
  hadError_iff : Collection.sink.hadError held = true ↔
    ∃ added ∈ contributed, ∃ diagnostic ∈ added, diagnostic.category = .error
  hasErrors_iff : held.hasErrors = true ↔
    ∃ added ∈ contributed, ∃ diagnostic ∈ added, diagnostic.category = .error
  errorCount_pos_iff : 0 < held.errorCount ↔
    ∃ added ∈ contributed, ∃ diagnostic ∈ added, diagnostic.category = .error
  errorCount_eq : held.errorCount =
    (contributed.map fun added => (Collection.mk added).errorCount).foldr (· + ·) 0

namespace Step

def report (held : Collection) : Step → Except Mishap StepResult
  | .scan source => do
    let (tokens, after) ← Cursor.scanInto .bulk source held
    return ⟨some tokens, after.entries.drop held.entries.length, after⟩
  | .add diagnostic => .ok ⟨none, [diagnostic], Collection.sink.report held diagnostic⟩
  | .clear => .ok ⟨none, [], .empty⟩

section Taking

variable {ε : Type} (run : Collection → Step → Except ε StepResult)

def takeAll (held : Collection) : List Step → Except ε (List StepResult)
  | [] => .ok []
  | step :: steps => do
    let result ← run held step
    let results ← takeAll result.held steps
    return result :: results

/-- The result of a step, seen apart from what the collection held before.  A scan answers
as it would on an empty collection. -/
structure Answers (step : Step) (result : StepResult) : Prop where
  scan : ∀ source, step = .scan source → ∃ fresh, run .empty step = .ok fresh ∧
    result.tokens = fresh.tokens ∧ result.added = fresh.held.entries
  add : ∀ diagnostic, step = .add diagnostic → result.tokens = none ∧ result.added = [diagnostic]
  clear : step = .clear → result.tokens = none ∧ result.added = [] ∧ result.held = .empty

/-- A session from an empty collection on, whose collection is accounted for at every
step. -/
structure Accounted (steps : List Step) (results : List StepResult) : Prop where
  length_eq : results.length = steps.length
  answers : ∀ record ∈ steps.zip results, Answers run record.1 record.2
  held : ∀ before record after, steps.zip results = before ++ record :: after →
    record.2.held.Accounts (contributions (sinceClear (before ++ [record])))
  extends_previous : ∀ before first second after,
    steps.zip results = before ++ first :: second :: after → second.1.isClear = false →
      second.2.held.entries = first.2.held.entries ++ second.2.added
  hadError_stays : ∀ before first between after,
    steps.zip results = before ++ first :: (between ++ after) →
      (∀ record ∈ between, record.1.isClear = false) → ∀ last ∈ between.getLast?,
        Collection.sink.hadError first.2.held = true →
          Collection.sink.hadError last.2.held = true

/-- A way to take steps in which a step only adds to the collection, or clears it. -/
def Appends : Prop :=
  ∀ step held result, run held step = .ok result → Answers run step result ∧
    result.held.entries = if step.isClear then [] else held.entries ++ result.added

end Taking

end Step

theorem sinceClear_concat (taken : List Record) (record : Record) :
    sinceClear (taken ++ [record]) =
      if record.1.isClear then [] else sinceClear taken ++ [record] := by
  rw [sinceClear, List.rtakeWhile_concat]
  cases record.1.isClear <;> rfl

theorem sinceClear_append {taken later : List Record}
    (hlater : ∀ record ∈ later, record.1.isClear = false) :
    sinceClear (taken ++ later) = sinceClear taken ++ later := by
  induction later using List.reverseRecOn with
  | nil => simp
  | append_singleton later record ih =>
      have hrecord := hlater record (by simp)
      rw [← List.append_assoc, sinceClear_concat, hrecord, if_neg (by decide),
        ih fun other hother => hlater other (List.mem_append_left _ hother), List.append_assoc]

theorem countP_flatten (lists : List (List Diagnostic)) :
    lists.flatten.countP Diagnostic.isError =
      (lists.map fun added => (Collection.mk added).errorCount).foldr (· + ·) 0 := by
  induction lists with
  | nil => rfl
  | cons added lists ih =>
      rw [List.flatten_cons, List.countP_append, ih, List.map_cons, List.foldr_cons]
      rfl

theorem Collection.accounts_of_entries {held : Collection} {contributed : List (List Diagnostic)}
    (hentries : held.entries = contributed.flatten) : held.Accounts contributed := by
  have herrors : held.hasErrors = true ↔
      ∃ added ∈ contributed, ∃ diagnostic ∈ added, diagnostic.category = .error := by
    rw [Collection.hasErrors_iff_exists, hentries]
    simp only [List.mem_flatten]
    constructor
    · rintro ⟨diagnostic, ⟨added, hadded, hmem⟩, herror⟩
      exact ⟨added, hadded, diagnostic, hmem, herror⟩
    · rintro ⟨added, hadded, diagnostic, hmem, herror⟩
      exact ⟨diagnostic, ⟨added, hadded, hmem⟩, herror⟩
  constructor
  case entries_eq => exact hentries
  case hadError_iff => exact herrors
  case hasErrors_iff => exact herrors
  case errorCount_pos_iff => rw [← Collection.hasErrors_iff, herrors]
  case errorCount_eq => rw [Collection.errorCount, hentries, countP_flatten]

theorem Collection.hadError_iff_of_accounts {held : Collection}
    {contributed : List (List Diagnostic)} (haccounts : held.Accounts contributed) :
    Collection.sink.hadError held = true ↔ ∃ diagnostic ∈ contributed.flatten,
      diagnostic.category = .error := by
  rw [← haccounts.entries_eq]
  exact held.hasErrors_iff_exists

theorem contributions_sinceClear_append {taken later : List Record}
    (hlater : ∀ record ∈ later, record.1.isClear = false) :
    (contributions (sinceClear (taken ++ later))).flatten =
      (contributions (sinceClear taken)).flatten ++ (contributions later).flatten := by
  rw [sinceClear_append hlater, contributions, List.map_append, List.flatten_append]
  rfl

/-- Whatever a collection holds, a scan reports behind it what it reports to an empty one. -/
theorem scanInto_eq_fresh (source : String) (held : Collection) :
    Cursor.scanInto .bulk source held = (Cursor.scanInto .bulk source .empty).map
      fun fresh => (fresh.1, held.addAll fresh.2.entries) := by
  rw [Cursor.scanInto_eq source (Moves.bulk_passOn held.entries),
    Cursor.scanInto_eq source (Moves.bulk_passOn Collection.empty.entries)]
  cases Cursor.scan .bulk source with
  | error mishap => rfl
  | ok found => rfl

theorem scanInto_of_bounded {source : String} (hbounded : Bounded source) (held : Collection) :
    Cursor.scanInto .bulk source held =
      .ok ((boundedScan source).tokens, held.addAll (boundedScan source).diagnostics) := by
  rw [Cursor.scanInto_eq source (Moves.bulk_passOn held.entries),
    Cursor.scan_eq_boundedScan Moves.bulk_sound hbounded]
  rfl

namespace Step

theorem drop_addAll (held : Collection) (diagnostics : List Diagnostic) :
    (held.addAll diagnostics).entries.drop held.entries.length = diagnostics :=
  List.drop_left

theorem appends_of_scan {ε : Type} {run : Collection → Step → Except ε StepResult}
    (hscan : ∀ source held result, run held (.scan source) = .ok result →
      (∃ fresh, run .empty (.scan source) = .ok fresh ∧ result.tokens = fresh.tokens ∧
        result.added = fresh.held.entries) ∧ result.held.entries = held.entries ++ result.added)
    (hadd : ∀ diagnostic held,
      run held (.add diagnostic) = .ok ⟨none, [diagnostic], held.add diagnostic⟩)
    (hclear : ∀ held, run held .clear = .ok ⟨none, [], .empty⟩) : Appends run := by
  intro step held result hrun
  cases step with
  | scan source =>
      obtain ⟨hfresh, hentries⟩ := hscan source held result hrun
      refine ⟨⟨?_, by simp, by simp⟩, hentries⟩
      intro other hother
      cases hother
      exact hfresh
  | add diagnostic =>
      rw [hadd] at hrun
      cases hrun
      refine ⟨⟨by simp, ?_, by simp⟩, rfl⟩
      intro other hother
      cases hother
      exact ⟨rfl, rfl⟩
  | clear =>
      rw [hclear] at hrun
      cases hrun
      exact ⟨⟨by simp, by simp, fun _ => ⟨rfl, rfl, rfl⟩⟩, rfl⟩

theorem appends_run : Appends Step.run := by
  apply appends_of_scan
  case hscan =>
    intro source held result hrun
    obtain ⟨found, hscan, hresult⟩ := exists_of_bind_eq_ok hrun
    cases hresult
    have hfresh : Step.run .empty (.scan source) =
        .ok ⟨some found.tokens, found.diagnostics, Collection.empty.addAll found.diagnostics⟩ := by
      rw [Step.run, hscan]
      rfl
    exact ⟨⟨_, hfresh, rfl, rfl⟩, rfl⟩
  case hadd => exact fun _ _ => rfl
  case hclear => exact fun _ => rfl

theorem report_scan (held : Collection) (source : String) :
    report held (.scan source) = (Cursor.scanInto .bulk source .empty).map fun fresh =>
      ⟨some fresh.1, fresh.2.entries, held.addAll fresh.2.entries⟩ := by
  rw [report, scanInto_eq_fresh]
  cases Cursor.scanInto .bulk source .empty with
  | error mishap => rfl
  | ok fresh =>
      have hdrop := drop_addAll held fresh.2.entries
      exact congrArg (fun added => Except.ok (StepResult.mk _ added _)) hdrop

theorem appends_report : Appends report := by
  apply appends_of_scan
  case hscan =>
    intro source held result hrun
    have hfresh := report_scan .empty source
    rw [report_scan] at hrun
    cases hscan : Cursor.scanInto .bulk source .empty with
    | error mishap =>
        rw [hscan] at hrun
        cases hrun
    | ok fresh =>
        rw [hscan] at hrun hfresh
        cases hrun
        exact ⟨⟨_, hfresh, rfl, rfl⟩, rfl⟩
  case hadd => exact fun _ _ => rfl
  case hclear => exact fun _ => rfl

section Sessions

variable {ε : Type} {run : Collection → Step → Except ε StepResult}

/-- At each step the collection holds what has been contributed since the last clear. -/
theorem Appends.of_takeAll (happends : Appends run) {steps : List Step} {held : Collection}
    {taken : List Record} {results : List StepResult}
    (hheld : held.entries = (contributions (sinceClear taken)).flatten)
    (hrun : takeAll run held steps = .ok results) :
    results.length = steps.length ∧
      ∀ before record after, steps.zip results = before ++ record :: after →
        Answers run record.1 record.2 ∧ record.2.held.entries =
          (contributions (sinceClear (taken ++ before ++ [record]))).flatten := by
  -- What has been taken before grows step by step, while the collection follows it.
  induction steps generalizing held taken results with
  | nil =>
      cases hrun
      refine ⟨rfl, fun before record after hsplit => ?_⟩
      simp at hsplit
  | cons step steps ih =>
      obtain ⟨result, hstep, hrest⟩ := exists_of_bind_eq_ok hrun
      obtain ⟨later, hlater, hresults⟩ := exists_of_bind_eq_ok hrest
      cases hresults
      obtain ⟨hanswers, hentries⟩ := happends _ _ _ hstep
      have hnext : result.held.entries =
          (contributions (sinceClear (taken ++ [(step, result)]))).flatten := by
        rw [hentries, sinceClear_concat]
        cases step.isClear with
        | true => rfl
        | false => simp [hheld, contributions]
      obtain ⟨hlength, hrecords⟩ := ih hnext hlater
      refine ⟨by simp [hlength], fun before record after hsplit => ?_⟩
      cases before with
      | nil =>
          rw [List.zip_cons_cons, List.nil_append, List.cons.injEq] at hsplit
          obtain ⟨rfl, -⟩ := hsplit
          exact ⟨hanswers, by rw [List.append_nil]; exact hnext⟩
      | cons first before =>
          rw [List.zip_cons_cons, List.cons_append, List.cons.injEq] at hsplit
          obtain ⟨rfl, hsplit⟩ := hsplit
          have hrecord := hrecords before record after hsplit
          simpa using hrecord

theorem Appends.accounted (happends : Appends run) {steps : List Step}
    {results : List StepResult} (hrun : takeAll run .empty steps = .ok results) :
    Accounted run steps results := by
  have hempty : Collection.empty.entries = (contributions (sinceClear [])).flatten := rfl
  obtain ⟨hlength, hrecords⟩ := happends.of_takeAll hempty hrun
  simp only [List.nil_append] at hrecords
  have hheld : ∀ before record after, steps.zip results = before ++ record :: after →
    record.2.held.Accounts (contributions (sinceClear (before ++ [record]))) :=
    fun before record after hsplit =>
      Collection.accounts_of_entries (hrecords before record after hsplit).2
  constructor
  case length_eq => exact hlength
  case answers =>
    intro record hmem
    obtain ⟨before, after, hsplit⟩ := List.append_of_mem hmem
    exact (hrecords before record after hsplit).1
  case held => exact hheld
  case extends_previous =>
    intro before first second after hsplit hclear
    have hfirst := hheld before first (second :: after) hsplit
    have hsecond := hheld (before ++ [first]) second after (by rw [hsplit, List.append_assoc]; rfl)
    rw [hsecond.entries_eq, contributions_sinceClear_append (by simpa using hclear),
      hfirst.entries_eq]
    simp [contributions]
  case hadError_stays =>
    intro before first between after hsplit hbetween last hlast hfirst
    have hends := List.dropLast_append_getLast? last hlast
    have hrow : steps.zip results =
        (before ++ [first] ++ between.dropLast) ++ last :: after := by
      rw [hsplit]
      conv => lhs; rw [← hends]
      simp
    have hbefore := hheld before first (between ++ after) hsplit
    have hbehind := hheld _ last after hrow
    rw [List.append_assoc (before ++ [first]), hends] at hbehind
    rw [Collection.hadError_iff_of_accounts hbefore] at hfirst
    rw [Collection.hadError_iff_of_accounts hbehind, contributions_sinceClear_append hbetween]
    obtain ⟨diagnostic, hmem, herror⟩ := hfirst
    exact ⟨diagnostic, List.mem_append_left _ hmem, herror⟩

end Sessions

theorem takeAll_run (held : Collection) (steps : List Step) :
    takeAll Step.run held steps = Step.runAll held steps := by
  induction steps generalizing held with
  | nil => rfl
  | cons step steps ih => simp only [takeAll, runAll, ih]

theorem exists_run_eq_ok {step : Step} (hbounded : ∀ source, step = .scan source → Bounded source)
    (held : Collection) :
    ∃ result, step.run held = .ok result ∧ report held step = .ok result := by
  cases step with
  | scan source =>
      have hsource := hbounded source rfl
      refine ⟨⟨some (boundedScan source).tokens, (boundedScan source).diagnostics,
        held.addAll (boundedScan source).diagnostics⟩, ?_, ?_⟩
      · rw [Step.run, scan_of_bounded hsource]
        rfl
      · rw [report_scan, scanInto_of_bounded hsource]
        rfl
  | add diagnostic => exact ⟨_, rfl, rfl⟩
  | clear => exact ⟨_, rfl, rfl⟩

theorem exists_runAll_eq_ok {steps : List Step}
    (hbounded : ∀ source, Step.scan source ∈ steps → Bounded source) (held : Collection) :
    ∃ results, Step.runAll held steps = .ok results ∧ takeAll report held steps = .ok results := by
  induction steps generalizing held with
  | nil => exact ⟨[], rfl, rfl⟩
  | cons step steps ih =>
      obtain ⟨result, hrun, hreport⟩ :=
        exists_run_eq_ok (fun source hstep => hbounded source (hstep ▸ List.mem_cons_self)) held
      obtain ⟨results, hrunAll, hreportAll⟩ :=
        ih (fun source hmem => hbounded source (List.mem_cons_of_mem _ hmem)) result.held
      refine ⟨result :: results, ?_, ?_⟩
      · rw [Step.runAll, bind_of_eq_ok hrun, bind_of_eq_ok hrunAll]
        rfl
      · rw [takeAll, bind_of_eq_ok hreport, bind_of_eq_ok hreportAll]
        rfl

end Step

/-- Scans leave alone what a collection holds, and the collection of a session is accounted
for at every step, in both ways to report.  Bounded sources are scanned to the end, with the
same results. -/
theorem session_accounted :
    (∀ source held, Cursor.scanInto .bulk source held =
      (Cursor.scanInto .bulk source .empty).map
        fun fresh => (fresh.1, held.addAll fresh.2.entries)) ∧
    (∀ steps results, Step.takeAll Step.report .empty steps = .ok results →
      Step.Accounted Step.report steps results) ∧
    (∀ steps results, Step.runAll .empty steps = .ok results →
      Step.Accounted Step.run steps results) ∧
    ∀ steps, (∀ source, Step.scan source ∈ steps → Bounded source) →
      ∃ results, Step.runAll .empty steps = .ok results ∧
        Step.takeAll Step.report .empty steps = .ok results := by
  refine ⟨scanInto_eq_fresh, fun steps results hrun => Step.appends_report.accounted hrun,
    fun steps results hrun => ?_, fun steps hbounded => Step.exists_runAll_eq_ok hbounded .empty⟩
  rw [← Step.takeAll_run] at hrun
  exact Step.appends_run.accounted hrun

theorem session_accounted_of_errors_behind_clear :
    ∃ results, Step.runAll .empty [.scan "\"a", .add (.ofMessage 1 .emptySourceFile ["f"] none),
        .clear, .add (.ofMessage 1 .emptySourceFile ["f"] none), .scan "\n@"] = .ok results ∧
      Step.Accounted Step.run [.scan "\"a", .add (.ofMessage 1 .emptySourceFile ["f"] none),
        .clear, .add (.ofMessage 1 .emptySourceFile ["f"] none), .scan "\n@"] results ∧
      Step.Accounted Step.report [.scan "\"a", .add (.ofMessage 1 .emptySourceFile ["f"] none),
        .clear, .add (.ofMessage 1 .emptySourceFile ["f"] none), .scan "\n@"] results ∧
      results.map (fun result => (result.held.size, result.held.hasErrors)) =
        [(1, true), (2, true), (0, false), (1, false), (2, true)] := by
  obtain ⟨-, hreports, hruns, hends⟩ := session_accounted
  obtain ⟨results, hrun, hreport⟩ := hends [.scan "\"a",
      .add (.ofMessage 1 .emptySourceFile ["f"] none), .clear,
      .add (.ofMessage 1 .emptySourceFile ["f"] none), .scan "\n@"] (by
    intro source hmem
    simp only [List.mem_cons, Step.scan.injEq, reduceCtorEq, List.not_mem_nil, false_or,
      or_false] at hmem
    rcases hmem with rfl | rfl <;> decide)
  refine ⟨results, hrun, hruns _ results hrun, hreports _ results hreport, ?_⟩
  have hheld : (Step.runAll .empty [.scan "\"a",
      .add (.ofMessage 1 .emptySourceFile ["f"] none), .clear,
      .add (.ofMessage 1 .emptySourceFile ["f"] none), .scan "\n@"]).toOption.map
        (List.map fun result => (result.held.size, result.held.hasErrors)) =
      some [(1, true), (2, true), (0, false), (1, false), (2, true)] := by
    decide +kernel
  rw [hrun] at hheld
  exact Option.some.inj hheld

end LoxLexer
