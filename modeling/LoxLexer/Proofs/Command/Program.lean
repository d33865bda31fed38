import LoxLexer.Command.Program
import LoxLexer.Proofs.Command.Showing
import LoxLexer.Proofs.Cursor.Encoding

/-!
# What a call comes to

A call with too many scripts, without a configuration that can be read, or with a script that
cannot be read fails in this order, and prints nothing (`Fails`).  Any other call with a script
scans it: what it prints and how it ends depend on the source and on the format in force alone
(`Script.Prints`), and neither on the switch `--plain` nor on how diagnostics are shown.
-/

namespace LoxLexer

/-- The options that a call finds in its configuration: in the file that it names, or else in
the one in the working directory, if there is one. -/
inductive Configured (files : Files) : Option String → Options → Prop where
  | named {path content : String} {lower : Options} (hread : files.read path = .ok content.toUTF8)
      (hparse : Options.ofText content = .ok lower) : Configured files (some path) lower
  | found {content : String} {lower : Options} (hfile : files.isFile "./lox.json" = true)
      (hread : files.read "./lox.json" = .ok content.toUTF8)
      (hparse : Options.ofText content = .ok lower) : Configured files none lower
  | absent (hfile : files.isFile "./lox.json" = false) : Configured files none .unset

/-- A source in which a character begins nothing, or no quote closes a string. -/
def HasError (source : String) : Prop :=
  ∃ row, Splits source.toList row ∧
    ∃ element ∈ row, element.form = .stray ∨ element.form = .openString

namespace Script

/-- What a script prints in a format, and how it ends. -/
structure Prints (format : OutputFormat) (source : String) (outcome : Outcome) : Prop where
  output_eq : ∃ found, scan source = .ok found ∧ outcome.output = format.print found.tokens
  code_eq_errors : HasError source → outcome.status.code = 65
  code_eq_zero : ¬HasError source → outcome.status.code = 0

/-- The notices about a script whose diagnostics are not drawn: a line for each of them, and
one that counts the errors.  A script without any character is only warned about. -/
structure Notifies (name source : String) (outcome : Outcome) : Prop where
  notices_eq : source ≠ "" → ∃ found, scan source = .ok found ∧
    outcome.notices = found.diagnostics.map (fun diagnostic => .line diagnostic.listing) ++
      errorCountNotices found.diagnostics
  warns : source = "" →
    outcome.notices = [.line ("[line 1] Warning: Source file '" ++ name ++ "' is empty.")]

end Script

namespace Command

/-- A call that fails with a status and prints nothing. -/
def Fails (result : Except Fault Outcome) (code : UInt32) : Prop :=
  ∃ outcome, result = .ok outcome ∧ outcome.status.code = code ∧ outcome.output = ""

/-- A call that scans a script.  Another call may differ in the switch `--plain`, and in whether
its configuration asks for drawings, and yet prints the same and ends in the same way. -/
structure Scans (arguments : Arguments) (lower : Options) (terminal : Bool)
    (name source : String) (result : Except Fault Outcome) : Prop where
  prints : ∀ outcome, result = .ok outcome →
    Script.Prints ((arguments.format.or lower.output).getD .text) source outcome
  notifies : ∀ outcome, result = .ok outcome →
    arguments.plain = true ∨ lower.pretty = some false ∨ terminal = false →
      Script.Notifies name source outcome
  unaffected : ∀ outcome, result = .ok outcome → ∀ args plain pretty world other,
    Arguments.read args = .ok { arguments with plain := plain } →
    Configured world.files arguments.config ⟨lower.output, pretty⟩ →
    world.files.read name = .ok source.toUTF8 → world.outputFull = false →
    Command.run args world = .ok other →
      other.output = outcome.output ∧ other.status.code = outcome.status.code
  ends : (∃ outcome, result = .ok outcome) ↔ ∃ found, scan source = .ok found
  ends_of_bounded : Bounded source → ∃ outcome, result = .ok outcome

/-- What a call comes to, case by case. -/
structure Answers (arguments : Arguments) (world : World) (result : Except Fault Outcome) :
    Prop where
  scripts : 1 < arguments.scripts.length → Fails result 64
  configuration : arguments.scripts.length ≤ 1 →
    (¬∃ lower, Configured world.files arguments.config lower) → Fails result 78
  script : ∀ name lower, arguments.scripts = [name] →
    Configured world.files arguments.config lower →
      (¬∃ source : String, world.files.read name = .ok source.toUTF8) → Fails result 66
  source : ∀ name lower (source : String), arguments.scripts = [name] →
    Configured world.files arguments.config lower →
      world.files.read name = .ok source.toUTF8 →
        Scans arguments lower world.terminal name source result
  prompt : ∀ lower, arguments.scripts = [] →
    Configured world.files arguments.config lower →
      result = Prompt.run world (lower.overlay arguments.options)

end Command

theorem Files.readText_eq_ok_iff {files : Files} {path text : String} :
    files.readText path = .ok text ↔ files.read path = .ok text.toUTF8 := by
  unfold Files.readText
  cases files.read path with
  | error failure => simp
  | ok bytes =>
      rw [Except.ok.injEq, ← fromUTF8?_eq_some_iff]
      cases hbytes : String.fromUTF8? bytes with
      | none => simp [hbytes]
      | some other => simp [hbytes]

theorem Options.load_eq_ok_iff {files : Files} {path : String} {lower : Options} :
    Options.load files path = .ok lower ↔
      ∃ content : String, files.read path = .ok content.toUTF8 ∧
        Options.ofText content = .ok lower := by
  simp only [← Files.readText_eq_ok_iff, Options.load]
  cases files.readText path with
  | error failure => simp
  | ok content => simp

theorem map_eq_ok_iff {ε α β : Type} {computation : Except ε α} {f : α → β} {value : β} :
    computation.map f = .ok value ↔ ∃ first, computation = .ok first ∧ value = f first := by
  cases computation with
  | error reason => simp [Except.map]
  | ok first => simp [Except.map, eq_comm]

theorem configured_none_iff {files : Files} {lower : Options} :
    Configured files none lower ↔
      ∃ found, Options.find files "." = .ok found ∧ lower = found.getD .unset := by
  have hpath : Files.join "." Options.fileName = "./lox.json" := by decide +kernel
  rw [Options.find, hpath]
  by_cases hfile : files.isFile "./lox.json" = true
  · rw [if_pos hfile]
    constructor
    · intro hconfigured
      cases hconfigured with
      | found _ hread hparse =>
          rw [Options.load_eq_ok_iff.mpr ⟨_, hread, hparse⟩]
          exact ⟨some lower, rfl, rfl⟩
      | absent habsent => simp [hfile] at habsent
    · rintro ⟨found, hfound, rfl⟩
      split at hfound
      · rename_i lower hload
        cases hfound
        obtain ⟨content, hread, hparse⟩ := Options.load_eq_ok_iff.mp hload
        exact .found hfile hread hparse
      · contradiction
  · rw [if_neg hfile]
    constructor
    · intro hconfigured
      cases hconfigured with
      | found hfound => exact absurd hfound hfile
      | absent => exact ⟨none, rfl, rfl⟩
    · rintro ⟨found, hfound, rfl⟩
      cases hfound
      exact .absent (by simpa using hfile)

theorem Arguments.resolve_eq_ok_iff {arguments : Arguments} {files : Files} {options : Options} :
    arguments.resolve files = .ok options ↔
      ∃ lower, Configured files arguments.config lower ∧
        options = lower.overlay arguments.options := by
  unfold Arguments.resolve
  cases arguments.config with
  | some path =>
      simp only [map_eq_ok_iff, Options.load_eq_ok_iff]
      constructor
      · rintro ⟨lower, ⟨content, hread, hparse⟩, rfl⟩
        exact ⟨lower, .named hread hparse, rfl⟩
      · rintro ⟨lower, ⟨hread, hparse⟩, rfl⟩
        exact ⟨lower, ⟨_, hread, hparse⟩, rfl⟩
  | none =>
      simp only [map_eq_ok_iff, configured_none_iff]
      constructor
      · rintro ⟨found, hfound, rfl⟩
        exact ⟨_, ⟨found, hfound, rfl⟩, rfl⟩
      · rintro ⟨_, ⟨found, hfound, rfl⟩, rfl⟩
        exact ⟨found, hfound, rfl⟩

theorem hasError_iff {source : String} :
    HasError source ↔
      ∃ element ∈ elements source.toList, element.form = .stray ∨ element.form = .openString := by
  simp only [HasError, splits_iff, exists_eq_left]

namespace Script

theorem emptyWarning_entries (name source : String) :
    (emptyWarning name source).entries =
      if source = "" then [Diagnostic.ofMessage 1 .emptySourceFile [name] none] else [] := by
  unfold emptyWarning
  by_cases hempty : source = ""
  · rw [if_pos (by simpa using hempty), if_pos hempty]
    rfl
  · rw [if_neg (by simpa using hempty), if_neg hempty]
    rfl

theorem listing_emptyWarning (name : String) :
    (Diagnostic.ofMessage 1 .emptySourceFile [name] none).listing =
      "[line 1] Warning: Source file '" ++ name ++ "' is empty." := by
  have hfill : Placeholder.fillFrom 0 Message.emptySourceFile.template.toList [name.toList] =
      "Source file '".toList ++ name.toList ++ "' is empty.".toList := rfl
  have htext : Placeholder.fill Message.emptySourceFile.template [name] =
      "Source file '" ++ name ++ "' is empty." := by
    rw [Placeholder.fill, List.map_singleton, hfill, String.ofList_append, String.ofList_append,
      String.ofList_toList, String.ofList_toList, String.ofList_toList]
  have hlisting : (Diagnostic.ofMessage 1 .emptySourceFile [name] none).listing =
      "[line " ++ decimalText 1 ++ "] " ++ "Warning" ++ ": " ++
        Placeholder.fill Message.emptySourceFile.template [name] := rfl
  have hline : "[line " ++ decimalText 1 ++ "] " ++ "Warning" ++ ": " = "[line 1] Warning: " := by
    decide +kernel
  rw [hlisting, hline, htext, ← String.append_assoc, ← String.append_assoc]
  rfl

variable {world : World} {options : Options} {name source : String}

theorem run_eq_ok_iff (hread : world.files.read name = .ok source.toUTF8)
    (hfull : world.outputFull = false) {outcome : Outcome} :
    run world options name = .ok outcome ↔
      ∃ found shown, Shows options.format (options.drawsDiagnostics && world.terminal) name source
        (emptyWarning name source).entries found shown ∧
        outcome = ⟨if shown.hasErrors then .errorsFound else .success, shown.output,
          shown.notices⟩ := by
  rw [run, Files.readText_eq_ok_iff.mpr hread]
  simp only [hfull]
  constructor
  · intro hrun
    obtain ⟨shown, hshown, hrun⟩ := exists_of_bind_eq_ok hrun
    obtain ⟨found, hshows⟩ := showSource_eq_ok_iff.mp hshown
    cases hrun
    exact ⟨found, shown, hshows, rfl⟩
  · rintro ⟨found, shown, hshows, rfl⟩
    rw [bind_of_eq_ok (showSource_eq_ok_iff.mpr ⟨found, hshows⟩)]
    rfl

theorem hasErrors_iff_hasError {format : OutputFormat} {draws : Bool} {found : Scan}
    {shown : Shown}
    (hshows : Shows format draws name source (emptyWarning name source).entries found shown) :
    shown.hasErrors = true ↔ HasError source := by
  rw [hshows.hasErrors_iff, hasError_iff, ← exists_error_iff hshows.scan_eq, emptyWarning_entries]
  split
  · simp [Diagnostic.ofMessage, Message.emptySourceFile]
  · simp

theorem prints_of_run (hread : world.files.read name = .ok source.toUTF8)
    (hfull : world.outputFull = false) {outcome : Outcome}
    (hrun : run world options name = .ok outcome) : Prints options.format source outcome := by
  obtain ⟨found, shown, hshows, rfl⟩ := (run_eq_ok_iff hread hfull).mp hrun
  have herrors := hasErrors_iff_hasError hshows
  constructor
  case output_eq => exact ⟨found, hshows.scan_eq, hshows.output_eq⟩
  case code_eq_errors =>
    intro herror
    simp [herrors.mpr herror, Status.code]
  case code_eq_zero =>
    intro hnone
    simp [mt herrors.mp hnone, Status.code]

theorem Prints.unique {format : OutputFormat} {outcome other : Outcome}
    (houtcome : Prints format source outcome) (hother : Prints format source other) :
    other.output = outcome.output ∧ other.status.code = outcome.status.code := by
  obtain ⟨found, hscan, houtput⟩ := houtcome.output_eq
  obtain ⟨otherFound, hotherScan, hotherOutput⟩ := hother.output_eq
  obtain rfl := Except.ok.inj (hscan.symm.trans hotherScan)
  refine ⟨hotherOutput.trans houtput.symm, ?_⟩
  by_cases herror : HasError source
  · rw [hother.code_eq_errors herror, houtcome.code_eq_errors herror]
  · rw [hother.code_eq_zero herror, houtcome.code_eq_zero herror]

theorem notifies_of_run (hread : world.files.read name = .ok source.toUTF8)
    (hfull : world.outputFull = false) {outcome : Outcome}
    (hrun : run world options name = .ok outcome)
    (hplain : (options.drawsDiagnostics && world.terminal) = false) :
    Notifies name source outcome := by
  obtain ⟨found, shown, hshows, rfl⟩ := (run_eq_ok_iff hread hfull).mp hrun
  rw [hplain] at hshows
  obtain ⟨notices, hnotices, hshown⟩ := hshows.notices_eq
  rw [forall₂_noticedAs_false_iff] at hnotices
  subst hnotices
  rw [emptyWarning_entries] at hshown
  constructor
  case notices_eq =>
    intro hne
    rw [if_neg hne, List.nil_append] at hshown
    exact ⟨found, hshows.scan_eq, hshown⟩
  case warns =>
    rintro rfl
    have hnone : found.diagnostics = [] := by
      rw [(of_scan_eq_ok hshows.scan_eq).2]
      simp [boundedScan, placedElements]
    rw [if_pos rfl, hnone, List.append_nil, List.map_singleton, listing_emptyWarning] at hshown
    exact hshown

theorem exists_run_iff (hread : world.files.read name = .ok source.toUTF8)
    (hfull : world.outputFull = false) :
    (∃ outcome, run world options name = .ok outcome) ↔ ∃ found, scan source = .ok found := by
  have hreports : ∀ diagnostic ∈ (emptyWarning name source).entries,
      ∃ report, Report.ofDiagnostic diagnostic name source = .ok report := by
    rw [emptyWarning_entries]
    split
    · intro diagnostic hmem
      rw [List.mem_singleton.mp hmem]
      exact ⟨_, rfl⟩
    · simp
  have hshows : (∃ found shown, Shows options.format (options.drawsDiagnostics && world.terminal)
      name source (emptyWarning name source).entries found shown) ↔
        ∃ found, scan source = .ok found :=
    exists_shows_iff hreports
  rw [← hshows]
  simp only [run_eq_ok_iff hread hfull]
  constructor
  · rintro ⟨outcome, found, shown, hshown, -⟩
    exact ⟨found, shown, hshown⟩
  · rintro ⟨found, shown, hshown⟩
    exact ⟨_, found, shown, hshown, rfl⟩

theorem run_unreadable (hnone : ¬∃ source : String, world.files.read name = .ok source.toUTF8) :
    Command.Fails (run world options name) 66 := by
  rw [run]
  cases hread : world.files.readText name with
  | error failure => exact ⟨_, rfl, rfl, rfl⟩
  | ok source => exact absurd ⟨source, Files.readText_eq_ok_iff.mp hread⟩ hnone

end Script

namespace Arguments

variable {arguments : Arguments} {world : World} {lower : Options}

theorem format_overlay_options (arguments : Arguments) (lower : Options) :
    (lower.overlay arguments.options).format =
      (arguments.format.or lower.output).getD .text := by
  rw [Options.format_overlay, Options.format, options, Option.getD_or]

theorem drawsDiagnostics_overlay_options (hplain : arguments.plain = true ∨
    lower.pretty = some false ∨ world.terminal = false) :
    ((lower.overlay arguments.options).drawsDiagnostics && world.terminal) = false := by
  rw [Options.drawsDiagnostics_overlay, options]
  rcases hplain with hplain | hpretty | hterminal
  · simp [hplain]
  · cases arguments.plain <;> simp [Options.drawsDiagnostics, hpretty]
  · simp [hterminal]

theorem perform_of_script {name : String} (hscripts : arguments.scripts = [name])
    (hconfigured : Configured world.files arguments.config lower) :
    arguments.perform world = Script.run world (lower.overlay arguments.options) name := by
  have hresolve := resolve_eq_ok_iff.mpr ⟨lower, hconfigured, rfl⟩
  simp [perform, prepare, hscripts, hresolve]

theorem perform_of_no_script (hscripts : arguments.scripts = [])
    (hconfigured : Configured world.files arguments.config lower) :
    arguments.perform world = Prompt.run world (lower.overlay arguments.options) := by
  have hresolve := resolve_eq_ok_iff.mpr ⟨lower, hconfigured, rfl⟩
  simp [perform, prepare, hscripts, hresolve]

theorem prints_of_perform {name source : String} (hscripts : arguments.scripts = [name])
    (hconfigured : Configured world.files arguments.config lower)
    (hread : world.files.read name = .ok source.toUTF8) (hfull : world.outputFull = false)
    {outcome : Outcome} (hperform : arguments.perform world = .ok outcome) :
    Script.Prints ((arguments.format.or lower.output).getD .text) source outcome := by
  rw [perform_of_script hscripts hconfigured] at hperform
  rw [← format_overlay_options]
  exact Script.prints_of_run hread hfull hperform

end Arguments

namespace Command

variable {arguments : Arguments} {world : World}

theorem fails_of_scripts (hscripts : 1 < arguments.scripts.length) :
    Fails (arguments.perform world) 64 := by
  rw [Arguments.perform, Arguments.prepare, if_pos hscripts]
  exact ⟨_, rfl, rfl, rfl⟩

theorem fails_of_configuration (hscripts : arguments.scripts.length ≤ 1)
    (hnone : ¬∃ lower, Configured world.files arguments.config lower) :
    Fails (arguments.perform world) 78 := by
  rw [Arguments.perform, Arguments.prepare, if_neg (Nat.not_lt.mpr hscripts)]
  cases hresolve : arguments.resolve world.files with
  | error failure => exact ⟨_, rfl, rfl, rfl⟩
  | ok options =>
      obtain ⟨lower, hconfigured, -⟩ := Arguments.resolve_eq_ok_iff.mp hresolve
      exact absurd ⟨lower, hconfigured⟩ hnone

theorem run_of_read {args : List String} (hargs : Arguments.read args = .ok arguments) :
    run args world = arguments.perform world := by
  rw [run, hargs]

theorem scans_of_script {lower : Options} {name source : String}
    (hscripts : arguments.scripts = [name])
    (hconfigured : Configured world.files arguments.config lower)
    (hread : world.files.read name = .ok source.toUTF8) (hfull : world.outputFull = false) :
    Scans arguments lower world.terminal name source (arguments.perform world) := by
  have hperform := Arguments.perform_of_script hscripts hconfigured
  have hprints : ∀ outcome, arguments.perform world = .ok outcome →
      Script.Prints ((arguments.format.or lower.output).getD .text) source outcome := by
    intro outcome houtcome
    exact Arguments.prints_of_perform hscripts hconfigured hread hfull houtcome
  constructor
  case prints => exact hprints
  case notifies =>
    intro outcome hrun hplain
    rw [hperform] at hrun
    exact Script.notifies_of_run hread hfull hrun
      (Arguments.drawsDiagnostics_overlay_options hplain)
  case unaffected =>
    intro outcome houtcome args plain pretty world' other hargs hconfigured' hread' hfull' hother
    rw [run_of_read hargs] at hother
    have hsame : { arguments with plain := plain }.scripts = [name] := hscripts
    exact (hprints outcome houtcome).unique
      (Arguments.prints_of_perform hsame hconfigured' hread' hfull' hother)
  case ends =>
    rw [hperform]
    exact Script.exists_run_iff hread hfull
  case ends_of_bounded =>
    intro hbounded
    rw [hperform]
    exact (Script.exists_run_iff hread hfull).mpr ⟨_, scan_of_bounded hbounded⟩

/-- A call whose arguments are accepted fails with the first problem that it meets, or answers
with the scan of its script, or starts a prompt. -/
theorem run_answers {args : List String} (hargs : Arguments.read args = .ok arguments)
    (hfull : world.outputFull = false) : Answers arguments world (run args world) := by
  rw [run_of_read hargs]
  constructor
  case scripts => exact fails_of_scripts
  case configuration => exact fails_of_configuration
  case script =>
    intro name lower hscripts hconfigured hnone
    rw [Arguments.perform_of_script hscripts hconfigured]
    exact Script.run_unreadable hnone
  case source =>
    intro name lower source hscripts hconfigured hread
    exact scans_of_script hscripts hconfigured hread hfull
  case prompt =>
    intro lower hscripts hconfigured
    exact Arguments.perform_of_no_script hscripts hconfigured

theorem run_answers_of_undrawn_errors : ∃ world : World,
    Arguments.read ["-c", "c", "a"] = .ok ⟨none, some "c", false, ["a"]⟩ ∧
    world.outputFull = false ∧ world.terminal = true ∧
    Configured world.files (some "c") ⟨none, some false⟩ ∧
    world.files.read "a" = .ok "@\n\"x".toUTF8 ∧
    Answers ⟨none, some "c", false, ["a"]⟩ world (run ["-c", "c", "a"] world) ∧
    run ["-c", "c", "a"] world = .ok ⟨.errorsFound, "[line 2] EOF  null\n",
      [.line "[line 1] Error: Unexpected character: @",
        .line "[line 2] Error: Unterminated string.", .line "Found 2 errors."]⟩ := by
  have hargs : Arguments.read ["-c", "c", "a"] = .ok ⟨none, some "c", false, ["a"]⟩ := by
    decide +kernel
  refine ⟨⟨⟨fun path => if path = "c" then .ok "[null,false]".toUTF8 else .ok "@\n\"x".toUTF8,
    fun _ => false⟩, .empty, true, false⟩, hargs, rfl, rfl, ?_, rfl, run_answers hargs rfl, ?_⟩
  · exact .named rfl (by decide +kernel)
  · decide +kernel

end Command

end LoxLexer
