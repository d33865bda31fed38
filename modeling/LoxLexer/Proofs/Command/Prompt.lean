import LoxLexer.Command.Prompt
import LoxLexer.Proofs.Command.Showing
import LoxLexer.Proofs.Cursor.Encoding

/-!
# The prompt answers line by line

An input is cut behind each newline, and a line is what is left of a piece without the
newlines and carriage returns at its end (`Prompt.Lines`).  The input comes as bytes, but
only a newline has the byte of one, so bytes and characters are cut alike
(`linesAfter_encode_cons`).

The answer to an input is put together from the answers to its lines, each of which is what
is shown of that line alone (`Prompt.Answers`).
-/

namespace LoxLexer

namespace Prompt

/-- A line, and the piece of an input that it is the text of. -/
structure Strips (piece : List Char) (line : String) : Prop where
  eq_append : ∃ ending, piece = line.toList ++ ending ∧ ∀ c ∈ ending, c = '\r' ∨ c = '\n'
  last_ne : ∀ c ∈ line.toList.getLast?, c ≠ '\r' ∧ c ≠ '\n'

/-- The lines of a text.  The last one may lack its newline, if there is anything in it. -/
inductive Lines : List Char → List String → Prop where
  | nil : Lines [] []
  | last {piece : List Char} {line : String} (hne : piece ≠ []) (hfeed : '\n' ∉ piece)
      (hline : Strips piece line) : Lines piece [line]
  | cons {piece rest : List Char} {line : String} {lines : List String} (hfeed : '\n' ∉ piece)
      (hline : Strips (piece ++ ['\n']) line) (hrest : Lines rest lines) :
      Lines (piece ++ '\n' :: rest) (line :: lines)

/-- What is shown of a line alone.  Everything in it is on line 1. -/
structure ShowsLine (options : Options) (terminal : Bool) (line : String) (shown : Shown) :
    Prop where
  shows_alone : ∃ found,
    Shows options.format (options.drawsDiagnostics && terminal) "<prompt>" line [] found shown ∧
    (∀ token ∈ found.tokens, token.line = 1) ∧
    ∀ diagnostic ∈ found.diagnostics, diagnostic.line = 1

/-- The outcome of a prompt with the given lines. -/
structure Answers (options : Options) (terminal : Bool) (lines : List String)
    (outcome : Outcome) : Prop where
  code_eq : outcome.status.code = 0
  shown_eq : ∃ shown, List.Forall₂ (ShowsLine options terminal) lines shown ∧
    outcome.output = String.join (shown.map fun answer => "λ " ++ answer.output) ++ "λ \n" ∧
    outcome.notices = shown.flatMap Shown.notices

theorem strips_iff {piece : List Char} {line : String} :
    Strips piece line ↔ line = strip (String.ofList piece) := by
  rw [strip, String.toList_ofList]
  constructor
  · rintro ⟨⟨ending, rfl, hending⟩, hlast⟩
    have hdrop : (ending.reverse ++ line.toList.reverse).dropWhile
        (fun c => c == '\n' || c == '\r') = line.toList.reverse := by
      apply dropWhile_eq_of_append
      · intro c hmem
        rcases hending c (List.mem_reverse.mp hmem) with rfl | rfl
        · rfl
        · rfl
      · intro c hc
        rw [List.head?_reverse] at hc
        simp [hlast c hc]
    rw [List.reverse_append, hdrop, List.reverse_reverse, String.ofList_toList]
  · rintro rfl
    refine ⟨⟨(piece.reverse.takeWhile fun c => c == '\n' || c == '\r').reverse, ?_, ?_⟩, ?_⟩
    · rw [String.toList_ofList, ← List.reverse_append, List.takeWhile_append_dropWhile,
        List.reverse_reverse]
    · intro c hmem
      have hc := List.mem_takeWhile_imp (List.mem_reverse.mp hmem)
      simp only [Bool.or_eq_true, beq_iff_eq] at hc
      exact hc.symm
    · intro c hc
      rw [String.toList_ofList, List.getLast?_reverse] at hc
      obtain ⟨rest, hdrop⟩ := List.head?_eq_some_iff.mp hc
      have hnot := eq_false_of_dropWhile_eq_cons hdrop
      simp only [Bool.or_eq_false_iff, beq_eq_false_iff_ne] at hnot
      exact hnot.symm

theorem exists_lines (text : List Char) : ∃ lines, Lines text lines := by
  induction hlength : text.length using Nat.strong_induction_on generalizing text with
  | _ length ih =>
      by_cases hfeed : '\n' ∈ text
      · obtain ⟨piece, rest, rfl, hpiece⟩ := List.eq_append_cons_of_mem hfeed
        obtain ⟨lines, hlines⟩ := ih rest.length (by simp [← hlength]; omega) rest rfl
        exact ⟨_, .cons hpiece (strips_iff.mpr rfl) hlines⟩
      · by_cases hne : text = []
        · exact ⟨[], hne ▸ .nil⟩
        · exact ⟨_, .last hne hfeed (strips_iff.mpr rfl)⟩

theorem Lines.unique {text : List Char} {lines others : List String} (hlines : Lines text lines)
    (hothers : Lines text others) : lines = others := by
  induction hlines generalizing others with
  | nil =>
      generalize htext : [] = text at hothers
      cases hothers with
      | nil => rfl
      | last hne => exact absurd htext.symm hne
      | cons => simp at htext
  | @last piece line hne hfeed hline =>
      cases hothers with
      | nil => exact absurd rfl hne
      | last _ _ hother => rw [strips_iff.mp hline, strips_iff.mp hother]
      | cons => simp at hfeed
  | @cons piece rest line lines hfeed hline hrest ih =>
      -- Both cut the text at its first newline.
      generalize htext : piece ++ '\n' :: rest = text at hothers
      cases hothers with
      | nil => simp at htext
      | last _ hnone => simp [← htext] at hnone
      | cons hpiece hother hothers =>
          obtain ⟨rfl, rfl⟩ := append_cons_inj hfeed hpiece htext
          rw [strips_iff.mp hline, strips_iff.mp hother, ih hothers]

end Prompt

theorem lineFeeds_eq_zero {text : List Char} (hfeed : '\n' ∉ text) : lineFeeds text = 0 :=
  List.count_eq_zero.mpr hfeed

theorem line_eq_one_of_scan {source : String} {found : Scan} (hscan : scan source = .ok found)
    (hfeed : '\n' ∉ source.toList) :
    (∀ token ∈ found.tokens, token.line = 1) ∧
      ∀ diagnostic ∈ found.diagnostics, diagnostic.line = 1 := by
  have hfeeds := lineFeeds_eq_zero hfeed
  obtain ⟨htokens, hdiagnostics⟩ := of_scan_eq_ok hscan
  have hlines : ∀ placed ∈ placedElements source.toList, placed.line = 1 ∧ placed.lastLine = 1 := by
    intro placed hmem
    have hplace := mem_placedElements hmem
    have hle := placed.line_le_lastLine
    omega
  constructor
  · intro token hmem
    rw [htokens, List.mem_append, List.mem_singleton] at hmem
    rcases hmem with hmem | rfl
    · obtain ⟨placed, hplaced, houtcome⟩ := mem_tokensOf.mp hmem
      rw [(Placed.of_outcome_eq_token houtcome).2.1, (hlines placed hplaced).1]
      rfl
    · rw [hfeeds]
      rfl
  · intro diagnostic hmem
    rw [hdiagnostics] at hmem
    obtain ⟨placed, hplaced, houtcome⟩ := mem_diagnostics.mp hmem
    obtain ⟨-, ⟨-, -, hline⟩ | ⟨-, -, hline⟩⟩ := Placed.of_outcome_eq_diagnostic houtcome
    · rw [hline, (hlines placed hplaced).1]
      rfl
    · rw [hline, (hlines placed hplaced).2]
      rfl

namespace Prompt

theorem linesAfter_of_not_mem {bytes : List UInt8} (hfeed : 10 ∉ bytes) (begun : List UInt8) :
    linesAfter begun bytes =
      if (begun.reverse ++ bytes).isEmpty then [] else [begun.reverse ++ bytes] := by
  induction bytes generalizing begun with
  | nil => simp [linesAfter]
  | cons byte bytes ih =>
      rw [List.mem_cons, not_or] at hfeed
      rw [linesAfter, if_neg (Ne.symm hfeed.1), ih hfeed.2]
      simp

theorem linesAfter_append_cons {bytes : List UInt8} (hfeed : 10 ∉ bytes)
    (begun rest : List UInt8) :
    linesAfter begun (bytes ++ 10 :: rest) =
      (begun.reverse ++ bytes ++ [10]) :: linesAfter [] rest := by
  induction bytes generalizing begun with
  | nil => simp [linesAfter]
  | cons byte bytes ih =>
      rw [List.mem_cons, not_or] at hfeed
      rw [List.cons_append, linesAfter, if_neg (Ne.symm hfeed.1), ih hfeed.2]
      simp

theorem not_mem_encode {text : List Char} (hfeed : '\n' ∉ text) : 10 ∉ encode text := by
  rw [mem_encode_iff (by decide)]
  exact hfeed

theorem linesAfter_encode_last {piece : List Char} (hne : piece ≠ []) (hfeed : '\n' ∉ piece) :
    linesAfter [] (encode piece) = [encode piece] := by
  have hbytes : ¬encode piece = [] := by
    intro hnil
    have hlength := length_encode piece
    rw [hnil] at hlength
    exact hne (eq_nil_of_byteLength_eq_zero hlength.symm)
  rw [linesAfter_of_not_mem (not_mem_encode hfeed), List.reverse_nil, List.nil_append,
    if_neg (by simpa using hbytes)]

theorem linesAfter_encode_cons {piece : List Char} (hfeed : '\n' ∉ piece) (rest : List Char) :
    linesAfter [] (encode (piece ++ '\n' :: rest)) =
      encode (piece ++ ['\n']) :: linesAfter [] (encode rest) := by
  have hbyte : String.utf8EncodeChar '\n' = [10] := by decide
  rw [encode_append, encode_cons, hbyte, List.singleton_append,
    linesAfter_append_cons (not_mem_encode hfeed), encode_append, encode_cons, hbyte]
  simp

theorem not_mem_of_strips {piece : List Char} {line : String} (hfeed : '\n' ∉ piece)
    (hline : Strips piece line) : '\n' ∉ line.toList := by
  obtain ⟨⟨ending, rfl, -⟩, -⟩ := hline
  exact fun hmem => hfeed (List.mem_append_left _ hmem)

theorem not_mem_of_strips_newline {piece : List Char} {line : String} (hfeed : '\n' ∉ piece)
    (hline : Strips (piece ++ ['\n']) line) : '\n' ∉ line.toList := by
  obtain ⟨⟨ending, heq, -⟩, hlast⟩ := hline
  rcases List.eq_nil_or_concat ending with rfl | ⟨before, c, rfl⟩
  · -- The piece ends with its newline, which no line does.
    rw [List.append_nil] at heq
    rw [← heq] at hlast
    simpa using hlast '\n'
  · rw [List.concat_eq_append, ← List.append_assoc] at heq
    rw [(List.append_inj' heq rfl).1] at hfeed
    exact fun hmem => hfeed (List.mem_append_left _ hmem)

theorem not_mem_of_mem_lines {text : List Char} {lines : List String} (hlines : Lines text lines) :
    ∀ line ∈ lines, '\n' ∉ line.toList := by
  induction hlines with
  | nil => simp
  | last _ hfeed hline => simpa using not_mem_of_strips hfeed hline
  | cons hfeed hline _ ih =>
      rw [List.forall_mem_cons]
      exact ⟨not_mem_of_strips_newline hfeed hline, ih⟩

variable {options : Options} {terminal : Bool}

theorem answerBytes_encode {piece : List Char} {line : String} (hline : Strips piece line) :
    answerBytes options terminal (encode piece) =
      some <$> showSource options terminal sourceName line .empty := by
  have hbytes : ByteArray.mk (encode piece).toArray = (String.ofList piece).toUTF8 := by
    have hencode := bytesOf_eq_encode (String.ofList piece)
    rw [String.toList_ofList] at hencode
    rw [← hencode]
    rfl
  rw [answerBytes, fromUTF8?_eq_some_iff.mpr hbytes, strips_iff.mp hline]
  rfl

theorem answerAll_cons_eq_ok_iff {piece : List Char} {line : String} (hline : Strips piece line)
    {rest : List (List UInt8)} {outcome : Outcome} :
    answerAll options terminal (encode piece :: rest) = .ok outcome ↔
      ∃ shown others, showSource options terminal sourceName line .empty = .ok shown ∧
        answerAll options terminal rest = .ok others ∧
        outcome = ⟨others.status, mark ++ shown.output ++ others.output,
          shown.notices ++ others.notices⟩ := by
  rw [answerAll, answerBytes_encode hline]
  cases hshow : showSource options terminal sourceName line .empty with
  | error fault =>
      constructor
      · intro houtcome
        cases houtcome
      · rintro ⟨shown, others, hshown, -⟩
        cases hshown
  | ok shown =>
      rw [Except.map_ok, bind_of_eq_ok rfl]
      constructor
      · intro houtcome
        obtain ⟨others, hothers, houtcome⟩ := exists_of_bind_eq_ok houtcome
        exact ⟨shown, others, rfl, hothers, (Except.ok.inj houtcome).symm⟩
      · rintro ⟨answer, others, hanswer, hothers, rfl⟩
        cases hanswer
        exact bind_of_eq_ok hothers _

/-- The answers to lines, put together. -/
def gather (shown : List Shown) : Outcome :=
  ⟨.success, String.join (shown.map fun answer => mark ++ answer.output) ++ (mark ++ "\n"),
    shown.flatMap Shown.notices⟩

theorem gather_cons (shown : Shown) (others : List Shown) :
    gather (shown :: others) =
      ⟨(gather others).status, mark ++ shown.output ++ (gather others).output,
        shown.notices ++ (gather others).notices⟩ := by
  simp [gather, String.append_assoc]

theorem answerAll_nil : answerAll options terminal [] = .ok (gather []) := by
  simp [answerAll, gather]

theorem answerAll_eq_ok_iff {text : List Char} {lines : List String} (hlines : Lines text lines)
    {outcome : Outcome} :
    answerAll options terminal (linesAfter [] (encode text)) = .ok outcome ↔
      ∃ shown, List.Forall₂ (fun line answer =>
        showSource options terminal sourceName line .empty = .ok answer) lines shown ∧
        outcome = gather shown := by
  induction hlines generalizing outcome with
  | nil =>
      have hnone : linesAfter [] (encode []) = [] := rfl
      rw [hnone, answerAll_nil, Except.ok.injEq]
      simp only [List.forall₂_nil_left_iff, exists_eq_left, eq_comm]
  | last hne hfeed hline =>
      rw [linesAfter_encode_last hne hfeed, answerAll_cons_eq_ok_iff hline, answerAll_nil]
      simp only [List.forall₂_cons_left_iff, List.forall₂_nil_left_iff]
      constructor
      · rintro ⟨shown, _, hshown, hothers, rfl⟩
        cases hothers
        exact ⟨[shown], ⟨shown, [], hshown, rfl, rfl⟩, (gather_cons shown []).symm⟩
      · rintro ⟨_, ⟨shown, _, hshown, rfl, rfl⟩, rfl⟩
        exact ⟨shown, gather [], hshown, rfl, gather_cons shown []⟩
  | cons hfeed hline _ ih =>
      rw [linesAfter_encode_cons hfeed, answerAll_cons_eq_ok_iff hline]
      simp only [ih, List.forall₂_cons_left_iff]
      constructor
      · rintro ⟨shown, _, hshown, ⟨others, hothers, rfl⟩, rfl⟩
        exact ⟨shown :: others, ⟨shown, others, hshown, hothers, rfl⟩,
          (gather_cons shown others).symm⟩
      · rintro ⟨_, ⟨shown, others, hshown, hothers, rfl⟩, rfl⟩
        exact ⟨shown, gather others, hshown, ⟨others, hothers, rfl⟩, gather_cons shown others⟩

theorem showsLine_of_showSource {line : String} {shown : Shown} (hfeed : '\n' ∉ line.toList)
    (hshown : showSource options terminal sourceName line .empty = .ok shown) :
    ShowsLine options terminal line shown := by
  obtain ⟨found, hshows⟩ := showSource_eq_ok_iff.mp hshown
  exact ⟨found, hshows, line_eq_one_of_scan hshows.scan_eq hfeed⟩

theorem exists_showSource_iff {line : String} :
    (∃ shown, showSource options terminal sourceName line .empty = .ok shown) ↔
      ∃ found, scan line = .ok found := by
  have hshows : (∃ found shown, Shows options.format (options.drawsDiagnostics && terminal)
      sourceName line [] found shown) ↔ ∃ found, scan line = .ok found :=
    exists_shows_iff (by simp)
  rw [← hshows, exists_comm]
  exact exists_congr fun _ => showSource_eq_ok_iff

theorem run_eq (files : Files) (text : String) (options : Options) (terminal : Bool) :
    run ⟨files, text.toUTF8, terminal, false⟩ options =
      answerAll options terminal (linesAfter [] (encode text.toList)) := by
  rw [← bytesOf_eq_encode]
  rfl

/-- A prompt answers each line of its input by itself, in order and without failing.  It comes
to an end if every line can be scanned, as can every line of bounded length. -/
theorem run_linewise (files : Files) (text : String) (options : Options) (terminal : Bool) :
    ∃ lines, (∀ others, Lines text.toList others ↔ others = lines) ∧
      (∀ outcome, run ⟨files, text.toUTF8, terminal, false⟩ options = .ok outcome →
        Answers options terminal lines outcome) ∧
      ((∃ outcome, run ⟨files, text.toUTF8, terminal, false⟩ options = .ok outcome) ↔
        ∀ line ∈ lines, ∃ found, scan line = .ok found) ∧
      ∀ line ∈ lines, Bounded line → ∃ found, scan line = .ok found := by
  obtain ⟨lines, hlines⟩ := exists_lines text.toList
  refine ⟨lines, ?_, ?_, ?_, fun line _ hbounded => ⟨_, scan_of_bounded hbounded⟩⟩
  · intro others
    exact ⟨fun hothers => hothers.unique hlines, fun heq => heq ▸ hlines⟩
  · intro outcome houtcome
    rw [run_eq, answerAll_eq_ok_iff hlines] at houtcome
    obtain ⟨shown, hshown, rfl⟩ := houtcome
    have hanswers := (List.forall₂_and_left _ _).mpr ⟨not_mem_of_mem_lines hlines, hshown⟩
    exact ⟨rfl, shown, hanswers.imp fun _ _ hanswer =>
      showsLine_of_showSource hanswer.1 hanswer.2, rfl, rfl⟩
  · have hanswers : (∀ line ∈ lines, ∃ found, scan line = .ok found) ↔
        ∃ shown, List.Forall₂ (fun line answer =>
          showSource options terminal sourceName line .empty = .ok answer) lines shown := by
      rw [exists_forall₂_iff]
      exact forall₂_congr fun _ _ => exists_showSource_iff.symm
    simp only [run_eq, answerAll_eq_ok_iff hlines, hanswers]
    constructor
    · rintro ⟨outcome, shown, hshown, -⟩
      exact ⟨shown, hshown⟩
    · rintro ⟨shown, hshown⟩
      exact ⟨_, shown, hshown, rfl⟩

theorem run_linewise_of_open_elements :
    ∃ lines, Lines "\"a\n/* b\r\r\n\nx".toList lines ∧ ∃ outcome,
      run ⟨⟨fun _ => .error .missing, fun _ => false⟩,
        "\"a\n/* b\r\r\n\nx".toUTF8, false, false⟩ .unset = .ok outcome ∧
      Answers .unset false lines outcome ∧
      outcome = ⟨.success, "λ [line 1] EOF  null\nλ [line 1] EOF  null\nλ [line 1] EOF  null\n" ++
          "λ [line 1] IDENTIFIER x null\n[line 1] EOF  null\nλ \n",
        [.line "[line 1] Error: Unterminated string.", .line "Found 1 error."]⟩ := by
  obtain ⟨lines, hlines, hanswers, -⟩ := run_linewise ⟨fun _ => .error .missing, fun _ => false⟩
    "\"a\n/* b\r\r\n\nx" .unset false
  have hrun : run ⟨⟨fun _ => .error .missing, fun _ => false⟩,
      "\"a\n/* b\r\r\n\nx".toUTF8, false, false⟩ .unset =
      .ok ⟨.success, "λ [line 1] EOF  null\nλ [line 1] EOF  null\nλ [line 1] EOF  null\n" ++
          "λ [line 1] IDENTIFIER x null\n[line 1] EOF  null\nλ \n",
        [.line "[line 1] Error: Unterminated string.", .line "Found 1 error."]⟩ := by
    decide +kernel
  exact ⟨lines, (hlines lines).mpr rfl, _, hrun, hanswers _ hrun, rfl⟩

end Prompt

end LoxLexer
