import LoxLexer.Proofs.Cursor.CommentLoop
import LoxLexer.Proofs.Opening

/-!
# Turns of a cursor

In one turn a cursor takes exactly the first element of the text in front of it.
Behind the element it has added what the element comes to, and nothing else
(`behind`).  This holds for any sound moves, and in particular no turn ends with a
mishap.
-/

namespace LoxLexer

namespace Cursor

/-- Where an element stands that begins at a cursor. -/
def place (cursor : Cursor) (element : Element) : Placed :=
  ⟨element, cursor.current, cursor.line.toNat⟩

/-- The cursor behind an element, with what the element comes to. -/
def behind (cursor : Cursor) (element : Element) : Cursor :=
  { cursor.moved (encode element.text) with
    start := cursor.current
    tokens := cursor.tokens ++ (cursor.place element).outcome.token?.toList
    diagnostics := cursor.diagnostics ++ (cursor.place element).outcome.diagnostic?.toList }

/-- A cursor that begins to read the text `after`, with the text `before` behind it. -/
structure Begins (source : String) (cursor : Cursor) (before after : List Char) : Prop where
  toList_eq : source.toList = before ++ after
  start_eq : cursor.start = cursor.current
  current_eq : cursor.current = byteLength before
  fits : cursor.line.toNat + byteLength after < UInt32.size

variable {source : String} {cursor : Cursor} {moves : Moves} {before text piece : List Char}
  {c : Char}

theorem Begins.faces (hbegins : cursor.Begins source before text) :
    cursor.Faces source (encode text) := by
  constructor
  case drop_eq =>
    rw [bytesOf_eq_encode, hbegins.toList_eq, encode_append, hbegins.current_eq, ← length_encode,
      List.drop_left]
  case current_le =>
    rw [hbegins.current_eq, ← byteLength_toList, hbegins.toList_eq, byteLength_append]
    exact Nat.le_add_right _ _
  case fits =>
    rw [length_encode]
    exact hbegins.fits

theorem line_moved_of_not_mem (hfeed : '\n' ∉ piece) :
    (cursor.moved (encode piece)).line = cursor.line := by
  have hcount : (encode piece).count 10 = 0 := by
    rw [count_lineFeed_encode]
    exact List.count_eq_zero.mpr hfeed
  rw [moved_of_count_eq_zero hcount]

theorem outcome_place (element : Element) :
    (cursor.place element).outcome =
      element.finding cursor.line (cursor.moved (encode element.text)).line
        (cursor.place element).span := by
  simp only [place, Placed.outcome, Placed.lastLine, moved, UInt32.ofNat_add, UInt32.ofNat_toNat,
    count_lineFeed_encode]

theorem current_behind (cursor : Cursor) (element : Element) :
    (cursor.behind element).current = cursor.current + byteLength element.text := by
  rw [← length_encode]
  rfl

theorem toNat_line_behind {element : Element}
    (hfits : cursor.line.toNat + byteLength element.text < UInt32.size) :
    (cursor.behind element).line.toNat = cursor.line.toNat + lineFeeds element.text := by
  rw [← count_lineFeed_encode]
  exact toNat_line_moved (by rwa [length_encode])

theorem tokens_behind (cursor : Cursor) (element : Element) :
    (cursor.behind element).tokens =
      cursor.tokens ++ (cursor.place element).outcome.token?.toList := rfl

theorem diagnostics_behind (cursor : Cursor) (element : Element) :
    (cursor.behind element).diagnostics =
      cursor.diagnostics ++ (cursor.place element).outcome.diagnostic?.toList := rfl

theorem behind_of_nothing {element : Element} (hstart : cursor.start = cursor.current)
    (hfinding : ∀ first last span, element.finding first last span = .nothing) :
    cursor.behind element = cursor.moved (encode element.text) := by
  simp only [behind, outcome_place, hfinding, Finding.token?, Finding.diagnostic?,
    Option.toList_none, List.append_nil, ← hstart]
  rfl

theorem ofOffsets_start_moved (hstart : cursor.start = cursor.current) (element : Element) :
    Span.ofOffsets (cursor.moved (encode element.text)).start
        (cursor.moved (encode element.text)).current =
      .ok (cursor.place element).span := by
  rw [start_moved, current_moved, hstart, length_encode]
  exact Span.ofOffsets_of_le (Nat.le_add_right _ _)

theorem Begins.textBetween {rest : List Char}
    (hbegins : cursor.Begins source before (piece ++ rest)) :
    textBetween source (cursor.moved (encode piece)).start (cursor.moved (encode piece)).current =
      .ok (String.ofList piece) := by
  have hsource : source.toList = before ++ piece ++ rest := by
    rw [hbegins.toList_eq, List.append_assoc]
  rw [start_moved, current_moved, hbegins.start_eq, hbegins.current_eq, length_encode,
    ← byteLength_append]
  exact textBetween_of_append hsource

/-- The token of an element is pushed behind the text of the element. -/
theorem Begins.pushToken {form : Form} {rest : List Char} {kind : Kind}
    {literal : Option Literal} {line : UInt32}
    (hbegins : cursor.Begins source before (piece ++ rest)) (hline : line = cursor.line)
    (hfinding : ∀ first last span, Element.finding ⟨form, piece⟩ first last span =
      .token ⟨kind, String.ofList piece, literal, first, span⟩) :
    (cursor.moved (encode piece)).pushToken source kind literal line =
      .ok (cursor.behind ⟨form, piece⟩) := by
  have hlexeme := hbegins.textBetween
  have hspan := ofOffsets_start_moved hbegins.start_eq ⟨form, piece⟩
  rw [Cursor.pushToken, hlexeme]
  simp only [bind, Except.bind, hspan, Mishap.lift, pure, Except.pure, behind, outcome_place,
    hfinding, Finding.token?, Finding.diagnostic?, Option.toList_some, Option.toList_none,
    List.append_nil, tokens_moved, hline]
  rw [← hbegins.start_eq]
  rfl

/-- A message about an element is reported on the line that its text ends on. -/
theorem Begins.report {form : Form} {rest : List Char} {message : Message}
    {arguments : List String} (hbegins : cursor.Begins source before (piece ++ rest))
    (hfinding : ∀ span, Element.finding ⟨form, piece⟩ cursor.line
        (cursor.moved (encode piece)).line span =
      .diagnostic
        (.ofMessage (cursor.moved (encode piece)).line message arguments (some span))) :
    (cursor.moved (encode piece)).report message arguments =
      .ok (cursor.behind ⟨form, piece⟩) := by
  have hspan := ofOffsets_start_moved hbegins.start_eq ⟨form, piece⟩
  rw [Cursor.report, hspan]
  simp only [bind, Except.bind, Mishap.lift, pure, Except.pure, behind, outcome_place,
    hfinding, Finding.token?, Finding.diagnostic?, Option.toList_some, Option.toList_none,
    List.append_nil, diagnostics_moved]
  rw [← hbegins.start_eq]
  rfl

theorem lineFeed_not_mem_cons_takeWhile {test : Char → Bool} (text : List Char) (hc : test c)
    (htest : test '\n' = false) : '\n' ∉ c :: text.takeWhile test := by
  rw [List.mem_cons, not_or]
  refine ⟨?_, not_mem_takeWhile htest⟩
  rintro rfl
  rw [hc] at htest
  cases htest

theorem Begins.pushNumber {rest : List Char} (hbegins : cursor.Begins source before (piece ++ rest))
    (hfeed : '\n' ∉ piece) :
    (cursor.moved (encode piece)).pushNumber source = .ok (cursor.behind ⟨.number, piece⟩) := by
  rw [Cursor.pushNumber, hbegins.textBetween]
  exact hbegins.pushToken (line_moved_of_not_mem hfeed) fun _ _ _ => rfl

theorem Begins.scanNumber (hbegins : cursor.Begins source before (c :: text))
    (hc : isDigit c) :
    (cursor.moved (encode [c])).scanNumber source =
      .ok (cursor.behind (Cut.number c text).element) := by
  have hwhole := lineFeed_not_mem_cons_takeWhile text hc (by decide)
  have hascii : ∀ d, isDigit d → d.toNat < 128 := fun d => toNat_lt_of_isDigit
  have hskip := hbegins.faces.behind_head.skipWhile isDigit hascii (by decide)
  rw [moved_encode, List.singleton_append] at hskip
  have hsplit : c :: text = c :: text.takeWhile isDigit ++ text.dropWhile isDigit := by
    rw [List.cons_append, List.takeWhile_append_dropWhile]
  rw [hsplit] at hbegins
  have hrest := hbegins.faces.behind
  have hpoint := hrest.peek_and_peekNext_iff '.' isDigit (by decide) (by decide) hascii (by decide)
  rw [Cursor.scanNumber, bind_of_eq_ok hskip]
  fun_cases Cut.number c text with
  | case1 digit rest heq hdigit =>
      rw [if_pos (hpoint.mpr ⟨digit, rest, heq, hdigit⟩)]
      rw [heq] at hbegins hrest
      have hadvance := hrest.advance_ascii (by decide)
      have hskip' := hrest.behind_head.skipWhile isDigit hascii (by decide)
      have hsplit' : c :: text.takeWhile isDigit ++ '.' :: digit :: rest =
          c :: (text.takeWhile isDigit ++ '.' :: digit :: rest.takeWhile isDigit) ++
            rest.dropWhile isDigit := by
        simp [List.takeWhile_append_dropWhile]
      have hpiece :
          '\n' ∉ c :: (text.takeWhile isDigit ++ '.' :: digit :: rest.takeWhile isDigit) := by
        intro hmem
        rw [← List.cons_append, List.mem_append] at hmem
        rcases hmem with hmem | hmem
        · exact hwhole hmem
        · rcases List.mem_cons.mp hmem with hmem | hmem
          · cases hmem
          · exact lineFeed_not_mem_cons_takeWhile rest hdigit (by decide) hmem
      rw [hsplit'] at hbegins
      rw [bind_of_eq_ok hadvance, bind_of_eq_ok hskip', moved_encode, moved_encode,
        List.takeWhile_cons_of_pos hdigit]
      exact hbegins.pushNumber hpiece
  | case2 digit rest heq hdigit =>
      have hnone : ¬ ∃ second rest, text.dropWhile isDigit = '.' :: second :: rest ∧
          isDigit second := by
        rintro ⟨second, other, hother, hsecond⟩
        rw [heq] at hother
        cases hother
        exact hdigit hsecond
      rw [if_neg (mt hpoint.mp hnone)]
      exact hbegins.pushNumber hwhole
  | case3 hother =>
      have hnone : ¬ ∃ second rest, text.dropWhile isDigit = '.' :: second :: rest ∧
          isDigit second := by
        rintro ⟨second, rest, heq, -⟩
        exact hother second rest heq
      rw [if_neg (mt hpoint.mp hnone)]
      exact hbegins.pushNumber hwhole

theorem Begins.scanWord (hbegins : cursor.Begins source before (c :: text))
    (hc : isLetter c) :
    (cursor.moved (encode [c])).scanWord source =
      .ok (cursor.behind (Cut.word c text).element) := by
  have hpiece :=
    lineFeed_not_mem_cons_takeWhile text (isWordCharacter_of_isLetter hc) (by decide)
  have hascii : ∀ d, isWordCharacter d → d.toNat < 128 := fun d => toNat_lt_of_isWordCharacter
  have hskip := hbegins.faces.behind_head.skipWhile isWordCharacter hascii (by decide)
  rw [moved_encode, List.singleton_append] at hskip
  have hsplit : c :: text =
      c :: text.takeWhile isWordCharacter ++ text.dropWhile isWordCharacter := by
    rw [List.cons_append, List.takeWhile_append_dropWhile]
  rw [hsplit] at hbegins
  rw [Cursor.scanWord, bind_of_eq_ok hskip, bind_of_eq_ok hbegins.textBetween]
  exact hbegins.pushToken (line_moved_of_not_mem hpiece) fun _ _ _ => rfl

theorem Begins.scanString (hmoves : moves.Sound)
    (hbegins : cursor.Begins source before ('"' :: text)) :
    (cursor.moved (encode ['"'])).scanString moves source =
      .ok (cursor.behind (Cut.string text).element) := by
  have hquote := hmoves.toQuote hbegins.faces.behind_head
  rw [moved_encode, List.singleton_append] at hquote
  rw [Cursor.scanString]
  fun_cases Cut.string text with
  | case1 heq =>
      have hmem := not_mem_of_dropWhile_bne heq
      rw [takeWhile_bne_of_not_mem hmem, decide_eq_false hmem] at hquote
      rw [bind_of_eq_ok hquote]
      rw [← List.append_nil ('"' :: text)] at hbegins
      exact hbegins.report fun _ => rfl
  | case2 quote rest heq =>
      have hquoted : quote = '"' := by
        simpa using eq_false_of_dropWhile_eq_cons heq
      subst hquoted
      have hsplit : text = text.takeWhile (· != '"') ++ '"' :: rest := by
        rw [← heq, List.takeWhile_append_dropWhile]
      generalize text.takeWhile (· != '"') = inside at hsplit hquote
      subst hsplit
      rw [decide_eq_true (by simp)] at hquote
      have hclosing := hbegins.faces
      rw [← List.cons_append] at hclosing
      have hadvance := hclosing.behind.advance_ascii (by decide)
      rw [moved_encode, List.cons_append] at hadvance
      have hinside : source.toList = (before ++ ['"']) ++ inside ++ '"' :: rest := by
        simp [hbegins.toList_eq]
      have hvalue := textBetween_of_append hinside
      have hstart : byteLength (before ++ ['"']) = cursor.start + 1 := by
        rw [byteLength_append, hbegins.start_eq, hbegins.current_eq]
        rfl
      have hstop : (cursor.moved (encode ('"' :: (inside ++ ['"'])))).current =
          byteLength (before ++ ['"'] ++ inside) + 1 := by
        rw [byteLength_append, hstart, hbegins.start_eq, current_moved, length_encode]
        simp only [byteLength_cons, byteLength_append, byteLength_nil]
        have hone : '"'.utf8Size = 1 := rfl
        omega
      have hprevious : previous (cursor.moved (encode ('"' :: (inside ++ ['"'])))).current =
          .ok (byteLength (before ++ ['"'] ++ inside)) := by
        rw [hstop]
        rfl
      rw [hstart] at hvalue
      have hpiece : '"' :: (inside ++ '"' :: rest) = '"' :: (inside ++ ['"']) ++ rest := by simp
      rw [hpiece] at hbegins
      rw [bind_of_eq_ok hquote]
      simp only [if_true]
      rw [bind_of_eq_ok hadvance, bind_of_eq_ok hprevious, start_moved, bind_of_eq_ok hvalue]
      apply hbegins.pushToken (line_moved_of_not_mem (by decide))
      intro first last span
      simp [Element.finding]

theorem head?_ne_some (hother : ∀ rest, text = c :: rest → False) : text.head? ≠ some c := by
  intro hhead
  obtain ⟨rest, hrest⟩ := List.head?_eq_some_iff.mp hhead
  exact hother rest hrest

theorem finding_comment (outer : Nat) (seen text : List Char) (first last : UInt32) (span : Span) :
    (Cut.comment outer seen text).element.finding first last span = .nothing := by
  fun_induction Cut.comment outer seen text with
  | case1 => rfl
  | case2 => rfl
  | case3 _ _ _ ih => exact ih
  | case4 _ _ _ ih => exact ih
  | case5 _ _ _ _ _ _ ih => exact ih

theorem Begins.scanSlash (hmoves : moves.Sound)
    (hbegins : cursor.Begins source before ('/' :: text)) :
    (cursor.moved (encode ['/'])).scanSlash moves source =
      .ok (cursor.behind (Cut.slash text).element) := by
  have hfaces := hbegins.faces.behind_head
  rw [Cursor.scanSlash]
  fun_cases Cut.slash text with
  | case1 text =>
      have hslash := hfaces.matchChar (by decide) (by decide)
      have hline := hmoves.toLineFeed hfaces.behind_head
      rw [moved_encode, moved_encode] at hline
      rw [moved_encode] at hslash
      rw [bind_of_eq_ok hslash, behind_of_nothing hbegins.start_eq fun _ _ _ => rfl]
      exact hline
  | case2 text =>
      have hslash := hfaces.matchChar_of_ne '/' (by decide) (by decide) (by simp)
      have hstar := hfaces.matchChar (by decide) (by decide)
      rw [moved_encode] at hstar
      have hbody := hfaces.behind_head
      rw [moved_encode] at hbody
      have hfits : 1 + byteLength text < UInt32.size := by
        have hfits := hbegins.fits
        have hone : '/'.utf8Size = 1 := rfl
        rw [byteLength_cons, byteLength_cons, hone] at hfits
        omega
      obtain ⟨taken, htext, hskip⟩ := hbody.skipComment ['*', '/'] hfits
      rw [bind_of_eq_ok hslash]
      simp only [Bool.false_eq_true, if_false]
      rw [bind_of_eq_ok hstar]
      simp only [if_true]
      rw [hskip, moved_encode, behind_of_nothing hbegins.start_eq (finding_comment _ _ _), htext]
      rfl
  | case3 text hslash hstar =>
      have hnoSlash := hfaces.matchChar_of_ne '/' (by decide) (by decide) (head?_ne_some hslash)
      have hnoStar := hfaces.matchChar_of_ne '*' (by decide) (by decide) (head?_ne_some hstar)
      rw [← List.singleton_append] at hbegins
      rw [bind_of_eq_ok hnoSlash]
      simp only [Bool.false_eq_true, if_false]
      rw [bind_of_eq_ok hnoStar]
      simp only [Bool.false_eq_true, if_false]
      exact hbegins.pushToken (line_moved_of_not_mem (by decide)) fun _ _ _ => rfl

/-- A stray character is read from behind its first byte. -/
theorem Begins.scanStray (hmoves : moves.Sound)
    (hbegins : cursor.Begins source before (c :: text)) (hfeed : c ≠ '\n')
    {byte : UInt8} {high : List UInt8} (hbytes : String.utf8EncodeChar c = byte :: high) :
    (cursor.moved [byte]).scanStray moves source = .ok (cursor.behind ⟨.stray, [c]⟩) := by
  have hsource : source.toList = before ++ (c :: text) ++ [] := by
    rw [hbegins.toList_eq, List.append_nil]
  have hrest := textBetween_of_append hsource
  have hsize : byteLength (before ++ c :: text) = source.utf8ByteSize := by
    rw [← hbegins.toList_eq, byteLength_toList]
  rw [hsize, ← hbegins.current_eq, ← hbegins.start_eq] at hrest
  have hpast := hmoves.pastCharacter hbegins.faces hbegins.start_eq hbytes
  have hall : cursor.moved (byte :: high) = cursor.moved (encode [c]) := by
    rw [encode_cons, hbytes, encode_nil, List.append_nil]
  rw [hall] at hpast
  rw [← List.singleton_append] at hbegins
  rw [Cursor.scanStray, start_moved, bind_of_eq_ok hrest, String.toList_ofList]
  simp only [List.head?_cons, Option.getD_some]
  rw [bind_of_eq_ok hpast]
  apply hbegins.report
  intro span
  have hline : (cursor.moved (encode [c])).line = cursor.line := by
    apply line_moved_of_not_mem
    rw [List.mem_singleton]
    exact hfeed.symm
  rw [hline, String.singleton_eq_ofList]
  rfl

/-- The tables and tests of a scan know ASCII characters only. -/
theorem classes_of_high (hc : 128 ≤ c.toNat) :
    Kind.ofPunctuation? c = none ∧ Kind.operatorForms? c = none ∧ isDigit c = false ∧
      isLetter c = false ∧ c ≠ '"' ∧ c ≠ '/' ∧ isBlank c = false := by
  have hne : ∀ d : Char, d.toNat < 128 → c ≠ d := by
    rintro d hd rfl
    omega
  have hword : isWordCharacter c = false := by
    rw [Bool.eq_false_iff]
    intro hword
    have hlt := toNat_lt_of_isWordCharacter hword
    omega
  simp only [isWordCharacter, Bool.or_eq_false_iff] at hword
  refine ⟨?_, ?_, hword.2, hword.1, hne '"' (by decide), hne '/' (by decide), ?_⟩
  · fun_cases Kind.ofPunctuation? c with
    | case11 => rfl
    | _ => exact absurd rfl (hne _ (by decide))
  · fun_cases Kind.operatorForms? c with
    | case5 => rfl
    | _ => exact absurd rfl (hne _ (by decide))
  · rw [Bool.eq_false_iff, ne_eq, isBlank_iff]
    simp only [List.mem_cons, List.not_mem_nil, or_false, not_or]
    exact ⟨hne _ (by decide), hne _ (by decide), hne _ (by decide), hne _ (by decide)⟩

theorem Begins.scanOperator (hbegins : cursor.Begins source before (c :: text))
    {forms : Kind.OperatorForms} (hforms : Kind.operatorForms? c = some forms) :
    (cursor.moved (encode [c])).scanOperator source forms =
      .ok (cursor.behind (Cut.operator c forms text).element) := by
  have hfaces := hbegins.faces.behind_head
  have hfeed : '\n' ≠ c := by
    rintro rfl
    cases hforms
  rw [Cursor.scanOperator]
  fun_cases Cut.operator c forms text with
  | case1 text =>
      have hequals := hfaces.matchChar (by decide) (by decide)
      rw [moved_encode] at hequals
      have hpiece : '\n' ∉ [c, '='] := by simp [hfeed]
      have hsplit : c :: '=' :: text = [c, '='] ++ text := rfl
      rw [hsplit] at hbegins
      rw [bind_of_eq_ok hequals]
      exact hbegins.pushToken (line_moved_of_not_mem hpiece) fun _ _ _ => rfl
  | case2 text hother =>
      have hnone := hfaces.matchChar_of_ne '=' (by decide) (by decide) (head?_ne_some hother)
      have hpiece : '\n' ∉ [c] := by simp [hfeed]
      rw [← List.singleton_append] at hbegins
      rw [bind_of_eq_ok hnone]
      exact hbegins.pushToken (line_moved_of_not_mem hpiece) fun _ _ _ => rfl

/-- From the beginning of a text that is not empty, a turn takes the first element. -/
theorem Begins.scanToken (hmoves : moves.Sound)
    (hbegins : cursor.Begins source before (c :: text)) :
    cursor.scanToken moves source = .ok (cursor.behind (Cut.first c text).element) := by
  obtain ⟨byte, high, hbytes, -, hbyte⟩ := exists_encodeChar c
  have hfaces := hbegins.faces
  rw [encode_cons, hbytes, List.cons_append] at hfaces
  have hpeek : cursor.peek source = Char.ofUInt8 byte := hfaces.peek_eq
  have hadvance := hfaces.advance
  rcases hbyte with ⟨hc, hbyte⟩ | ⟨hc, hbyte⟩
  · -- The byte is the character.
    have hadvance' := hbegins.faces.advance_ascii hc
    rw [hbyte] at hpeek
    rw [Cursor.scanToken, hpeek, bind_of_eq_ok hadvance']
    fun_cases Cut.first c text with
    | case1 kind hkind =>
        have hpiece : '\n' ∉ [c] := by
          rw [List.mem_singleton]
          rintro rfl
          cases hkind
        rw [← List.singleton_append] at hbegins
        rw [hkind]
        exact hbegins.pushToken (line_moved_of_not_mem hpiece) fun _ _ _ => rfl
    | case2 forms hforms hkind =>
        rw [hkind, hforms]
        exact hbegins.scanOperator hforms
    | case3 hforms hkind hdigit =>
        rw [hkind, hforms]
        simp only [hdigit, if_true]
        exact hbegins.scanNumber hdigit
    | case4 hforms hkind hdigit hletter =>
        rw [hkind, hforms]
        simp only [hdigit, hletter, if_true]
        exact hbegins.scanWord hletter
    | case5 hforms hkind hdigit hletter hquote =>
        subst hquote
        exact hbegins.scanString hmoves
    | case6 hforms hkind hdigit hletter hquote hslash =>
        subst hslash
        exact hbegins.scanSlash hmoves
    | case7 hforms hkind hdigit hletter hquote hslash hblank =>
        rw [hkind, hforms, behind_of_nothing hbegins.start_eq fun _ _ _ => rfl]
        simp only [hdigit, hletter, hquote, hslash, hblank, if_true, if_false]
        rfl
    | case8 hforms hkind hdigit hletter hquote hslash hblank =>
        have hfeed : c ≠ '\n' := by
          rintro rfl
          exact hblank rfl
        have hstray := hbegins.scanStray hmoves hfeed (encodeChar_of_ascii hc)
        rw [hkind, hforms]
        simp only [hdigit, hletter, hquote, hslash, hblank, if_false]
        rw [encode_cons, encodeChar_of_ascii hc]
        exact hstray
  · -- The byte and the character are both unknown to the tables.
    obtain ⟨hkind, hforms, hdigit, hletter, hquote, hslash, hblank⟩ := classes_of_high hc
    have hfeed : c ≠ '\n' := by
      rintro rfl
      cases hblank
    have hfirst : Cut.first c text = ⟨⟨.stray, [c]⟩, text⟩ := by
      simp [Cut.first, hkind, hforms, hdigit, hletter, hquote, hslash, hblank]
    rw [← toNat_ofUInt8] at hbyte
    obtain ⟨hkind', hforms', hdigit', hletter', hquote', hslash', hblank'⟩ := classes_of_high hbyte
    rw [Cursor.scanToken, hpeek, bind_of_eq_ok hadvance, hkind', hforms', hfirst]
    simp only [hdigit', hletter', hquote', hslash', hblank', Bool.false_eq_true, if_false]
    exact hbegins.scanStray hmoves hfeed hbytes

end Cursor

end LoxLexer
