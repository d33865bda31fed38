import LoxLexer.Proofs.Boundary
import LoxLexer.Proofs.Options.Reading
import Mathlib.Data.List.DropRight

/-!
# Configurations that end too early

A configuration of which only a beginning is there is not taken for a wrong one.  Inside a
piece of its class, each reader runs out of text before it finds anything to object to
(`RunsOutInside`), and pieces that are read one after the other are one such piece
(`RunsOutInside.append`).

So a beginning of a configuration either lacks nothing but blanks, or is reported as incomplete
at its very end (`Options.ofText_beginning`).
-/

namespace LoxLexer

open LoxLexer.Configuration

variable {α β : Type} {text : List Char}

/-- The place of the end of a text. -/
def Position.endOf (text : List Char) : Position :=
  ⟨1 + lineFeeds text, byteLength (text.rtakeWhile (· != '\n'))⟩

theorem Position.advance_append (position : Position) (first : List Char) (offset : Nat)
    (second : List Char) :
    position.advance (byteLength first + offset) (first ++ second) =
      (position.advance (byteLength first) first).advance offset second := by
  induction first generalizing position with
  | nil => simp [advance]
  | cons c first ih =>
      have hinside : ¬c.utf8Size + byteLength first + offset < c.utf8Size := by omega
      have hend : ¬c.utf8Size + byteLength first < c.utf8Size := by omega
      rw [List.cons_append, byteLength_cons, advance, advance, if_neg hinside, if_neg hend]
      split_ifs with hfeed
      · subst hfeed
        have hsize : '\n'.utf8Size = 1 := by decide
        rw [hsize, Nat.add_assoc, Nat.add_sub_cancel_left, Nat.add_sub_cancel_left, ih]
      · rw [Nat.add_assoc, Nat.add_sub_cancel_left, Nat.add_sub_cancel_left, ih]

theorem Position.ofOffset_byteLength (text : List Char) :
    ofOffset text (byteLength text) = endOf text := by
  induction text using List.reverseRecOn with
  | nil => rfl
  | append_singleton text c ih =>
      have hend : ¬byteLength [c] < c.utf8Size := by simp
      unfold ofOffset at ih ⊢
      rw [byteLength_append, advance_append, ih, advance, if_neg hend]
      split_ifs with hfeed
      · subst hfeed
        simp [advance, endOf, lineFeeds, Nat.add_assoc]
      · simp [advance, endOf, lineFeeds, hfeed]

/-- The reading of a text came to its end, and something had yet to come. -/
def RunsOut (reading : Except Stop α) : Prop :=
  ∃ problem : Problem, problem.toClass = .incomplete ∧ reading = .error ⟨problem, [], 0⟩

/-- A reader runs out on every beginning of a piece but the whole of it. -/
def RunsOutInside (read : List Char → Except Stop α) (piece : List Char) : Prop :=
  ∀ cut, cut <+: piece → cut ≠ piece → RunsOut (read cut)

variable {read next : List Char → Except Stop α} {first second piece : List Char}

theorem runsOutInside_nil : RunsOutInside read [] := by
  intro cut hcut hne
  exact absurd (List.prefix_nil.mp hcut) hne

theorem RunsOutInside.append (hread : ∀ text, read (first ++ text) = next text)
    (hfirst : RunsOutInside read first) (hsecond : RunsOutInside next second) :
    RunsOutInside read (first ++ second) := by
  intro cut hcut hne
  rcases prefix_append_cases hcut with hcut | ⟨more, rfl, hmore⟩
  · by_cases heq : cut = first
    · -- Nothing of the second piece is there, which is then not empty.
      subst heq
      have hsecondNe : [] ≠ second := by
        rintro rfl
        exact hne (List.append_nil cut).symm
      have hout := hsecond [] List.nil_prefix hsecondNe
      rwa [← hread, List.append_nil] at hout
    · exact hfirst cut hcut heq
  · rw [hread]
    apply hsecond more hmore
    rintro rfl
    exact hne rfl

theorem RunsOutInside.cons {c : Char} (hread : ∀ text, read (c :: text) = next text)
    (hend : RunsOut (read [])) (hnext : RunsOutInside next piece) :
    RunsOutInside read (c :: piece) := by
  intro cut hcut hne
  cases cut with
  | nil => exact hend
  | cons d cut =>
      obtain ⟨rfl, hmore⟩ := List.cons_prefix_cons.mp hcut
      rw [hread]
      apply hnext cut hmore
      rintro rfl
      exact hne rfl

theorem RunsOutInside.tail {c : Char} (hpiece : RunsOutInside read (c :: piece)) :
    RunsOutInside (fun text => read (c :: text)) piece := by
  intro cut hcut hne
  apply hpiece (c :: cut) ((List.prefix_cons_inj c).mpr hcut)
  intro heq
  exact hne (List.cons.inj heq).2

theorem RunsOutInside.singleton {c : Char} (hend : RunsOut (read [])) :
    RunsOutInside read [c] :=
  .cons (fun _ => rfl) hend runsOutInside_nil

/-- A reader that stops wherever another one stops runs out with it. -/
theorem RunsOutInside.of_error {start : List Char → Except Stop β}
    (hstart : RunsOutInside start piece)
    (herror : ∀ text stop, start text = .error stop → read text = .error stop) :
    RunsOutInside read piece := by
  intro cut hcut hne
  obtain ⟨problem, hproblem, hstop⟩ := hstart cut hcut hne
  exact ⟨problem, hproblem, herror cut _ hstop⟩

theorem RunsOutInside.bind {start : List Char → Except Stop β} (hstart : RunsOutInside start piece)
    (resume : β → Except Stop α) : RunsOutInside (fun text => start text >>= resume) piece := by
  apply hstart.of_error
  intro text stop hstop
  rw [hstop]
  rfl

theorem RunsOutInside.bind_append {start : List Char → Except Stop β} {found : List Char → β}
    {resume : β → Except Stop α} (hread : ∀ text, start (first ++ text) = .ok (found text))
    (hfirst : RunsOutInside start first)
    (hsecond : RunsOutInside (fun text => resume (found text)) second) :
    RunsOutInside (fun text => start text >>= resume) (first ++ second) :=
  .append (fun text => bind_of_eq_ok (hread text) resume) (hfirst.bind resume) hsecond

/-- Blanks in front of a piece do not matter to a reader that skips them. -/
theorem RunsOutInside.blank_append {blank : List Char} (hblank : Blank blank)
    (hskips : ∀ {blank}, Blank blank → ∀ text, read (blank ++ text) = read text)
    (hend : RunsOut (read [])) (hpiece : RunsOutInside read piece) :
    RunsOutInside read (blank ++ piece) := by
  refine .append (hskips hblank) ?_ hpiece
  intro cut hcut _
  have hcutBlank : Blank cut := fun c hc => hblank c (hcut.subset hc)
  have hread := hskips hcutBlank []
  rw [List.append_nil] at hread
  rwa [hread]

theorem RunsOutInside.blank_append_singleton {blank : List Char} (hblank : Blank blank)
    (hskips : ∀ {blank}, Blank blank → ∀ text, read (blank ++ text) = read text)
    (hend : RunsOut (read [])) (c : Char) : RunsOutInside read (blank ++ [c]) :=
  .blank_append hblank hskips hend (.singleton hend)

theorem runsOutInside_readWord (word : List Char) : RunsOutInside (readWord word) word := by
  induction word with
  | nil => exact runsOutInside_nil
  | cons c word ih =>
      refine .cons (fun text => ?_) ⟨.endOfValue, rfl, rfl⟩ ih
      rw [readWord, if_pos rfl]

theorem utf8Size_of_hexDigit {c : Char} {n : Nat} (hdigit : HexDigit c n) : c.utf8Size = 1 := by
  have hlt := toNat_lt_of_hexValue? (hexValue?_eq_some_iff.mpr hdigit)
  rw [Char.utf8Size_eq_one_iff]
  exact Nat.le_of_lt (Nat.lt_trans hlt (by decide))

theorem runsOutInside_readHex {digits : List Char} {unit : Nat} (hunit : CodeUnit digits unit) :
    RunsOutInside readHex digits := by
  cases hunit with
  | @mk a b c d i j k l ha hb hc hd =>
      intro cut hcut hne
      obtain ⟨missing, hmissing⟩ := hcut
      have hbytes : byteLength cut + byteLength missing = 4 := by
        rw [← byteLength_append, hmissing]
        simp [utf8Size_of_hexDigit ha, utf8Size_of_hexDigit hb, utf8Size_of_hexDigit hc,
          utf8Size_of_hexDigit hd]
      have hpos : 0 < byteLength missing := by
        cases missing with
        | nil => exact absurd (by rw [← hmissing, List.append_nil]) hne
        | cons e missing =>
            rw [byteLength_cons]
            exact Nat.add_pos_left e.utf8Size_pos _
      have hlength : cut.length ≤ 4 := Nat.le_trans (length_le_byteLength cut) (by omega)
      refine ⟨.endOfString, rfl, ?_⟩
      unfold readHex
      rw [List.take_of_length_le hlength, if_pos (by omega)]

theorem runsOutInside_readTrailing (high : Nat) {digits : List Char} {low : Nat}
    (hunit : CodeUnit digits low) : RunsOutInside (readTrailing high) ('\\' :: 'u' :: digits) := by
  apply RunsOutInside.cons (fun _ => rfl) ⟨.endOfString, rfl, rfl⟩
  apply RunsOutInside.cons (fun _ => rfl) ⟨.endOfString, rfl, rfl⟩
  apply (runsOutInside_readHex hunit).of_error
  intro text stop hstop
  simp [readTrailing, hstop]

theorem runsOutInside_readEscape {escape : List Char} {c : Char} (hescape : Escape escape c) :
    RunsOutInside readEscape escape := by
  have hcodeUnits : ∀ text, readEscape ('u' :: text) = readCodeUnits text := by
    intro text
    rw [readEscape, if_pos rfl]
  have herror : ∀ text stop, readHex text = .error stop → readCodeUnits text = .error stop := by
    intro text stop hstop
    rw [readCodeUnits, hstop]
  cases hescape with
  | letter => exact .singleton ⟨.endOfString, rfl, rfl⟩
  | unit hunit =>
      apply RunsOutInside.cons hcodeUnits ⟨.endOfString, rfl, rfl⟩
      exact (runsOutInside_readHex hunit).of_error herror
  | @pair leading trailing high low _ hleading hhigh htrailing hlow hc =>
      have hnot : ¬isTrailing high = true := by
        rw [isTrailing_eq_true_iff]
        omega
      apply RunsOutInside.cons hcodeUnits ⟨.endOfString, rfl, rfl⟩
      refine .append (fun text => ?_) ((runsOutInside_readHex hleading).of_error herror)
        (runsOutInside_readTrailing high htrailing)
      rw [readCodeUnits, readHex_append hleading]
      simp only [if_neg hnot, if_pos (isLeading_eq_true_iff.mpr hhigh)]

theorem readString_of_readEscape_error {seen text : List Char} {stop : Stop}
    (hescape : readEscape text = .error stop) :
    readString seen ('\\' :: text) = .error stop := by
  rw [readString]
  split
  · simp_all
  · simp_all

theorem runsOutInside_readString {inside meant : List Char} (hinside : Inside inside meant)
    (seen : List Char) : RunsOutInside (readString seen) (inside ++ ['"']) := by
  have hend : ∀ seen, RunsOut (readString seen []) :=
    fun seen => ⟨.endOfString, rfl, by rw [readString]⟩
  induction hinside generalizing seen with
  | nil => exact .singleton (hend seen)
  | plain hquote hbackslash hcontrol hrest ih =>
      exact .cons (fun _ => Json.readString_plain hquote hbackslash (by omega)) (hend seen) (ih _)
  | @escape escape c text meant hescape hrest ih =>
      rw [List.cons_append, List.append_assoc]
      apply RunsOutInside.cons (fun _ => rfl) (hend seen)
      refine .append (fun rest => ?_) ?_ (ih (c :: seen))
      · exact Json.readString_backslash (readEscape_append hescape rest)
      · apply (runsOutInside_readEscape hescape).of_error
        exact fun text stop => readString_of_readEscape_error

theorem runsOutInside_readName {name : List Char} {format : OutputFormat}
    (hname : Quoted ('"' :: name) format.name) : RunsOutInside OutputFormat.readName name := by
  cases hname with
  | mk hinside =>
      apply (runsOutInside_readString hinside []).of_error
      intro text stop hstop
      rw [OutputFormat.readName, hstop]

theorem runsOutInside_readColon {blank : List Char} (hblank : Blank blank) :
    RunsOutInside readColon (blank ++ [':']) := by
  refine .blank_append_singleton hblank ?_ ⟨.endOfObject, rfl, rfl⟩ ':'
  intro blank hblank text
  rw [readColon, skipSpacing_append hblank, ← readColon]

theorem readColon_append_colon {blank : List Char} (hblank : Blank blank) (rest : List Char) :
    readColon ((blank ++ [':']) ++ rest) = .ok rest := by
  simpa using readColon_append hblank rest

theorem runsOutInside_readNull {blank : List Char} (hblank : Blank blank) :
    RunsOutInside readNull (blank ++ ['n', 'u', 'l', 'l']) := by
  have hend : RunsOut (readNull []) := ⟨.endOfValue, rfl, rfl⟩
  refine .blank_append hblank ?_ hend (.cons (fun _ => rfl) hend (runsOutInside_readWord _))
  intro blank hblank text
  rw [readNull, skipSpacing_append hblank, ← readNull]

theorem runsOutInside_closeFormat {blank : List Char} (hblank : Blank blank) :
    RunsOutInside closeFormat (blank ++ ['}']) := by
  refine .blank_append_singleton hblank ?_ ⟨.endOfObject, rfl, rfl⟩ '}'
  intro blank hblank text
  rw [closeFormat, skipSpacing_append hblank, ← closeFormat]

theorem runsOutInside_readFormatObject {object : List Char} {format : OutputFormat}
    (hobject : Output ('{' :: object) (some format)) :
    RunsOutInside readFormatObject object := by
  cases hobject with
  | name hname => cases hname
  | @member name _ first second third last hname hfirst hsecond hthird hlast =>
      obtain ⟨name, rfl⟩ : ∃ inner, name = '"' :: inner := by
        cases hname with
        | mk => exact ⟨_, rfl⟩
      have hpiece : first ++ '"' :: name ++ second ++
            ':' :: (third ++ ['n', 'u', 'l', 'l'] ++ last ++ ['}']) =
          first ++ '"' :: (name ++ ((second ++ [':']) ++
            ((third ++ ['n', 'u', 'l', 'l']) ++ ((last ++ ['}']) ++ [])))) := by
        simp
      have hnull : ∀ rest, readNull ((third ++ ['n', 'u', 'l', 'l']) ++ rest) = .ok rest := by
        simpa using readNull_append hthird
      have hclose : ∀ rest, closeFormat ((last ++ ['}']) ++ rest) = .ok rest := by
        simpa using closeFormat_append hlast
      have hend : RunsOut (readFormatObject []) := ⟨.endOfObject, rfl, rfl⟩
      rw [hpiece]
      refine .blank_append hfirst ?_ hend ?_
      · intro blank hblank text
        rw [readFormatObject, skipSpacing_append hblank, ← readFormatObject]
      · apply RunsOutInside.cons (fun _ => rfl) hend
        apply RunsOutInside.bind_append (readName_append hname) (runsOutInside_readName hname)
        apply RunsOutInside.bind_append (readColon_append_colon hsecond)
          (runsOutInside_readColon hsecond)
        apply RunsOutInside.bind_append hnull (runsOutInside_readNull hthird)
        apply RunsOutInside.bind_append hclose (runsOutInside_closeFormat hlast)
        exact runsOutInside_nil

theorem runsOutInside_readOutput {output : List Char} {value : Option OutputFormat}
    (houtput : Output output value) : RunsOutInside readOutput output := by
  have hshape := houtput
  have hend : RunsOut (readOutput []) := ⟨.endOfValue, rfl, rfl⟩
  cases houtput with
  | null => exact .cons (fun _ => rfl) hend ((runsOutInside_readWord _).bind _)
  | name hname =>
      cases hname with
      | mk hinside =>
          exact .cons (fun _ => rfl) hend ((runsOutInside_readName (.mk hinside)).bind _)
  | member => exact .cons (fun _ => rfl) hend ((runsOutInside_readFormatObject hshape).bind _)

theorem runsOutInside_readPretty {pretty : List Char} {value : Option Bool}
    (hpretty : Pretty pretty value) : RunsOutInside readPretty pretty := by
  have hend : RunsOut (readPretty []) := ⟨.endOfValue, rfl, rfl⟩
  cases hpretty with
  | null => exact .cons (fun _ => rfl) hend ((runsOutInside_readWord _).bind _)
  | yes => exact .cons (fun _ => rfl) hend ((runsOutInside_readWord _).bind _)
  | no => exact .cons (fun _ => rfl) hend ((runsOutInside_readWord _).bind _)

/-! ## Members -/

theorem OptionName.ofName?_name (option : OptionName) :
    OptionName.ofName? option.name = some option := by
  cases option <;> decide

namespace Members

/-- Reads on behind a comma between members. -/
def readNext (members : Members) (text : List Char) : Except Stop (Members × List Char) :=
  match skipSpacing text with
  | [] => .error ⟨.endOfValue, [], 0⟩
  | '"' :: rest => members.read rest
  | '}' :: rest => .error ⟨.trailingComma, '}' :: rest, 1⟩
  | rest => .error ⟨.keyNotString, rest, 1⟩

/-- Reads on behind a member. -/
def readMore (members : Members) (text : List Char) : Except Stop (Members × List Char) :=
  match skipSpacing text with
  | [] => .error ⟨.endOfObject, [], 0⟩
  | '}' :: rest => .ok (members, rest)
  | ',' :: rest => members.readNext rest
  | rest => .error ⟨.expectedCommaOrBrace, rest, 1⟩

theorem read_eq_bind (members : Members) (text : List Char) :
    members.read text =
      members.readOne text >>= fun (members', rest) => members'.readMore rest := by
  rw [read]
  split
  · rename_i hone
    rw [hone]
    rfl
  · rename_i hone
    rw [hone]
    rfl

theorem runsOutInside_readValue {value before : List Char} {setting : Setting}
    (hvalue : Value value setting) (hbefore : Blank before) (members : Members) :
    RunsOutInside (members.readValue setting.option) (before ++ value) := by
  cases hvalue with
  | output houtput =>
      have hblank : RunsOutInside readOutput (before ++ value) :=
        .blank_append hbefore readOutput_blank_append ⟨.endOfValue, rfl, rfl⟩
          (runsOutInside_readOutput houtput)
      apply hblank.of_error
      intro text stop hstop
      simp only [readValue, Setting.option, hstop]
  | pretty hpretty =>
      have hblank : RunsOutInside readPretty (before ++ value) :=
        .blank_append hbefore readPretty_blank_append ⟨.endOfValue, rfl, rfl⟩
          (runsOutInside_readPretty hpretty)
      apply hblank.of_error
      intro text stop hstop
      simp only [readValue, Setting.option, hstop]

theorem runsOutInside_readOne {members : Members} {member : List Char} {setting : Setting}
    (hmember : Member ('"' :: member) setting) (hfresh : members.has setting.option = false) :
    RunsOutInside members.readOne member := by
  generalize hpiece : '"' :: member = piece at hmember
  cases hmember with
  | @mk name before after value _ hname hbefore hafter hvalue =>
      cases hname with
      | @mk inside _ hinside =>
          have hmember : member = (inside ++ ['"']) ++ ((before ++ [':']) ++ (after ++ value)) := by
            simpa using hpiece
          have hname : ∀ rest, members.readOne ((inside ++ ['"']) ++ rest) =
              readColon rest >>= members.readValue setting.option := by
            intro rest
            rw [List.append_assoc, List.singleton_append, readOne, readString_append hinside]
            simp only [List.reverse_nil, List.nil_append, String.ofList_toList,
              OptionName.ofName?_name, hfresh]
            cases readColon rest <;> rfl
          rw [hmember]
          apply RunsOutInside.append hname
          · apply (runsOutInside_readString hinside []).of_error
            intro text stop hstop
            rw [readOne, hstop]
          · exact .bind_append (readColon_append_colon hbefore) (runsOutInside_readColon hbefore)
              (runsOutInside_readValue hvalue hafter members)

theorem readMore_blank_append {blank : List Char} (hblank : Blank blank) (members : Members)
    (text : List Char) : members.readMore (blank ++ text) = members.readMore text := by
  rw [readMore, skipSpacing_append hblank, ← readMore]

theorem readNext_blank_append {blank : List Char} (hblank : Blank blank) (members : Members)
    (text : List Char) : members.readNext (blank ++ text) = members.readNext text := by
  rw [readNext, skipSpacing_append hblank, ← readNext]

theorem runsOutInside_read {row after : List Char} {settings : List Setting}
    (hrow : MemberRow row settings) (hafter : Blank after) {members members' : Members}
    (htakes : members.Takes settings members') {inner : List Char} (hinner : row = '"' :: inner) :
    RunsOutInside members.read (inner ++ (after ++ ['}'])) := by
  have hread : ∀ members : Members, members.read = fun text => members.readOne text >>=
      fun (members', rest) => members'.readMore rest :=
    fun members => funext members.read_eq_bind
  have hmore : ∀ members : Members, RunsOut (members.readMore []) :=
    fun _ => ⟨.endOfObject, rfl, rfl⟩
  have hnext : ∀ members : Members, RunsOut (members.readNext []) :=
    fun _ => ⟨.endOfValue, rfl, rfl⟩
  induction hrow generalizing members inner with
  | one hmember =>
      obtain ⟨hfresh, -⟩ := takes_cons_iff.mp htakes
      subst hinner
      rw [hread]
      apply RunsOutInside.bind_append (readOne_append hmember hfresh)
        (runsOutInside_readOne hmember hfresh)
      exact .blank_append_singleton hafter (readMore_blank_append · _) (hmore _) '}'
  | @cons member before between row setting settings hmember hbefore hbetween hrow ih =>
      obtain ⟨hfresh, htakes⟩ := takes_cons_iff.mp htakes
      obtain ⟨first, rfl⟩ := exists_cons_of_member hmember
      obtain ⟨others, rfl⟩ := exists_cons_of_memberRow hrow
      have hpiece : inner ++ (after ++ ['}']) =
          first ++ (before ++ ',' :: (between ++ '"' :: (others ++ (after ++ ['}'])))) := by
        obtain rfl := (List.cons.inj hinner).2
        simp
      rw [hpiece, hread]
      apply RunsOutInside.bind_append (readOne_append hmember hfresh)
        (runsOutInside_readOne hmember hfresh)
      apply RunsOutInside.blank_append hbefore (readMore_blank_append · _) (hmore _)
      apply RunsOutInside.cons (fun _ => rfl) (hmore _)
      apply RunsOutInside.blank_append hbetween (readNext_blank_append · _) (hnext _)
      exact .cons (fun _ => rfl) (hnext _) (ih htakes rfl)

end Members

theorem runsOutInside_readObject {object : List Char} {options : Options}
    (hobject : Holder ('{' :: object) options) : RunsOutInside readObject object := by
  have hskips : ∀ {blank}, Blank blank → ∀ text, readObject (blank ++ text) = readObject text := by
    intro blank hblank text
    rw [readObject, skipSpacing_append hblank, ← readObject]
  have hend : RunsOut (readObject []) := ⟨.endOfObject, rfl, rfl⟩
  cases hobject with
  | empty hblank => exact .blank_append_singleton hblank hskips hend '}'
  | object hbefore hrow hafter hnodup hsets =>
      obtain ⟨inner, rfl⟩ := Members.exists_cons_of_memberRow hrow
      simp only [List.append_assoc, List.cons_append]
      apply RunsOutInside.blank_append hbefore hskips hend
      apply RunsOutInside.cons (fun _ => rfl) hend
      exact (Members.runsOutInside_read hrow hafter (Members.none_takes hnodup) rfl).bind _

theorem runsOutInside_closeList {blank : List Char} (hblank : Blank blank) :
    RunsOutInside closeList (blank ++ [']']) := by
  refine .blank_append_singleton hblank ?_ ⟨.endOfList, rfl, rfl⟩ ']'
  intro blank hblank text
  rw [closeList, skipSpacing_append hblank, ← closeList]

/-- The comma is read up to the first character of the second value. -/
theorem runsOutInside_readComma {blank between : List Char} (hblank : Blank blank)
    (hbetween : Blank between) (c : Char) :
    RunsOutInside readComma (blank ++ ',' :: (between ++ [c])) := by
  have hend : RunsOut (readComma []) := ⟨.endOfList, rfl, rfl⟩
  refine .blank_append hblank ?_ hend ?_
  · intro blank hblank text
    rw [readComma, skipSpacing_append hblank, ← readComma]
  · apply RunsOutInside.cons (fun _ => rfl) hend
    refine .blank_append_singleton hbetween ?_ ⟨.endOfValue, rfl, rfl⟩ c
    intro blank hblank text
    simp only [readComma, skipSpacing_cons (show isSpacing ',' = false by decide),
      skipSpacing_append hblank]

/-- Reads the two values of an array and the bracket that closes it. -/
def readItems (text : List Char) : Except Stop (Options × List Char) := do
  let (output, rest) ← readOutput text
  let rest ← readComma rest
  let (pretty, rest) ← readPretty rest
  let rest ← closeList rest
  return (⟨output, pretty⟩, rest)

theorem readList_cons {c : Char} (hc : isSpacing c = false) (hclose : c ≠ ']')
    (text : List Char) : readList (c :: text) = readItems (c :: text) := by
  rw [readList, skipSpacing_cons hc]
  split
  · contradiction
  · simp_all
  · rfl

theorem runsOutInside_readItems {output pretty second third last : List Char} {options : Options}
    (houtput : Output output options.output) (hpretty : Pretty pretty options.pretty)
    (hsecond : Blank second) (hthird : Blank third) (hlast : Blank last) :
    RunsOutInside readItems
      (output ++ second ++ ',' :: (third ++ pretty ++ last ++ [']'])) := by
  have hprettyInside := runsOutInside_readPretty hpretty
  -- The first character of the second value is already looked at behind the comma.
  obtain ⟨c, pretty, rfl, hc, hclose⟩ := exists_cons_of_pretty hpretty
  have hpiece : output ++ second ++ ',' :: (third ++ c :: pretty ++ last ++ [']']) =
      output ++ ((second ++ ',' :: (third ++ [c])) ++ (pretty ++ ((last ++ [']']) ++ []))) := by
    simp
  have hcomma : ∀ rest, readComma ((second ++ ',' :: (third ++ [c])) ++ rest) =
      .ok (c :: rest) := by
    simpa using readComma_append hsecond hthird hc hclose
  have hdrawn : ∀ rest, (fun text => readPretty (c :: text)) (pretty ++ rest) =
      .ok (options.pretty, rest) :=
    readPretty_append hpretty
  have hlist : ∀ rest, closeList ((last ++ [']']) ++ rest) = .ok rest := by
    simpa using closeList_append hlast
  rw [hpiece]
  apply RunsOutInside.bind_append (readOutput_append houtput) (runsOutInside_readOutput houtput)
  apply RunsOutInside.bind_append hcomma (runsOutInside_readComma hsecond hthird c)
  apply RunsOutInside.bind_append hdrawn hprettyInside.tail
  apply RunsOutInside.bind_append hlist (runsOutInside_closeList hlast)
  exact runsOutInside_nil

theorem runsOutInside_readList {array : List Char} {options : Options}
    (harray : Holder ('[' :: array) options) : RunsOutInside readList array := by
  cases harray with
  | @array output pretty first second third last _ houtput hpretty hfirst hsecond hthird hlast =>
      have hitems := runsOutInside_readItems houtput hpretty hsecond hthird hlast
      obtain ⟨c, output, rfl, hc, hclose⟩ := exists_cons_of_output houtput
      have hpiece : first ++ c :: output ++ second ++ ',' :: (third ++ pretty ++ last ++ [']']) =
          first ++ c :: (output ++ second ++ ',' :: (third ++ pretty ++ last ++ [']'])) := by
        simp
      have hend : RunsOut (readList []) := ⟨.endOfList, rfl, rfl⟩
      rw [hpiece]
      refine .blank_append hfirst ?_ hend ?_
      · intro blank hblank text
        rw [readList, skipSpacing_append hblank, ← readList]
      · exact .cons (readList_cons hc hclose) hend hitems.tail

theorem runsOutInside_readOptions {holder : List Char} {options : Options}
    (hholder : Holder holder options) : RunsOutInside readOptions holder := by
  have hshape := hholder
  have hend : RunsOut (readOptions []) := ⟨.endOfValue, rfl, rfl⟩
  cases hholder with
  | empty => exact .cons (fun _ => rfl) hend (runsOutInside_readObject hshape)
  | object => exact .cons (fun _ => rfl) hend (runsOutInside_readObject hshape)
  | array => exact .cons (fun _ => rfl) hend (runsOutInside_readList hshape)

/-- The beginning of a configuration is one with the same options if only blanks are cut off,
and otherwise it ends where something had yet to come. -/
theorem Configuration.beginning {beginning rest : List Char} {options : Options}
    (hwhole : Configuration (beginning ++ rest) options) :
    (Configuration beginning options ∧ Blank rest) ∨ RunsOut (readWhole beginning) := by
  generalize htext : beginning ++ rest = text at hwhole
  cases hwhole with
  | @mk before holder after _ hbefore hholder hafter =>
      have hinside : RunsOutInside readOptions (before ++ holder) :=
        .blank_append hbefore readOptions_blank_append ⟨.endOfValue, rfl, rfl⟩
          (runsOutInside_readOptions hholder)
      rcases List.append_eq_append_iff.mp htext with
        ⟨missing, hheld, hrest⟩ | ⟨more, hbeginning, hblank⟩
      · cases missing with
        | nil =>
            left
            have halone := Configuration.mk hbefore hholder (List.forall_mem_nil _)
            rw [List.append_nil] at hheld
            rw [List.append_nil, hheld] at halone
            rw [List.nil_append] at hrest
            exact ⟨halone, hrest ▸ hafter⟩
        | cons c missing =>
            right
            apply hinside.bind _ beginning ⟨c :: missing, hheld.symm⟩
            rw [hheld]
            simp
      · left
        obtain ⟨hmore, hrest⟩ := List.forall_mem_append.mp (hblank ▸ hafter)
        exact ⟨hbeginning ▸ .mk hbefore hholder hmore, hrest⟩

theorem Options.ofText_eq_ok_iff {content : String} {options : Options} :
    Options.ofText content = .ok options ↔ Configuration content.toList options := by
  rw [← readWhole_eq_ok_iff, Options.ofText, Options.parse]
  cases readWhole content.toList with
  | ok found => simp
  | error stop => simp

/-- A beginning of a text that is accepted is either accepted with the same options, and then
only blanks are cut off, or refused as incomplete, at the place where it ends. -/
theorem Options.ofText_beginning {beginning rest : String} {options : Options}
    (haccepted : Options.ofText (beginning ++ rest) = .ok options) :
    (Options.ofText beginning = .ok options ∧ Blank rest.toList) ∨
      ∃ complaint : Complaint, Options.ofText beginning = .error (.invalid complaint) ∧
        complaint.problem.toClass = .incomplete ∧
        complaint.position = .endOf beginning.toList := by
  rw [Options.ofText_eq_ok_iff, String.toList_append] at haccepted
  rcases haccepted.beginning with ⟨hbeginning, hrest⟩ | ⟨problem, hproblem, hstop⟩
  · left
    exact ⟨Options.ofText_eq_ok_iff.mpr hbeginning, hrest⟩
  · right
    refine ⟨.ofStop beginning.toList ⟨problem, [], 0⟩, ?_, hproblem, ?_⟩
    · rw [Options.ofText, Options.parse, hstop]
    · exact Position.ofOffset_byteLength beginning.toList

theorem Options.ofText_beginning_of_cut_escape :
    Options.ofText ("\x7b\n \"o\\u00" ++ "75tput\": \x7b\"json\": null\x7d \x7d\n") =
        .ok ⟨some .json, none⟩ ∧
      ((Options.ofText "\x7b\n \"o\\u00" = .ok ⟨some .json, none⟩ ∧
          Blank "75tput\": \x7b\"json\": null\x7d \x7d\n".toList) ∨
        ∃ complaint : Complaint,
          Options.ofText "\x7b\n \"o\\u00" = .error (.invalid complaint) ∧
            complaint.problem.toClass = .incomplete ∧
            complaint.position = .endOf "\x7b\n \"o\\u00".toList) := by
  have haccepted :
      Options.ofText ("\x7b\n \"o\\u00" ++ "75tput\": \x7b\"json\": null\x7d \x7d\n") =
        .ok ⟨some .json, none⟩ := by
    decide +kernel
  exact ⟨haccepted, Options.ofText_beginning haccepted⟩

example : Options.ofText "[null,\n null" = .error (.invalid ⟨.endOfList, 2, 5⟩) := by
  decide +kernel

end LoxLexer
