import LoxLexer.Options.File
import LoxLexer.Proofs.Options.Quotes

/-!
# Configurations are read by their grammar

The readers of values, members and whole configurations, each in both directions: a piece of
its class is read in front of any rest, and whatever is read is such a piece.  Members are
read with a record of those that came before, which keeps any option from being set twice
(`Members.Takes`).

So exactly the texts of the grammar are accepted, each with the options that it sets
(`Options.ofText_followsGrammar`).
-/

namespace LoxLexer

open LoxLexer.Configuration

variable {text rest : List Char}

theorem readName_append {name : List Char} {format : OutputFormat}
    (hname : Quoted ('"' :: name) format.name) (rest : List Char) :
    OutputFormat.readName (name ++ rest) = .ok (format, rest) := by
  cases hname with
  | mk hinside =>
      have hformat : OutputFormat.ofName? format.name = some format := by
        cases format <;> decide
      rw [List.append_assoc, OutputFormat.readName, List.cons_append, List.nil_append,
        readString_append hinside]
      simp [hformat]

theorem exists_quoted_of_readName {format : OutputFormat}
    (hread : OutputFormat.readName text = .ok (format, rest)) :
    ∃ name, Quoted ('"' :: name) format.name ∧ text = name ++ rest := by
  unfold OutputFormat.readName at hread
  split at hread
  · rename_i meant remaining hstring
    obtain ⟨inside, meant, hinside, rfl, rfl⟩ := exists_inside_of_readString hstring
    split at hread
    · rename_i found hfound
      cases hread
      have hname := List.find?_some hfound
      simp only [beq_iff_eq] at hname
      refine ⟨inside ++ ['"'], .mk ?_, by simp⟩
      rw [hname]
      simpa using hinside
    · contradiction
  · contradiction

theorem readColon_append {blank : List Char} (hblank : Blank blank) (rest : List Char) :
    readColon (blank ++ ':' :: rest) = .ok rest := by
  simp [readColon, skipSpacing_append_cons hblank (show isSpacing ':' = false by decide)]

theorem exists_blank_of_readColon (hread : readColon text = .ok rest) :
    ∃ blank, Blank blank ∧ text = blank ++ ':' :: rest := by
  unfold readColon at hread
  split at hread
  · contradiction
  · rename_i hskip
    cases hread
    exact exists_blank_of_skipSpacing hskip
  · contradiction

theorem readNull_append {blank : List Char} (hblank : Blank blank) (rest : List Char) :
    readNull (blank ++ 'n' :: 'u' :: 'l' :: 'l' :: rest) = .ok rest := by
  simp [readNull, skipSpacing_append_cons hblank (show isSpacing 'n' = false by decide),
    readWord_eq_ok_iff]

theorem exists_blank_of_readNull (hread : readNull text = .ok rest) :
    ∃ blank, Blank blank ∧ text = blank ++ 'n' :: 'u' :: 'l' :: 'l' :: rest := by
  unfold readNull at hread
  split at hread
  · contradiction
  · rename_i hskip
    obtain rfl := readWord_eq_ok_iff.mp hread
    exact exists_blank_of_skipSpacing hskip
  · contradiction

theorem closeFormat_append {blank : List Char} (hblank : Blank blank) (rest : List Char) :
    closeFormat (blank ++ '}' :: rest) = .ok rest := by
  simp [closeFormat, skipSpacing_append_cons hblank (show isSpacing '}' = false by decide)]

theorem exists_blank_of_closeFormat (hread : closeFormat text = .ok rest) :
    ∃ blank, Blank blank ∧ text = blank ++ '}' :: rest := by
  unfold closeFormat at hread
  split at hread
  · contradiction
  · rename_i hskip
    cases hread
    exact exists_blank_of_skipSpacing hskip
  · contradiction

theorem readFormatObject_append {object : List Char} {format : OutputFormat}
    (hobject : Output ('{' :: object) (some format)) (rest : List Char) :
    readFormatObject (object ++ rest) = .ok (format, rest) := by
  cases hobject with
  | name hname => cases hname
  | member hname hfirst hsecond hthird hlast =>
      cases hname with
      | mk hinside =>
          have hread := readName_append (.mk hinside)
          simp only [List.append_assoc, List.cons_append, List.nil_append] at hread ⊢
          rw [readFormatObject,
            skipSpacing_append_cons hfirst (show isSpacing '"' = false by decide)]
          simp only [bind_of_eq_ok (hread _), bind_of_eq_ok (readColon_append hsecond _),
            bind_of_eq_ok (readNull_append hthird _), bind_of_eq_ok (closeFormat_append hlast _)]
          rfl

theorem exists_output_of_readFormatObject {format : OutputFormat}
    (hread : readFormatObject text = .ok (format, rest)) :
    ∃ object, Output ('{' :: object) (some format) ∧ text = object ++ rest := by
  unfold readFormatObject at hread
  split at hread
  · contradiction
  · contradiction
  · rename_i afterQuote hskip
    obtain ⟨⟨found, afterName⟩, hname, hread⟩ := exists_of_bind_eq_ok hread
    obtain ⟨afterColon, hcolon, hread⟩ := exists_of_bind_eq_ok hread
    obtain ⟨afterNull, hnull, hread⟩ := exists_of_bind_eq_ok hread
    obtain ⟨remaining, hclose, hread⟩ := exists_of_bind_eq_ok hread
    cases hread
    obtain ⟨first, hfirst, rfl⟩ := exists_blank_of_skipSpacing hskip
    obtain ⟨name, hquoted, rfl⟩ := exists_quoted_of_readName hname
    obtain ⟨second, hsecond, rfl⟩ := exists_blank_of_readColon hcolon
    obtain ⟨third, hthird, rfl⟩ := exists_blank_of_readNull hnull
    obtain ⟨last, hlast, rfl⟩ := exists_blank_of_closeFormat hclose
    exact ⟨_, .member hquoted hfirst hsecond hthird hlast, by simp⟩
  · contradiction

/-- A word is read where its first letter stands, and gives one value. -/
theorem exists_blank_of_readWord {α : Type} {c : Char} {word remaining : List Char}
    {value found : α} (hskip : skipSpacing text = c :: remaining)
    (hread : (readWord word remaining >>= fun rest => pure (value, rest)) = .ok (found, rest)) :
    value = found ∧ ∃ blank, Blank blank ∧ text = blank ++ (c :: word ++ rest) := by
  obtain ⟨blank, hblank, rfl⟩ := exists_blank_of_skipSpacing hskip
  obtain ⟨afterWord, hword, hrest⟩ := exists_of_bind_eq_ok hread
  cases hrest
  rw [readWord_eq_ok_iff.mp hword]
  exact ⟨rfl, blank, hblank, rfl⟩

theorem readOutput_blank_append {blank : List Char} (hblank : Blank blank) (text : List Char) :
    readOutput (blank ++ text) = readOutput text := by
  unfold readOutput
  rw [skipSpacing_append hblank]

theorem readOutput_append {output : List Char} {value : Option OutputFormat}
    (houtput : Output output value) (rest : List Char) :
    readOutput (output ++ rest) = .ok (value, rest) := by
  have hshape := houtput
  cases houtput with
  | null =>
      rw [List.cons_append, readOutput, skipSpacing_cons (by decide)]
      exact bind_of_eq_ok (readWord_eq_ok_iff.mpr rfl) _
  | name hname =>
      cases hname with
      | mk hinside =>
          rw [List.cons_append, readOutput, skipSpacing_cons (by decide)]
          exact bind_of_eq_ok (readName_append (.mk hinside) rest) _
  | member =>
      rw [List.cons_append, readOutput, skipSpacing_cons (by decide)]
      exact bind_of_eq_ok (readFormatObject_append hshape rest) _

theorem exists_output_of_readOutput {value : Option OutputFormat}
    (hread : readOutput text = .ok (value, rest)) :
    ∃ blank output, Blank blank ∧ Output output value ∧ text = blank ++ (output ++ rest) := by
  unfold readOutput at hread
  split at hread
  · contradiction
  · rename_i hskip
    obtain ⟨rfl, blank, hblank, rfl⟩ := exists_blank_of_readWord hskip hread
    exact ⟨blank, _, hblank, .null, rfl⟩
  · rename_i remaining hskip
    obtain ⟨blank, hblank, rfl⟩ := exists_blank_of_skipSpacing hskip
    obtain ⟨⟨format, afterName⟩, hname, hread⟩ := exists_of_bind_eq_ok hread
    cases hread
    obtain ⟨name, hquoted, rfl⟩ := exists_quoted_of_readName hname
    exact ⟨blank, _, hblank, .name hquoted, rfl⟩
  · rename_i remaining hskip
    obtain ⟨blank, hblank, rfl⟩ := exists_blank_of_skipSpacing hskip
    obtain ⟨⟨format, afterObject⟩, hobject, hread⟩ := exists_of_bind_eq_ok hread
    cases hread
    obtain ⟨object, houtput, rfl⟩ := exists_output_of_readFormatObject hobject
    exact ⟨blank, _, hblank, houtput, rfl⟩
  · contradiction

theorem readPretty_blank_append {blank : List Char} (hblank : Blank blank) (text : List Char) :
    readPretty (blank ++ text) = readPretty text := by
  unfold readPretty
  rw [skipSpacing_append hblank]

theorem readPretty_append {pretty : List Char} {value : Option Bool}
    (hpretty : Pretty pretty value) (rest : List Char) :
    readPretty (pretty ++ rest) = .ok (value, rest) := by
  cases hpretty with
  | null =>
      rw [List.cons_append, readPretty, skipSpacing_cons (by decide)]
      exact bind_of_eq_ok (readWord_eq_ok_iff.mpr rfl) _
  | yes =>
      rw [List.cons_append, readPretty, skipSpacing_cons (by decide)]
      exact bind_of_eq_ok (readWord_eq_ok_iff.mpr rfl) _
  | no =>
      rw [List.cons_append, readPretty, skipSpacing_cons (by decide)]
      exact bind_of_eq_ok (readWord_eq_ok_iff.mpr rfl) _

theorem exists_pretty_of_readPretty {value : Option Bool}
    (hread : readPretty text = .ok (value, rest)) :
    ∃ blank pretty, Blank blank ∧ Pretty pretty value ∧ text = blank ++ (pretty ++ rest) := by
  unfold readPretty at hread
  split at hread
  · contradiction
  · rename_i hskip
    obtain ⟨rfl, blank, hblank, rfl⟩ := exists_blank_of_readWord hskip hread
    exact ⟨blank, _, hblank, .null, rfl⟩
  · rename_i hskip
    obtain ⟨rfl, blank, hblank, rfl⟩ := exists_blank_of_readWord hskip hread
    exact ⟨blank, _, hblank, .yes, rfl⟩
  · rename_i hskip
    obtain ⟨rfl, blank, hblank, rfl⟩ := exists_blank_of_readWord hskip hread
    exact ⟨blank, _, hblank, .no, rfl⟩
  · contradiction

/-! ## Members -/

namespace Members

/-- The record with one more member. -/
def put (members : Members) : Setting → Members
  | .output value => { members with output := some value }
  | .pretty value => { members with pretty := some value }

/-- What a row of members makes of a record that has none of them yet. -/
structure Takes (members : Members) (settings : List Setting) (members' : Members) : Prop where
  fresh : ∀ setting ∈ settings, members.has setting.option = false
  nodup : (settings.map Setting.option).Nodup
  eq_foldl : members' = settings.foldl put members

theorem has_put (members : Members) (setting : Setting) (option : OptionName) :
    (members.put setting).has option = (option == setting.option || members.has option) := by
  cases setting <;> cases option <;> rfl

theorem takes_singleton {members : Members} {setting : Setting}
    (hfresh : members.has setting.option = false) :
    members.Takes [setting] (members.put setting) where
  fresh := by simpa using hfresh
  nodup := by simp
  eq_foldl := rfl

theorem takes_cons_iff {members members' : Members} {setting : Setting}
    {settings : List Setting} :
    members.Takes (setting :: settings) members' ↔
      members.has setting.option = false ∧ (members.put setting).Takes settings members' := by
  constructor
  · intro htakes
    have hnodup := List.nodup_cons.mp htakes.nodup
    refine ⟨htakes.fresh setting List.mem_cons_self, ?_, hnodup.2, htakes.eq_foldl⟩
    intro other hmem
    rw [has_put, htakes.fresh other (List.mem_cons_of_mem _ hmem), Bool.or_false,
      beq_eq_false_iff_ne]
    intro heq
    exact hnodup.1 (heq ▸ List.mem_map_of_mem hmem)
  · rintro ⟨hfresh, htakes⟩
    have hothers : ∀ other ∈ settings,
        other.option ≠ setting.option ∧ members.has other.option = false := by
      intro other hmem
      have hother := htakes.fresh other hmem
      rwa [has_put, Bool.or_eq_false_iff, beq_eq_false_iff_ne] at hother
    refine ⟨?_, ?_, htakes.eq_foldl⟩
    · intro other hmem
      rcases List.mem_cons.mp hmem with rfl | hmem
      · exact hfresh
      · exact (hothers other hmem).2
    · rw [List.map_cons, List.nodup_cons]
      refine ⟨?_, htakes.nodup⟩
      intro hmem
      obtain ⟨other, hother, heq⟩ := List.mem_map.mp hmem
      exact (hothers other hother).1 heq

theorem readValue_append {value before : List Char} {setting : Setting}
    (hvalue : Value value setting) (hbefore : Blank before) (members : Members)
    (rest : List Char) :
    members.readValue setting.option (before ++ (value ++ rest)) =
      .ok (members.put setting, rest) := by
  cases hvalue with
  | output hvalue =>
      simp only [readValue, Setting.option, readOutput_blank_append hbefore,
        readOutput_append hvalue, put]
  | pretty hvalue =>
      simp only [readValue, Setting.option, readPretty_blank_append hbefore,
        readPretty_append hvalue, put]

theorem exists_value_of_readValue {members members' : Members} {option : OptionName}
    (hread : members.readValue option text = .ok (members', rest)) :
    ∃ before value setting, Blank before ∧ Value value setting ∧ setting.option = option ∧
      members' = members.put setting ∧ text = before ++ (value ++ rest) := by
  cases option with
  | output =>
      simp only [readValue] at hread
      split at hread
      · rename_i value remaining houtput
        cases hread
        obtain ⟨blank, output, hblank, hvalue, rfl⟩ := exists_output_of_readOutput houtput
        exact ⟨blank, output, _, hblank, .output hvalue, rfl, rfl, rfl⟩
      · contradiction
  | pretty =>
      simp only [readValue] at hread
      split at hread
      · rename_i value remaining hpretty
        cases hread
        obtain ⟨blank, pretty, hblank, hvalue, rfl⟩ := exists_pretty_of_readPretty hpretty
        exact ⟨blank, pretty, _, hblank, .pretty hvalue, rfl, rfl, rfl⟩
      · contradiction

theorem readOne_append {members : Members} {member : List Char} {setting : Setting}
    (hmember : Member ('"' :: member) setting) (hfresh : members.has setting.option = false)
    (rest : List Char) :
    members.readOne (member ++ rest) = .ok (members.put setting, rest) := by
  have hoption : ∀ option : OptionName, OptionName.ofName? option.name = some option := by
    intro option
    cases option <;> decide
  generalize hpiece : '"' :: member = piece at hmember
  cases hmember with
  | mk hname hbefore hafter hvalue =>
      cases hname with
      | mk hinside =>
          simp only [List.append_assoc, List.cons_append, List.nil_append, List.cons.injEq,
            true_and] at hpiece
          subst hpiece
          simp only [List.append_assoc, List.cons_append]
          rw [readOne, readString_append hinside]
          simp [hoption, hfresh, readColon_append hbefore, readValue_append hvalue hafter]

theorem exists_member_of_readOne {members members' : Members}
    (hread : members.readOne text = .ok (members', rest)) :
    ∃ member setting, Member ('"' :: member) setting ∧ members.has setting.option = false ∧
      members' = members.put setting ∧ text = member ++ rest := by
  unfold readOne at hread
  split at hread
  · contradiction
  · rename_i name afterName hname
    split at hread
    · contradiction
    · rename_i option hoption
      split_ifs at hread with hhas
      split at hread
      · rename_i afterColon hcolon
        obtain ⟨inside, meant, hinside, rfl, rfl⟩ := exists_inside_of_readString hname
        obtain ⟨before, hbefore, rfl⟩ := exists_blank_of_readColon hcolon
        obtain ⟨after, value, setting, hafter, hvalue, rfl, rfl, rfl⟩ :=
          exists_value_of_readValue hread
        have hname := List.find?_some hoption
        simp only [beq_iff_eq] at hname
        have hquoted : Quoted ('"' :: (inside ++ ['"'])) setting.option.name := by
          refine .mk ?_
          rw [hname]
          simpa using hinside
        exact ⟨_, setting, .mk hquoted hbefore hafter hvalue, by simpa using hhas, rfl, by simp⟩
      · contradiction

theorem read_of_brace {members members' : Members} {remaining : List Char}
    (hone : members.readOne text = .ok (members', rest))
    (hskip : skipSpacing rest = '}' :: remaining) :
    members.read text = .ok (members', remaining) := by
  rw [read]
  split
  · simp_all
  · rename_i hread
    rw [hone] at hread
    cases hread
    simp only [hskip]

theorem read_of_comma {members members' : Members} {afterComma remaining : List Char}
    (hone : members.readOne text = .ok (members', rest))
    (hskip : skipSpacing rest = ',' :: afterComma)
    (hquote : skipSpacing afterComma = '"' :: remaining) :
    members.read text = members'.read remaining := by
  rw [read]
  split
  · simp_all
  · rename_i hread
    rw [hone] at hread
    cases hread
    simp only [hskip, hquote]

theorem exists_cons_of_member {member : List Char} {setting : Setting}
    (hmember : Member member setting) : ∃ inner, member = '"' :: inner := by
  cases hmember with
  | mk hname =>
      cases hname with
      | mk => exact ⟨_, rfl⟩

theorem exists_cons_of_memberRow {row : List Char} {settings : List Setting}
    (hrow : MemberRow row settings) : ∃ inner, row = '"' :: inner := by
  cases hrow with
  | one hmember => exact exists_cons_of_member hmember
  | cons hmember =>
      obtain ⟨inner, rfl⟩ := exists_cons_of_member hmember
      exact ⟨_, rfl⟩

theorem read_append {row after : List Char} {settings : List Setting}
    (hrow : MemberRow row settings) (hafter : Blank after) {members members' : Members}
    (htakes : members.Takes settings members') {inner : List Char} (hinner : row = '"' :: inner)
    (rest : List Char) :
    members.read (inner ++ (after ++ '}' :: rest)) = .ok (members', rest) := by
  induction hrow generalizing members inner with
  | one hmember =>
      obtain ⟨hfresh, hnone⟩ := takes_cons_iff.mp htakes
      obtain rfl := hnone.eq_foldl
      subst hinner
      exact read_of_brace (readOne_append hmember hfresh _)
        (skipSpacing_append_cons hafter (by decide) _)
  | @cons member before between row setting settings hmember hbefore hbetween hrow ih =>
      -- The rest of the row is read with a record that has the first member.
      obtain ⟨hfresh, htakes⟩ := takes_cons_iff.mp htakes
      obtain ⟨first, rfl⟩ := exists_cons_of_member hmember
      obtain ⟨others, rfl⟩ := exists_cons_of_memberRow hrow
      simp only [List.append_assoc, List.cons_append, List.cons.injEq, true_and] at hinner
      subst hinner
      simp only [List.append_assoc, List.cons_append]
      rw [read_of_comma (readOne_append hmember hfresh _)
        (skipSpacing_append_cons hbefore (by decide) _)
        (skipSpacing_append_cons hbetween (by decide) _)]
      exact ih htakes rfl

theorem exists_row_of_read {members members' : Members}
    (hread : members.read text = .ok (members', rest)) :
    ∃ inner after settings, MemberRow ('"' :: inner) settings ∧ Blank after ∧
      members.Takes settings members' ∧ text = inner ++ (after ++ '}' :: rest) := by
  fun_induction members.read text with
  | case3 members text members' afterOne hone remaining hskip =>
      cases hread
      obtain ⟨member, setting, hmember, hfresh, rfl, rfl⟩ := exists_member_of_readOne hone
      obtain ⟨after, hafter, rfl⟩ := exists_blank_of_skipSpacing hskip
      exact ⟨member, after, [setting], .one hmember, hafter, takes_singleton hfresh, rfl⟩
  | case5 members text members' afterOne hone afterComma hskip remaining hquote ih =>
      obtain ⟨inner, after, settings, hrow, hafter, htakes, rfl⟩ := ih hread
      obtain ⟨member, setting, hmember, hfresh, rfl, rfl⟩ := exists_member_of_readOne hone
      obtain ⟨before, hbefore, rfl⟩ := exists_blank_of_skipSpacing hskip
      obtain ⟨between, hbetween, rfl⟩ := exists_blank_of_skipSpacing hquote
      exact ⟨_, after, setting :: settings, .cons hmember hbefore hbetween hrow, hafter,
        takes_cons_iff.mpr ⟨hfresh, htakes⟩, by simp⟩
  | _ => contradiction

theorem Takes.output_eq_some_iff {members members' : Members} {settings : List Setting}
    (htakes : members.Takes settings members') {value : Option OutputFormat} :
    members'.output = some value ↔ .output value ∈ settings ∨ members.output = some value := by
  induction settings generalizing members with
  | nil =>
      obtain rfl := htakes.eq_foldl
      simp
  | cons setting settings ih =>
      obtain ⟨hfresh, hothers⟩ := takes_cons_iff.mp htakes
      rw [ih hothers]
      cases setting with
      | output first =>
          simp only [has, Setting.option, Option.isSome_eq_false_iff, Option.isNone_iff_eq_none]
            at hfresh
          simp [put, hfresh, or_comm, eq_comm]
      | pretty first => simp [put]

theorem Takes.pretty_eq_some_iff {members members' : Members} {settings : List Setting}
    (htakes : members.Takes settings members') {value : Option Bool} :
    members'.pretty = some value ↔ .pretty value ∈ settings ∨ members.pretty = some value := by
  induction settings generalizing members with
  | nil =>
      obtain rfl := htakes.eq_foldl
      simp
  | cons setting settings ih =>
      obtain ⟨hfresh, hothers⟩ := takes_cons_iff.mp htakes
      rw [ih hothers]
      cases setting with
      | output first => simp [put]
      | pretty first =>
          simp only [has, Setting.option, Option.isSome_eq_false_iff, Option.isNone_iff_eq_none]
            at hfresh
          simp [put, hfresh, or_comm, eq_comm]

theorem Takes.sets {settings : List Setting} {members : Members}
    (htakes : none.Takes settings members) : Sets settings members.options where
  output format := by
    rw [options, Option.join_eq_some_iff, htakes.output_eq_some_iff]
    simp [none]
  pretty draws := by
    rw [options, Option.join_eq_some_iff, htakes.pretty_eq_some_iff]
    simp [none]

theorem none_takes {settings : List Setting} (hnodup : (settings.map Setting.option).Nodup) :
    none.Takes settings (settings.foldl put none) where
  fresh setting _ := by cases setting <;> rfl
  nodup := hnodup
  eq_foldl := rfl

end Members

theorem Sets.unique {settings : List Setting} {options other : Options}
    (hoptions : Sets settings options) (hother : Sets settings other) : options = other := by
  have houtput : options.output = other.output :=
    Option.ext fun format => (hoptions.output format).trans (hother.output format).symm
  have hpretty : options.pretty = other.pretty :=
    Option.ext fun draws => (hoptions.pretty draws).trans (hother.pretty draws).symm
  cases options
  cases other
  simp_all

/-! ## Configurations -/

theorem readObject_append {object : List Char} {options : Options}
    (hobject : Holder ('{' :: object) options) (rest : List Char) :
    readObject (object ++ rest) = .ok (options, rest) := by
  cases hobject with
  | empty hblank =>
      rw [List.append_assoc, readObject, List.cons_append,
        skipSpacing_append_cons hblank (by decide)]
      rfl
  | object hbefore hrow hafter hnodup hsets =>
      have htakes := Members.none_takes hnodup
      obtain ⟨inner, rfl⟩ := Members.exists_cons_of_memberRow hrow
      have hread := Members.read_append hrow hafter htakes rfl rest
      obtain rfl := Sets.unique htakes.sets hsets
      simp only [List.append_assoc, List.cons_append, List.nil_append]
      rw [readObject, skipSpacing_append_cons hbefore (by decide)]
      exact bind_of_eq_ok hread _

theorem exists_holder_of_readObject {options : Options}
    (hread : readObject text = .ok (options, rest)) :
    ∃ object, Holder ('{' :: object) options ∧ text = object ++ rest := by
  unfold readObject at hread
  split at hread
  · contradiction
  · rename_i remaining hskip
    cases hread
    obtain ⟨blank, hblank, rfl⟩ := exists_blank_of_skipSpacing hskip
    exact ⟨_, .empty hblank, by simp⟩
  · rename_i remaining hskip
    obtain ⟨⟨members, afterMembers⟩, hmembers, hread⟩ := exists_of_bind_eq_ok hread
    cases hread
    obtain ⟨before, hbefore, rfl⟩ := exists_blank_of_skipSpacing hskip
    obtain ⟨inner, after, settings, hrow, hafter, htakes, rfl⟩ :=
      Members.exists_row_of_read hmembers
    exact ⟨_, .object hbefore hrow hafter htakes.nodup htakes.sets, by simp⟩
  · contradiction

theorem readComma_append {blank between : List Char} {c : Char} (hblank : Blank blank)
    (hbetween : Blank between) (hc : isSpacing c = false) (hclose : c ≠ ']') (rest : List Char) :
    readComma (blank ++ ',' :: (between ++ c :: rest)) = .ok (c :: rest) := by
  rw [readComma, skipSpacing_append_cons hblank (by decide)]
  simp [skipSpacing_append_cons hbetween hc, hclose]

theorem exists_blank_of_readComma (hread : readComma text = .ok rest) :
    ∃ blank between, Blank blank ∧ Blank between ∧ text = blank ++ ',' :: (between ++ rest) := by
  unfold readComma at hread
  split at hread
  · contradiction
  · contradiction
  · rename_i afterComma hskip
    obtain ⟨blank, hblank, rfl⟩ := exists_blank_of_skipSpacing hskip
    split at hread
    · contradiction
    · contradiction
    · cases hread
      obtain ⟨between, hbetween, heq⟩ := exists_blank afterComma
      exact ⟨blank, between, hblank, hbetween, by rw [← heq]⟩
  · contradiction

theorem closeList_append {blank : List Char} (hblank : Blank blank) (rest : List Char) :
    closeList (blank ++ ']' :: rest) = .ok rest := by
  simp [closeList, skipSpacing_append_cons hblank (show isSpacing ']' = false by decide)]

theorem exists_blank_of_closeList (hread : closeList text = .ok rest) :
    ∃ blank, Blank blank ∧ text = blank ++ ']' :: rest := by
  unfold closeList at hread
  split at hread
  · contradiction
  · rename_i hskip
    cases hread
    exact exists_blank_of_skipSpacing hskip
  · split at hread <;> contradiction
  · contradiction

theorem exists_cons_of_output {output : List Char} {value : Option OutputFormat}
    (houtput : Output output value) :
    ∃ c inner, output = c :: inner ∧ isSpacing c = false ∧ c ≠ ']' := by
  cases houtput with
  | null => exact ⟨'n', _, rfl, by decide, by decide⟩
  | name hname =>
      cases hname with
      | mk => exact ⟨'"', _, rfl, by decide, by decide⟩
  | member => exact ⟨'{', _, rfl, by decide, by decide⟩

theorem exists_cons_of_pretty {pretty : List Char} {value : Option Bool}
    (hpretty : Pretty pretty value) :
    ∃ c inner, pretty = c :: inner ∧ isSpacing c = false ∧ c ≠ ']' := by
  cases hpretty with
  | null => exact ⟨'n', _, rfl, by decide, by decide⟩
  | yes => exact ⟨'t', _, rfl, by decide, by decide⟩
  | no => exact ⟨'f', _, rfl, by decide, by decide⟩

theorem readList_append {array : List Char} {options : Options}
    (harray : Holder ('[' :: array) options) (rest : List Char) :
    readList (array ++ rest) = .ok (options, rest) := by
  cases harray with
  | array houtput hpretty hfirst hsecond hthird hlast =>
      have hreadOutput := readOutput_append houtput
      have hreadPretty := readPretty_append hpretty
      obtain ⟨c, output, rfl, hc, hclose⟩ := exists_cons_of_output houtput
      obtain ⟨d, pretty, rfl, hd, hcloseList⟩ := exists_cons_of_pretty hpretty
      simp only [List.append_assoc, List.cons_append, List.nil_append] at hreadOutput hreadPretty ⊢
      rw [readList, skipSpacing_append_cons hfirst hc]
      split
      · contradiction
      · simp_all
      · simp only [bind_of_eq_ok (hreadOutput _),
          bind_of_eq_ok (readComma_append hsecond hthird hd hcloseList _),
          bind_of_eq_ok (hreadPretty _), bind_of_eq_ok (closeList_append hlast _)]
        rfl

theorem exists_holder_of_readList {options : Options}
    (hread : readList text = .ok (options, rest)) :
    ∃ array, Holder ('[' :: array) options ∧ text = array ++ rest := by
  unfold readList at hread
  split at hread
  · contradiction
  · contradiction
  · obtain ⟨⟨output, afterOutput⟩, houtput, hread⟩ := exists_of_bind_eq_ok hread
    obtain ⟨afterComma, hcomma, hread⟩ := exists_of_bind_eq_ok hread
    obtain ⟨⟨pretty, afterPretty⟩, hpretty, hread⟩ := exists_of_bind_eq_ok hread
    obtain ⟨remaining, hclose, hread⟩ := exists_of_bind_eq_ok hread
    cases hread
    obtain ⟨blank, hblank, htext⟩ := exists_blank text
    obtain ⟨first, written, hfirst, hwritten, hskip⟩ := exists_output_of_readOutput houtput
    obtain ⟨second, third, hsecond, hthird, rfl⟩ := exists_blank_of_readComma hcomma
    obtain ⟨fourth, drawn, hfourth, hdrawn, rfl⟩ := exists_pretty_of_readPretty hpretty
    obtain ⟨last, hlast, rfl⟩ := exists_blank_of_closeList hclose
    rw [hskip] at htext
    exact ⟨_, .array hwritten hdrawn (blank_append hblank hfirst) hsecond
      (blank_append hthird hfourth) hlast, by simp [htext]⟩

theorem readOptions_append {holder : List Char} {options : Options}
    (hholder : Holder holder options) (rest : List Char) :
    readOptions (holder ++ rest) = .ok (options, rest) := by
  have hshape := hholder
  cases hholder with
  | empty =>
      rw [List.cons_append, readOptions, skipSpacing_cons (by decide)]
      exact readObject_append hshape rest
  | object =>
      rw [List.cons_append, readOptions, skipSpacing_cons (by decide)]
      exact readObject_append hshape rest
  | array =>
      rw [List.cons_append, readOptions, skipSpacing_cons (by decide)]
      exact readList_append hshape rest

theorem exists_holder_of_readOptions {options : Options}
    (hread : readOptions text = .ok (options, rest)) :
    ∃ before holder, Blank before ∧ Holder holder options ∧ text = before ++ (holder ++ rest) := by
  unfold readOptions at hread
  split at hread
  · contradiction
  · rename_i hskip
    obtain ⟨before, hbefore, rfl⟩ := exists_blank_of_skipSpacing hskip
    obtain ⟨object, hobject, rfl⟩ := exists_holder_of_readObject hread
    exact ⟨before, _, hbefore, hobject, rfl⟩
  · rename_i hskip
    obtain ⟨before, hbefore, rfl⟩ := exists_blank_of_skipSpacing hskip
    obtain ⟨array, harray, rfl⟩ := exists_holder_of_readList hread
    exact ⟨before, _, hbefore, harray, rfl⟩
  · contradiction

theorem readOptions_blank_append {blank : List Char} (hblank : Blank blank) (text : List Char) :
    readOptions (blank ++ text) = readOptions text := by
  unfold readOptions
  rw [skipSpacing_append hblank]

theorem readWhole_eq_ok_iff {options : Options} :
    readWhole text = .ok options ↔ Configuration text options := by
  constructor
  · intro hread
    unfold readWhole at hread
    obtain ⟨⟨found, remaining⟩, hfound, hrest⟩ := exists_of_bind_eq_ok hread
    obtain ⟨before, holder, hbefore, hholder, rfl⟩ := exists_holder_of_readOptions hfound
    simp only at hrest
    split at hrest
    · rename_i hskip
      cases hrest
      rw [← List.append_assoc]
      exact .mk hbefore hholder (skipSpacing_eq_nil_iff.mp hskip)
    · contradiction
  · intro hconfiguration
    cases hconfiguration with
    | @mk before holder after _ hbefore hholder hafter =>
        have hread : readOptions (before ++ holder ++ after) = .ok (options, after) := by
          rw [List.append_assoc, readOptions_blank_append hbefore, readOptions_append hholder]
        rw [readWhole, bind_of_eq_ok hread]
        simp only [skipSpacing_eq_nil_iff.mpr hafter]
        rfl

/-- A text is accepted as a configuration exactly if it is one, with the options that it
sets, and every other text is refused with a complaint. -/
theorem Options.ofText_followsGrammar (content : String) :
    (∀ options, Options.ofText content = .ok options ↔ Configuration content.toList options) ∧
    ((∃ complaint, Options.ofText content = .error (.invalid complaint)) ↔
      ¬∃ options, Configuration content.toList options) := by
  simp only [← readWhole_eq_ok_iff, Options.ofText, Options.parse]
  cases readWhole content.toList with
  | ok options => simp
  | error stop => simp

end LoxLexer
