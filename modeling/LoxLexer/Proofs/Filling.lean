import LoxLexer.Proofs.Number.Digits
import LoxLexer.Proofs.Stretch
import LoxLexer.Text.Placeholder

/-!
# Places are filled as if all at once

The places of a template are filled one number after another, and every pass goes over
the whole text, with what earlier passes have brought in.  Filling them all at once is
given by itself, over the template only (`FilledAtOnce`).

Both agree as long as no brace is brought in before the last pass.  Then the text
between two passes is the template filled at once with the arguments taken so far
(`FilledAtOnce.pass`), and its places are those of the template that are still to be
taken.  So the text behind the last pass is the template filled with all of them
(`FilledAtOnce.fillFrom`).
-/

namespace LoxLexer.Placeholder

/-- Whether every opening brace of a text begins a place. -/
def IsTemplate (text : List Char) : Prop :=
  ∀ before after, text = before ++ '{' :: after → ∃ number, mark number <+: '{' :: after

/-- What stands where a template has a place: the argument of its number, and without one
the place as it was. -/
def atPlace (arguments : List (List Char)) (number : Nat) : List Char :=
  arguments[number]?.getD (mark number)

/-- A template, and its text with all places taken at once. -/
inductive FilledAtOnce (arguments : List (List Char)) : List Char → List Char → Prop where
  | nil : FilledAtOnce arguments [] []
  | plain {c : Char} {text filled : List Char} (hc : c ≠ '{')
      (hrest : FilledAtOnce arguments text filled) :
      FilledAtOnce arguments (c :: text) (c :: filled)
  | place (number : Nat) {text filled : List Char}
      (hrest : FilledAtOnce arguments text filled) :
      FilledAtOnce arguments (mark number ++ text) (atPlace arguments number ++ filled)

theorem brace_not_mem_toDigits {brace : Char} (hbrace : isDigit brace = false) (number : Nat) :
    brace ∉ Nat.toDigits 10 number := by
  intro hmem
  have hdigit : isDigit brace := isDigit_of_mem_decimalDigits hmem
  rw [hbrace] at hdigit
  cases hdigit

/-- What stands behind the opening brace of a mark opens no other one. -/
theorem brace_not_mem_inside (number : Nat) : '{' ∉ Nat.toDigits 10 number ++ ['}'] := by
  rw [List.mem_append, not_or]
  exact ⟨brace_not_mem_toDigits (by decide) number, by decide⟩

theorem mark_append_eq (number : Nat) (text : List Char) :
    mark number ++ text = '{' :: (Nat.toDigits 10 number ++ ['}'] ++ text) := rfl

theorem mark_append_inj {number other : Nat} {text rest : List Char}
    (heq : mark number ++ text = mark other ++ rest) : number = other ∧ text = rest := by
  rw [mark_append_eq, mark_append_eq, List.append_assoc, List.append_assoc] at heq
  obtain ⟨hdigits, htext⟩ := append_cons_inj (brace_not_mem_toDigits (by decide) number)
    (brace_not_mem_toDigits (by decide) other) (List.cons.inj heq).2
  exact ⟨decimalDigits_injective hdigits, htext⟩

theorem replaceAfter_eq (pattern value : List Char) (skipped : Nat) (text : List Char) :
    replaceAfter pattern value skipped text = replaceAll pattern value (text.drop skipped) := by
  induction text generalizing skipped with
  | nil => cases skipped <;> rfl
  | cons c text ih =>
      cases skipped with
      | zero => rfl
      | succ skipped =>
          rw [replaceAfter, List.drop_succ_cons]
          exact ih skipped

section Pass

variable (index : Nat) (value : List Char)

theorem replaceAll_mark_self (text : List Char) :
    replaceAll (mark index) value (mark index ++ text) =
      value ++ replaceAll (mark index) value text := by
  have hbegins : (mark index).isPrefixOf (mark index ++ text) :=
    List.isPrefixOf_iff_prefix.mpr (List.prefix_append _ _)
  have hdrop : (Nat.toDigits 10 index ++ ['}'] ++ text).drop ((mark index).length - 1) = text :=
    List.drop_left
  rw [mark_append_eq] at hbegins ⊢
  rw [replaceAll, replaceAfter, if_pos hbegins, replaceAfter_eq]
  exact congrArg (fun rest => value ++ replaceAll (mark index) value rest) hdrop

theorem replaceAll_mark_cons {c : Char} {text : List Char}
    (hc : ¬ mark index <+: c :: text) :
    replaceAll (mark index) value (c :: text) = c :: replaceAll (mark index) value text := by
  rw [replaceAll, replaceAfter, if_neg (mt List.isPrefixOf_iff_prefix.mp hc)]
  rfl

/-- A pass leaves a text without opening braces as it is. -/
theorem replaceAll_mark_append {plain : List Char} (hplain : '{' ∉ plain) (text : List Char) :
    replaceAll (mark index) value (plain ++ text) =
      plain ++ replaceAll (mark index) value text := by
  induction plain with
  | nil => rfl
  | cons c plain ih =>
      rw [List.mem_cons, not_or] at hplain
      have hc : ¬ mark index <+: c :: (plain ++ text) := by
        rw [mark, List.cons_prefix_cons]
        exact fun hbegins => hplain.1 hbegins.1
      rw [List.cons_append, replaceAll_mark_cons index value hc, ih hplain.2, List.cons_append]

theorem replaceAll_mark_other {number : Nat} (hother : number ≠ index) (text : List Char) :
    replaceAll (mark index) value (mark number ++ text) =
      mark number ++ replaceAll (mark index) value text := by
  have hbegins : ¬ mark index <+: mark number ++ text := by
    rintro ⟨rest, hrest⟩
    exact hother (mark_append_inj hrest).1.symm
  rw [mark_append_eq] at hbegins
  rw [mark_append_eq, mark_append_eq, replaceAll_mark_cons index value hbegins,
    replaceAll_mark_append index value (brace_not_mem_inside number)]

end Pass

section Arguments

variable {taken arguments : List (List Char)} {template text : List Char}

theorem atPlace_mem {number : Nat} (hlt : number < taken.length) :
    atPlace taken number ∈ taken := by
  rw [atPlace, List.getElem?_eq_getElem hlt, Option.getD_some]
  exact List.getElem_mem hlt

theorem atPlace_of_le {number : Nat} (hle : taken.length ≤ number) :
    atPlace taken number = mark number := by
  rw [atPlace, List.getElem?_eq_none hle, Option.getD_none]

/-- A pass takes the places of one number. -/
theorem replaceAll_atPlace (htaken : ∀ argument ∈ taken, '{' ∉ argument)
    (argument : List Char) (number : Nat) (text : List Char) :
    replaceAll (mark taken.length) argument (atPlace taken number ++ text) =
      atPlace (taken ++ [argument]) number ++ replaceAll (mark taken.length) argument text := by
  rcases Nat.lt_trichotomy number taken.length with hlt | rfl | hgt
  · have hsame : atPlace (taken ++ [argument]) number = atPlace taken number := by
      rw [atPlace, atPlace, List.getElem?_append_left hlt]
    rw [hsame, replaceAll_mark_append _ _ (htaken _ (atPlace_mem hlt))]
  · have hnow : atPlace (taken ++ [argument]) taken.length = argument := by
      rw [atPlace, List.getElem?_concat_length, Option.getD_some]
    rw [atPlace_of_le (Nat.le_refl _), hnow, replaceAll_mark_self]
  · have hlength : (taken ++ [argument]).length ≤ number := by
      rw [List.length_append]
      exact hgt
    rw [atPlace_of_le (Nat.le_of_lt hgt), atPlace_of_le hlength,
      replaceAll_mark_other _ _ (Nat.ne_of_gt hgt)]

theorem FilledAtOnce.pass (htaken : ∀ argument ∈ taken, '{' ∉ argument)
    (hfilled : FilledAtOnce taken template text) (argument : List Char) :
    FilledAtOnce (taken ++ [argument]) template
      (replaceAll (mark taken.length) argument text) := by
  induction hfilled with
  | nil => exact .nil
  | @plain c _ filled hc _ ih =>
      have hmark : ¬ mark taken.length <+: c :: filled := by
        rw [mark, List.cons_prefix_cons]
        exact fun hbegins => hc hbegins.1.symm
      rw [replaceAll_mark_cons _ _ hmark]
      exact .plain hc ih
  | place number _ ih =>
      rw [replaceAll_atPlace htaken]
      exact .place number ih

/-- The passes that are left take the places that are left. -/
theorem FilledAtOnce.fillFrom (hfilled : FilledAtOnce taken template text)
    (arguments : List (List Char))
    (harguments : ∀ argument ∈ (taken ++ arguments).dropLast, '{' ∉ argument) :
    FilledAtOnce (taken ++ arguments) template (fillFrom taken.length text arguments) := by
  induction arguments generalizing taken text with
  | nil => rwa [List.append_nil]
  | cons argument arguments ih =>
      have htaken : ∀ earlier ∈ taken, '{' ∉ earlier := by
        intro earlier hmem
        apply harguments
        rw [List.dropLast_append_cons]
        exact List.mem_append_left _ hmem
      have hlength : taken.length + 1 = (taken ++ [argument]).length := by
        rw [List.length_append, List.length_singleton]
      rw [List.append_cons] at harguments ⊢
      rw [Placeholder.fillFrom, hlength]
      exact ih (hfilled.pass htaken argument) harguments

theorem FilledAtOnce.unique {filled other : List Char}
    (hfilled : FilledAtOnce arguments template filled)
    (hother : FilledAtOnce arguments template other) : filled = other := by
  induction hfilled generalizing other with
  | nil =>
      generalize hnil : [] = template at hother
      cases hother with
      | nil => rfl
      | plain => cases hnil
      | place => cases hnil
  | @plain c text _ hc _ ih =>
      generalize htext : c :: text = template at hother
      cases hother with
      | nil => cases htext
      | plain _ hrest =>
          cases htext
          rw [ih hrest]
      | place number =>
          rw [mark_append_eq] at htext
          exact absurd (List.cons.inj htext).1 hc
  | @place number text _ _ ih =>
      generalize htext : mark number ++ text = template at hother
      cases hother with
      | nil =>
          rw [mark_append_eq] at htext
          cases htext
      | plain hc =>
          rw [mark_append_eq] at htext
          exact absurd (List.cons.inj htext).1.symm hc
      | place other hrest =>
          obtain ⟨rfl, rfl⟩ := mark_append_inj htext
          rw [ih hrest]

end Arguments

theorem isTemplate_nil : IsTemplate [] := by
  intro before after heq
  simp at heq

theorem IsTemplate.of_append (text : List Char) {rest : List Char}
    (htemplate : IsTemplate (text ++ rest)) : IsTemplate rest := by
  intro before after heq
  apply htemplate (text ++ before) after
  rw [heq, List.append_assoc]

theorem IsTemplate.plain_append {plain text : List Char} (hplain : '{' ∉ plain)
    (htemplate : IsTemplate text) : IsTemplate (plain ++ text) := by
  induction plain with
  | nil => exact htemplate
  | cons c plain ih =>
      rw [List.mem_cons, not_or] at hplain
      intro before after heq
      cases before with
      | nil => exact absurd (List.cons.inj heq).1.symm hplain.1
      | cons d before => exact ih hplain.2 before after (List.cons.inj heq).2

theorem IsTemplate.mark_append {text : List Char} (htemplate : IsTemplate text) (number : Nat) :
    IsTemplate (mark number ++ text) := by
  intro before after heq
  cases before with
  | nil => exact ⟨number, text, heq⟩
  | cons c before =>
      exact htemplate.plain_append (brace_not_mem_inside number) before after
        (List.cons.inj heq).2

theorem IsTemplate.filledAtOnce {text : List Char} (htemplate : IsTemplate text) :
    FilledAtOnce [] text text := by
  induction hlength : text.length using Nat.strongRecOn generalizing text with
  | ind length ih =>
      subst hlength
      cases text with
      | nil => exact .nil
      | cons c text =>
          by_cases hc : c = '{'
          · subst hc
            obtain ⟨number, rest, hrest⟩ := htemplate [] text rfl
            rw [← hrest] at htemplate ih ⊢
            refine .place number (ih rest.length ?_ (.of_append _ htemplate) rfl)
            rw [mark_append_eq, List.length_cons, List.length_append]
            omega
          · have htail : IsTemplate text := IsTemplate.of_append [c] htemplate
            exact .plain hc (ih text.length (Nat.lt_succ_self _) htail rfl)

theorem FilledAtOnce.isTemplate {arguments : List (List Char)} {text filled : List Char}
    (hfilled : FilledAtOnce arguments text filled) : IsTemplate text := by
  induction hfilled with
  | nil => exact isTemplate_nil
  | @plain c text _ hc _ ih =>
      have hplain : '{' ∉ [c] := by
        rw [List.mem_singleton]
        exact hc.symm
      exact ih.plain_append hplain
  | place number _ ih => exact ih.mark_append number

/-- Where no argument but the last has an opening brace, a template is filled as if all its
places were taken at once. -/
theorem fill_eq_iff_filledAtOnce {template : String} {arguments : List String}
    (htemplate : IsTemplate template.toList)
    (harguments : ∀ argument ∈ arguments.dropLast, '{' ∉ argument.toList) (filled : String) :
    fill template arguments = filled ↔
      FilledAtOnce (arguments.map String.toList) template.toList filled.toList := by
  have hfilled : FilledAtOnce (arguments.map String.toList) template.toList
      (fill template arguments).toList := by
    have hall := htemplate.filledAtOnce.fillFrom (arguments.map String.toList)
    rw [List.nil_append, ← List.map_dropLast, List.forall_mem_map] at hall
    rw [fill, String.toList_ofList]
    exact hall harguments
  constructor
  · rintro rfl
    exact hfilled
  · intro hother
    exact String.toList_inj.mp (hfilled.unique hother)

theorem fill_eq_iff_filledAtOnce_of_braces :
    IsTemplate "\x7b1\x7d: \x7b0\x7d\x7b10\x7d\x7d\x7b0\x7d".toList ∧
      (∀ argument ∈ ["1\x7d", "\x7b0\x7d"].dropLast, '{' ∉ argument.toList) ∧
      ∀ filled,
        fill "\x7b1\x7d: \x7b0\x7d\x7b10\x7d\x7d\x7b0\x7d" ["1\x7d", "\x7b0\x7d"] = filled ↔
          FilledAtOnce (["1\x7d", "\x7b0\x7d"].map String.toList)
            "\x7b1\x7d: \x7b0\x7d\x7b10\x7d\x7d\x7b0\x7d".toList filled.toList := by
  have hfilled : FilledAtOnce [] "\x7b1\x7d: \x7b0\x7d\x7b10\x7d\x7d\x7b0\x7d".toList _ :=
    .place 1 <| .plain (by decide) <| .plain (by decide) <| .place 0 <| .place 10 <|
      .plain (by decide) <| .place 0 .nil
  have harguments : ∀ argument ∈ ["1\x7d", "\x7b0\x7d"].dropLast, '{' ∉ argument.toList := by
    decide
  exact ⟨hfilled.isTemplate, harguments,
    fill_eq_iff_filledAtOnce hfilled.isTemplate harguments⟩

/-- Where a brace begins no place, an argument may complete one. -/
example : fill "\x7b\x7b0\x7d\x7d" ["1", "x"] = "x" := by cbv

end LoxLexer.Placeholder
