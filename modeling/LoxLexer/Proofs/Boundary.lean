import LoxLexer.Proofs.LongestMatch

/-!
# Where an element ends

Whether an element ends in front of a text is settled by the first two characters
of that text.  A word goes on with a word character, a number with a digit, a
number without a fraction also with a point and a digit, and so on
(`Element.GoesOnWith`).  An element is the longest match at the head of a text
exactly if the grammar knows it by itself and nothing behind it is such a beginning
(`heads_append_iff`).

An element therefore ends in front of every text that shows it no more than the
text behind it does (`Element.EndsBefore.transfer`).
-/

namespace LoxLexer

/-- What an element goes on with, if the text behind it begins so. -/
inductive Element.GoesOnWith : Element → List Char → Prop where
  | lineComment {text : List Char} {c : Char} (hc : c ≠ '\n') :
      GoesOnWith ⟨.lineComment, text⟩ [c]
  | openComment {text : List Char} {c : Char} : GoesOnWith ⟨.openComment, text⟩ [c]
  | openString {text : List Char} {c : Char} : GoesOnWith ⟨.openString, text⟩ [c]
  | digit {text : List Char} {digit : Char} (hdigit : isDigit digit) :
      GoesOnWith ⟨.number, text⟩ [digit]
  | point {digits : List Char} {digit : Char} (hdigits : ∀ c ∈ digits, isDigit c)
      (hdigit : isDigit digit) : GoesOnWith ⟨.number, digits⟩ ['.', digit]
  | word {letters : List Char} {c : Char} (hc : isWordCharacter c) :
      GoesOnWith ⟨.word, letters⟩ [c]
  | operator {c : Char} {forms : Kind.OperatorForms} (hforms : Kind.operatorForms? c = some forms) :
      GoesOnWith ⟨.symbol forms.bare, [c]⟩ ['=']
  | slash {c : Char} (hc : c = '/' ∨ c = '*') : GoesOnWith ⟨.symbol .slash, ['/']⟩ [c]

theorem Element.GoesOnWith.ne_nil {element : Element} {ahead : List Char}
    (hahead : element.GoesOnWith ahead) : ahead ≠ [] := by
  cases hahead <;> exact List.cons_ne_nil _ _

/-- No token goes on with a blank. -/
theorem Element.GoesOnWith.isBlank_eq_false {element : Element} {ahead : List Char}
    (hahead : element.GoesOnWith ahead) (htoken : element.form.isToken) :
    ∀ c ∈ ahead, isBlank c = false := by
  cases hahead with
  | lineComment | openComment | openString => cases htoken
  | digit hdigit =>
      simpa using isBlank_eq_false_of_isWordCharacter (isWordCharacter_of_isDigit hdigit)
  | point _ hdigit =>
      have hpoint : isBlank '.' = false := by decide
      simpa [hpoint] using isBlank_eq_false_of_isWordCharacter (isWordCharacter_of_isDigit hdigit)
  | word hc => simpa using isBlank_eq_false_of_isWordCharacter hc
  | operator =>
      rw [List.forall_mem_singleton]
      decide
  | slash hc =>
      rw [List.forall_mem_singleton]
      rcases hc with rfl | rfl <;> decide

/-- What is no token goes on with single characters only, and with the same ones
wherever it stands. -/
theorem Element.GoesOnWith.other_than_token {element : Element} {ahead : List Char}
    (hahead : element.GoesOnWith ahead) (htoken : element.form.isToken = false) :
    ∃ c, ahead = [c] ∧ (element.form = .lineComment → c ≠ '\n') ∧
      ∀ d, (element.form = .lineComment → d ≠ '\n') → element.GoesOnWith [d] := by
  cases hahead with
  | @lineComment text c hc => exact ⟨c, rfl, fun _ => hc, fun d hd => .lineComment (hd rfl)⟩
  | @openComment text c => exact ⟨c, rfl, nofun, fun _ _ => .openComment⟩
  | @openString text c => exact ⟨c, rfl, nofun, fun _ _ => .openString⟩
  | _ => cases htoken

/-- A character that begins nothing the grammar knows. -/
def IsStray (c : Char) : Prop :=
  ∀ text form piece, piece <+: c :: text → ¬ Belongs (c :: text) form piece

/-- An element that ends in front of a text: it is one of the grammar, and goes on
with nothing that the text begins with. -/
structure Element.EndsBefore (element : Element) (rest : List Char) : Prop where
  known : Belongs element.text element.form element.text ∨
    ∃ c, element = ⟨.stray, [c]⟩ ∧ IsStray c
  ends : ∀ ahead, element.GoesOnWith ahead → ¬ ahead <+: rest

/-- An element ends in front of every text at which it sees nothing to go on with
unless it sees such a thing already. -/
theorem Element.EndsBefore.transfer {element : Element} {rest other : List Char}
    (hends : element.EndsBefore rest)
    (hother : ∀ ahead, element.GoesOnWith ahead → ahead <+: other →
      ∃ seen, element.GoesOnWith seen ∧ seen <+: rest) :
    element.EndsBefore other := by
  refine ⟨hends.known, fun ahead hahead hbegins => ?_⟩
  obtain ⟨seen, hseen, hrest⟩ := hother ahead hahead hbegins
  exact hends.ends seen hseen hrest

theorem Element.endsBefore_blank {c : Char} (hc : c ∈ [' ', '\t', '\r', '\n']) (rest : List Char) :
    Element.EndsBefore ⟨.blank, [c]⟩ rest :=
  ⟨.inl (.blank hc), fun _ hahead => by cases hahead⟩

theorem not_singleton_prefix_dropWhile {α : Type} {p : α → Bool} {x : α} (hx : p x)
    (list : List α) : ¬ [x] <+: list.dropWhile p := by
  rintro ⟨rest, hrest⟩
  have hfalse := eq_false_of_dropWhile_eq_cons hrest.symm
  rw [hx] at hfalse
  cases hfalse

/-- What begins in front of two texts lies in the first or goes on in the second. -/
theorem prefix_append_cases {α : Type} {beginning first second : List α}
    (hbegins : beginning <+: first ++ second) :
    beginning <+: first ∨ ∃ more, beginning = first ++ more ∧ more <+: second := by
  obtain ⟨rest, hrest⟩ := hbegins
  rcases List.append_eq_append_iff.mp hrest with ⟨more, hfirst, -⟩ | ⟨more, hbeginning, hsecond⟩
  · exact .inl ⟨more, hfirst.symm⟩
  · exact .inr ⟨more, hbeginning, rest, hsecond.symm⟩

namespace Cut

theorem number_ends (c : Char) (text ahead : List Char)
    (hahead : (number c text).element.GoesOnWith ahead) :
    ¬ ahead <+: (number c text).rest := by
  revert hahead
  fun_cases number c text with
  | case1 digit rest heq hdigit =>
      intro hahead
      cases hahead with
      | digit hother => exact not_singleton_prefix_dropWhile hother rest
      | point hdigits =>
          have hpoint : isDigit '.' := hdigits '.' (by simp)
          exact absurd hpoint (by decide)
  | case2 digit rest heq hdigit =>
      intro hahead hbegins
      cases hahead with
      | digit hother =>
          obtain ⟨rfl, -⟩ := List.cons_prefix_cons.mp hbegins
          exact absurd hother (by decide)
      | point _ hother =>
          simp only [List.cons_prefix_cons, true_and] at hbegins
          obtain ⟨rfl, -⟩ := hbegins
          exact hdigit hother
  | case3 hpoint =>
      intro hahead hbegins
      cases hahead with
      | digit hother => exact not_singleton_prefix_dropWhile hother text hbegins
      | point _ hother =>
          obtain ⟨rest, hrest⟩ := hbegins
          exact hpoint _ rest hrest.symm

theorem string_ends (text ahead : List Char)
    (hahead : (string text).element.GoesOnWith ahead) : ¬ ahead <+: (string text).rest := by
  revert hahead
  fun_cases string text with
  | case1 =>
      rintro ⟨⟩
      simp
  | case2 => rintro ⟨⟩

theorem slash_ends (text ahead : List Char)
    (hahead : (slash text).element.GoesOnWith ahead) : ¬ ahead <+: (slash text).rest := by
  revert hahead
  fun_cases slash text with
  | case1 text =>
      rintro ⟨hc⟩
      exact not_singleton_prefix_dropWhile (by simpa using hc) text
  | case2 text =>
      rcases slash_star_cases text with ⟨body, rest, -, -, hcut⟩ | ⟨-, hcut⟩
      · rw [slash] at hcut
        rw [hcut]
        rintro ⟨⟩
      · rw [slash] at hcut
        rw [hcut]
        rintro ⟨⟩
        simp
  | case3 text hline hblock =>
      intro hahead hbegins
      -- With a variable kind the cases need not decide which operator is a bare slash.
      generalize hkind : Kind.slash = kind at hahead
      cases hahead with
      | operator hforms => simp [Kind.operatorForms?] at hforms
      | slash hc =>
          obtain ⟨rest, rfl⟩ := hbegins
          rcases hc with rfl | rfl
          · exact hline rest rfl
          · exact hblock rest rfl

theorem operator_ends {c : Char} {forms : Kind.OperatorForms}
    (hforms : Kind.operatorForms? c = some forms) (text ahead : List Char)
    (hahead : (operator c forms text).element.GoesOnWith ahead) :
    ¬ ahead <+: (operator c forms text).rest := by
  revert hahead
  fun_cases operator c forms text with
  | case1 text =>
      generalize forms.withEquals = kind
      rintro ⟨⟩
  | case2 text hequals =>
      intro hahead hbegins
      generalize forms.bare = kind at hahead
      cases hahead with
      | operator =>
          obtain ⟨rest, rfl⟩ := hbegins
          exact hequals rest rfl
      | slash => simp [Kind.operatorForms?] at hforms

/-- What the cutter leaves begins with nothing that its element goes on with. -/
theorem first_ends (c : Char) (text ahead : List Char)
    (hahead : (first c text).element.GoesOnWith ahead) : ¬ ahead <+: (first c text).rest := by
  revert hahead
  fun_cases first c text with
  | case1 kind hkind =>
      intro hahead
      cases hahead with
      | operator hforms =>
          rw [Kind.ofPunctuation?_of_operatorForms? hforms] at hkind
          cases hkind
      | slash => simp [Kind.ofPunctuation?] at hkind
  | case2 forms hforms => exact operator_ends hforms text ahead
  | case3 => exact number_ends c text ahead
  | case4 =>
      intro hahead
      cases hahead with
      | word hc => exact not_singleton_prefix_dropWhile hc text
  | case5 => exact string_ends text ahead
  | case6 => exact slash_ends text ahead
  | case7 => rintro ⟨⟩
  | case8 => rintro ⟨⟩

theorem first_eq_stray {c : Char} {text : List Char}
    (hform : (first c text).element.form = .stray) (other : List Char) :
    first c other = ⟨⟨.stray, [c]⟩, other⟩ := by
  revert hform
  fun_cases first c text with
  | case1 => rintro ⟨⟩
  | case2 forms hforms =>
      exact fun hform => absurd hform (Belongs.operator_cut hforms text).form_ne_stray
  | case3 _ _ hdigit =>
      exact fun hform => absurd hform (Belongs.number_cut hdigit text).form_ne_stray
  | case4 => rintro ⟨⟩
  | case5 => exact fun hform => absurd hform (Belongs.string_cut text).form_ne_stray
  | case6 => exact fun hform => absurd hform (Belongs.slash_cut text).form_ne_stray
  | case7 => rintro ⟨⟩
  | case8 hpunctuation hoperator hdigit hletter hquote hslash hblank =>
      intro _
      simp [first, hpunctuation, hoperator, hdigit, hletter, hquote, hslash, hblank]

/-- Whether a character is stray does not depend on the text behind it. -/
theorem isStray_of_first {c : Char} {text : List Char}
    (hform : (first c text).element.form = .stray) : IsStray c := by
  intro other form piece hpiece hbelongs
  have hheads : Heads (c :: other) ⟨.stray, [c]⟩ := by
    rw [heads_iff, first_eq_stray hform]
  cases hheads with
  | longest _ hother => exact hother.form_ne_stray rfl
  | stray _ hnone => exact hnone form piece hpiece hbelongs

theorem endsBefore_first (c : Char) (text : List Char) :
    (first c text).element.EndsBefore (first c text).rest := by
  refine ⟨?_, first_ends c text⟩
  rcases Belongs.first_cut c text with hbelongs | hstray
  · exact .inl hbelongs.self
  · exact .inr ⟨c, hstray, isStray_of_first (congrArg Element.form hstray)⟩

end Cut

/-! ## An element ends where the cutter stops -/

/-- A test fails at the head of a text if an element that goes on with what passes
it ends there. -/
theorem Element.EndsBefore.head_eq_false {element : Element} {rest : List Char} {p : Char → Bool}
    (hends : element.EndsBefore rest) (hp : ∀ c, p c → element.GoesOnWith [c]) :
    ∀ c ∈ rest.head?, p c = false := by
  intro c hc
  obtain ⟨after, rfl⟩ := List.head?_eq_some_iff.mp hc
  by_contra htrue
  exact hends.ends [c] (hp c (by simpa using htrue)) ⟨after, rfl⟩

namespace Cut

theorem slash_of_lineComment {body rest : List Char} (hbody : '\n' ∉ body)
    (hrest : ∀ c ∈ rest.head?, (c != '\n') = false) :
    slash ('/' :: (body ++ rest)) = ⟨⟨.lineComment, '/' :: '/' :: body⟩, rest⟩ := by
  rw [slash, takeWhile_eq_of_append (bne_of_not_mem hbody) hrest,
    dropWhile_eq_of_append (bne_of_not_mem hbody) hrest]

theorem number_of_whole {c : Char} {digits rest : List Char}
    (hdigits : ∀ d ∈ digits, isDigit d) (hrest : ∀ d ∈ rest.head?, isDigit d = false)
    (hpoint : ∀ digit, isDigit digit → ¬ ['.', digit] <+: rest) :
    number c (digits ++ rest) = ⟨⟨.number, c :: digits⟩, rest⟩ := by
  rw [number, dropWhile_eq_of_append hdigits hrest, takeWhile_eq_of_append hdigits hrest]
  split
  · rename_i digit after
    rw [if_neg]
    exact fun hdigit => hpoint digit hdigit ⟨after, rfl⟩
  · rfl

theorem number_of_fraction {c digit : Char} {whole fraction rest : List Char}
    (hdigits : ∀ d ∈ whole ++ digit :: fraction, isDigit d)
    (hrest : ∀ d ∈ rest.head?, isDigit d = false) :
    number c (whole ++ '.' :: digit :: fraction ++ rest) =
      ⟨⟨.number, c :: (whole ++ '.' :: digit :: fraction)⟩, rest⟩ := by
  have hfraction : ∀ d ∈ fraction, isDigit d := fun d hd => hdigits d (by simp [hd])
  rw [List.append_assoc, List.cons_append, List.cons_append,
    number_of_decimal (fun d hd => hdigits d (by simp [hd])) (hdigits digit (by simp)),
    takeWhile_eq_of_append hfraction hrest, dropWhile_eq_of_append hfraction hrest]

theorem word_of_letters {c : Char} {letters rest : List Char}
    (hletters : ∀ d ∈ letters, isWordCharacter d)
    (hrest : ∀ d ∈ rest.head?, isWordCharacter d = false) :
    word c (letters ++ rest) = ⟨⟨.word, c :: letters⟩, rest⟩ := by
  rw [word, takeWhile_eq_of_append hletters hrest, dropWhile_eq_of_append hletters hrest]

theorem operator_of_bare {c : Char} {forms : Kind.OperatorForms} {rest : List Char}
    (hrest : ¬ ['='] <+: rest) :
    operator c forms rest = ⟨⟨.symbol forms.bare, [c]⟩, rest⟩ := by
  fun_cases operator c forms rest with
  | case1 text => exact absurd ⟨text, rfl⟩ hrest
  | case2 => rfl

theorem slash_of_symbol {rest : List Char} (hline : ¬ ['/'] <+: rest) (hblock : ¬ ['*'] <+: rest) :
    slash rest = ⟨⟨.symbol .slash, ['/']⟩, rest⟩ := by
  fun_cases slash rest with
  | case1 text => exact absurd ⟨text, rfl⟩ hline
  | case2 text => exact absurd ⟨text, rfl⟩ hblock
  | case3 => rfl

end Cut

namespace Element.EndsBefore

variable {element : Element} {rest : List Char}

theorem rest_eq_nil (hends : element.EndsBefore rest) (hopen : ∀ c, element.GoesOnWith [c]) :
    rest = [] := by
  cases rest with
  | nil => rfl
  | cons c rest => exact absurd ⟨rest, rfl⟩ (hends.ends [c] (hopen c))

theorem first_eq_symbol {c : Char} {text : List Char} {kind : Kind}
    (hends : Element.EndsBefore ⟨.symbol kind, c :: text⟩ rest)
    (hsymbol : (c :: text, kind) ∈ symbols) :
    Cut.first c (text ++ rest) = ⟨⟨.symbol kind, c :: text⟩, rest⟩ := by
  rcases mem_symbols_iff.mp hsymbol with ⟨d, hpiece, hkind⟩ | ⟨d, hpiece, hkind⟩
  · cases hpiece
    rcases hkind with hkind | hkind | ⟨rfl, rfl⟩
    · exact Cut.first_of_ofPunctuation? hkind rest
    · obtain ⟨forms, hforms, rfl⟩ := Option.map_eq_some_iff.mp hkind
      rw [Cut.first_of_operatorForms? hforms]
      exact Cut.operator_of_bare (hends.ends _ (.operator hforms))
    · have hline := hends.ends _ (.slash (.inl rfl))
      have hblock := hends.ends _ (.slash (.inr rfl))
      exact Cut.slash_of_symbol hline hblock
  · cases hpiece
    obtain ⟨forms, hforms, rfl⟩ := Option.map_eq_some_iff.mp hkind
    rw [Cut.first_of_operatorForms? hforms]
    rfl

theorem first_eq_number {c : Char} {text : List Char}
    (hends : Element.EndsBefore ⟨.number, c :: text⟩ rest)
    (hnumber : Belongs (c :: text) .number (c :: text)) :
    Cut.first c (text ++ rest) = ⟨⟨.number, c :: text⟩, rest⟩ := by
  have hrest := hends.head_eq_false (p := isDigit) fun digit hdigit => .digit hdigit
  generalize hpiece : c :: text = piece at hnumber
  cases hnumber with
  | whole _ hdigits =>
      subst hpiece
      rw [Cut.first_of_isDigit (hdigits c List.mem_cons_self)]
      exact Cut.number_of_whole (fun d hd => hdigits d (List.mem_cons_of_mem _ hd)) hrest
        fun digit hdigit => hends.ends _ (.point hdigits hdigit)
  | @decimal whole fraction hwhole hfraction hdigits =>
      obtain ⟨d, whole, rfl⟩ := List.exists_cons_of_ne_nil hwhole
      obtain ⟨digit, fraction, rfl⟩ := List.exists_cons_of_ne_nil hfraction
      obtain ⟨rfl, rfl⟩ := List.cons.inj hpiece
      rw [Cut.first_of_isDigit (hdigits c (by simp))]
      exact Cut.number_of_fraction (fun x hx => hdigits x (List.mem_cons_of_mem _ hx)) hrest

theorem first_eq_of_belongs {c : Char} {text : List Char} {form : Form}
    (hends : Element.EndsBefore ⟨form, c :: text⟩ rest)
    (hbelongs : Belongs (c :: text) form (c :: text)) :
    Cut.first c (text ++ rest) = ⟨⟨form, c :: text⟩, rest⟩ := by
  generalize hpiece : c :: text = piece at hbelongs
  cases hbelongs with
  | blank hc =>
      cases hpiece
      exact Cut.first_of_isBlank (isBlank_iff.mpr hc) rest
  | lineComment hbody =>
      cases hpiece
      have hrest := hends.head_eq_false (p := (· != '\n')) fun c hc =>
        .lineComment (by simpa using hc)
      exact Cut.slash_of_lineComment hbody hrest
  | blockComment hcomment =>
      obtain ⟨body, rfl, hbody⟩ := hcomment
      cases hpiece
      exact Cut.slash_of_commentBody hbody rest
  | openComment hbody hopen =>
      subst hbody
      cases hpiece
      rw [hends.rest_eq_nil fun _ => .openComment, List.append_nil]
      exact Cut.slash_of_unclosed fun inner => not_commentBody_of_open hopen
  | string hinside =>
      cases hpiece
      rw [Cut.first_quote, List.append_assoc]
      exact Cut.string_of_closed hinside rest
  | openString hinsideEq hinside =>
      subst hinsideEq
      cases hpiece
      rw [hends.rest_eq_nil fun _ => .openString, List.append_nil]
      exact Cut.string_of_unclosed hinside
  | whole hne hdigits =>
      subst hpiece
      exact hends.first_eq_number (.whole hne hdigits)
  | @decimal whole fraction hwhole hfraction hdigits =>
      have hnumber : Belongs (c :: text) .number (whole ++ '.' :: fraction) :=
        .decimal hwhole hfraction hdigits
      rw [← hpiece] at hnumber ⊢
      exact hends.first_eq_number hnumber
  | word hc hletters =>
      cases hpiece
      have hrest := hends.head_eq_false (p := isWordCharacter) fun c hc => .word hc
      rw [Cut.first_of_isLetter hc]
      exact Cut.word_of_letters hletters hrest
  | symbol hsymbol =>
      subst hpiece
      exact hends.first_eq_symbol hsymbol

/-- The cutter takes an element that ends in front of a text off that text. -/
theorem first_eq {c : Char} {text : List Char} {form : Form}
    (hends : Element.EndsBefore ⟨form, c :: text⟩ rest) :
    Cut.first c (text ++ rest) = ⟨⟨form, c :: text⟩, rest⟩ := by
  rcases hends.known with hbelongs | ⟨d, hstray, hnone⟩
  · exact hends.first_eq_of_belongs hbelongs
  · cases hstray
    have hheads : Heads (c :: rest) ⟨.stray, [c]⟩ := .stray rfl (hnone rest)
    have hform : (Cut.first c rest).element.form = .stray := by
      rw [← heads_iff.mp hheads]
    exact Cut.first_eq_stray hform rest

theorem text_ne_nil (hends : element.EndsBefore rest) : element.text ≠ [] := by
  rcases hends.known with hbelongs | ⟨c, rfl, -⟩
  · exact List.length_pos_iff.mp hbelongs.length_pos
  · exact List.cons_ne_nil c []

end Element.EndsBefore

/-- An element is the longest match at the head of a text exactly if it ends in front
of what follows. -/
theorem heads_append_iff {element : Element} {rest : List Char} :
    Heads (element.text ++ rest) element ↔ element.EndsBefore rest := by
  constructor
  · intro hheads
    have hnonempty : element.text ++ rest ≠ [] := by
      intro hnil
      rw [hnil] at hheads
      cases hheads with
      | longest hpiece hbelongs =>
          have hpos := hbelongs.length_pos
          simp [List.prefix_nil.mp hpiece] at hpos
      | stray htext => cases htext
    obtain ⟨c, text, htext⟩ := List.exists_cons_of_ne_nil hnonempty
    rw [htext, heads_iff] at hheads
    have hcut := Cut.text_append_rest c text
    rw [← hheads, ← htext, List.append_cancel_left_eq] at hcut
    have hends := Cut.endsBefore_first c text
    rwa [← hheads, hcut] at hends
  · intro hends
    obtain ⟨form, piece⟩ := element
    obtain ⟨c, text, rfl⟩ := List.exists_cons_of_ne_nil hends.text_ne_nil
    rw [List.cons_append, heads_iff, hends.first_eq]

theorem splits_elements (text : List Char) : Splits text (elements text) :=
  splits_iff.mpr rfl

theorem Splits.eq_elements {text : List Char} {row : List Element} (hsplits : Splits text row) :
    row = elements text :=
  splits_iff.mp hsplits

theorem Splits.of_endsBefore {element : Element} {rest : List Char} {row : List Element}
    (hends : element.EndsBefore rest) (hrest : Splits rest row) :
    Splits (element.text ++ rest) (element :: row) :=
  .cons (heads_append_iff.mpr hends) hrest

theorem elements_of_endsBefore {element : Element} {rest : List Char}
    (hends : element.EndsBefore rest) :
    elements (element.text ++ rest) = element :: elements rest :=
  (Splits.of_endsBefore hends (splits_elements rest)).eq_elements.symm

theorem eq_nil_or_exists_endsBefore (text : List Char) :
    text = [] ∨ ∃ (element : Element) (rest : List Char),
      element.EndsBefore rest ∧ text = element.text ++ rest := by
  cases text with
  | nil => exact .inl rfl
  | cons c text =>
      exact .inr ⟨_, _, Cut.endsBefore_first c text, (Cut.text_append_rest c text).symm⟩

end LoxLexer
