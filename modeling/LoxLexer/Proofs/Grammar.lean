import LoxLexer.Proofs.Comment
import LoxLexer.Proofs.Opening
import LoxLexer.Proofs.Stretch

/-!
# The lexical grammar

Each class of elements is a set of texts, given without any reference to how an
element is found (`Belongs`).  The grammar cuts a text by the rule of the
longest match: the first element is the longest beginning of the text that is
in some class, and where no beginning is in any class it is a single stray
character (`Heads`).  The elements of what remains follow (`Splits`).

The cutter finds exactly this element (`heads_iff`), so a text splits in exactly
one way (`splits_iff`).
-/

namespace LoxLexer

def symbols : List (List Char × Kind) :=
  [(['('], .leftParen), ([')'], .rightParen), (['{'], .leftBrace), (['}'], .rightBrace),
    ([','], .comma), (['.'], .dot), (['-'], .minus), (['+'], .plus), ([';'], .semicolon),
    (['*'], .star), (['/'], .slash),
    (['!'], .not), (['!', '='], .notEqual), (['='], .gets), (['=', '='], .equal),
    (['<'], .less), (['<', '='], .lessEqual), (['>'], .greater), (['>', '='], .greaterEqual)]

/-- Whether a beginning of a text is in the class of a form.  Only an open
comment and an open string depend on more than the beginning itself: they take
the whole text, and only if nothing in it closes them. -/
inductive Belongs (text : List Char) : Form → List Char → Prop where
  | blank {c : Char} (hc : c ∈ [' ', '\t', '\r', '\n']) : Belongs text .blank [c]
  | lineComment {body : List Char} (hbody : '\n' ∉ body) :
      Belongs text .lineComment ('/' :: '/' :: body)
  | blockComment {comment : List Char} (hcomment : IsComment comment) :
      Belongs text .blockComment comment
  | openComment {body : List Char} (htext : text = '/' :: '*' :: body)
      (hopen : ∀ comment, comment <+: text → ¬ IsComment comment) :
      Belongs text .openComment text
  | string {inside : List Char} (hinside : '"' ∉ inside) :
      Belongs text .string ('"' :: (inside ++ ['"']))
  | openString {inside : List Char} (htext : text = '"' :: inside) (hinside : '"' ∉ inside) :
      Belongs text .openString text
  | whole {digits : List Char} (hne : digits ≠ []) (hdigits : ∀ c ∈ digits, isDigit c) :
      Belongs text .number digits
  | decimal {whole fraction : List Char} (hwhole : whole ≠ []) (hfraction : fraction ≠ [])
      (hdigits : ∀ c ∈ whole ++ fraction, isDigit c) :
      Belongs text .number (whole ++ '.' :: fraction)
  | word {c : Char} {letters : List Char} (hc : isLetter c)
      (hletters : ∀ d ∈ letters, isWordCharacter d) : Belongs text .word (c :: letters)
  | symbol {piece : List Char} {kind : Kind} (hsymbol : (piece, kind) ∈ symbols) :
      Belongs text (.symbol kind) piece

/-- The first element of a text, by the rule of the longest match. -/
inductive Heads (text : List Char) : Element → Prop where
  | longest {form : Form} {piece : List Char} (hpiece : piece <+: text)
      (hbelongs : Belongs text form piece)
      (hlongest : ∀ other longer, longer <+: text → Belongs text other longer →
        longer.length ≤ piece.length) :
      Heads text ⟨form, piece⟩
  | stray {c : Char} {rest : List Char} (htext : text = c :: rest)
      (hnone : ∀ form piece, piece <+: text → ¬ Belongs text form piece) :
      Heads text ⟨.stray, [c]⟩

/-- A text, and the elements that the longest match cuts it into. -/
inductive Splits : List Char → List Element → Prop where
  | nil : Splits [] []
  | cons {element : Element} {rest : List Char} {elements : List Element}
      (hhead : Heads (element.text ++ rest) element) (hrest : Splits rest elements) :
      Splits (element.text ++ rest) (element :: elements)

theorem Belongs.self {text piece : List Char} {form : Form}
    (hbelongs : Belongs text form piece) : Belongs piece form piece := by
  cases hbelongs with
  | blank hc => exact .blank hc
  | lineComment hbody => exact .lineComment hbody
  | blockComment hcomment => exact .blockComment hcomment
  | openComment htext hopen => exact .openComment htext hopen
  | string hinside => exact .string hinside
  | openString htext hinside => exact .openString htext hinside
  | whole hne hdigits => exact .whole hne hdigits
  | decimal hwhole hfraction hdigits => exact .decimal hwhole hfraction hdigits
  | word hc hletters => exact .word hc hletters
  | symbol hsymbol => exact .symbol hsymbol

theorem mem_symbols_iff {piece : List Char} {kind : Kind} :
    (piece, kind) ∈ symbols ↔
      (∃ c, piece = [c] ∧ (Kind.ofPunctuation? c = some kind ∨
        (Kind.operatorForms? c).map Kind.OperatorForms.bare = some kind ∨
        c = '/' ∧ kind = .slash)) ∨
      (∃ c, piece = [c, '='] ∧
        (Kind.operatorForms? c).map Kind.OperatorForms.withEquals = some kind) := by
  constructor
  · intro hmem
    simp only [symbols, List.mem_cons, Prod.mk.injEq, List.not_mem_nil, or_false] at hmem
    rcases hmem with h | h | h | h | h | h | h | h | h | h | h | h | h | h | h | h | h | h | h <;>
      obtain ⟨rfl, rfl⟩ := h <;> simp [Kind.ofPunctuation?, Kind.operatorForms?]
  · rintro (⟨c, rfl, hkind | hkind | ⟨rfl, rfl⟩⟩ | ⟨c, rfl, hkind⟩)
    · revert hkind
      fun_cases Kind.ofPunctuation? c <;> rintro ⟨⟩ <;> decide
    · revert hkind
      fun_cases Kind.operatorForms? c <;> rintro ⟨⟩ <;> decide
    · decide
    · revert hkind
      fun_cases Kind.operatorForms? c <;> rintro ⟨⟩ <;> decide

theorem Belongs.number_cut {c : Char} (hc : isDigit c) (text : List Char) :
    Belongs (c :: text) (Cut.number c text).element.form
      (Cut.number c text).element.text := by
  have hrun : ∀ d ∈ c :: text.takeWhile isDigit, isDigit d := by
    intro d hd
    rcases List.mem_cons.mp hd with rfl | hd
    · exact hc
    · exact List.mem_takeWhile_imp hd
  fun_cases Cut.number c text with
  | case1 digit rest heq hdigit =>
      have hdigits : ∀ d ∈ c :: text.takeWhile isDigit ++ digit :: rest.takeWhile isDigit,
          isDigit d := by
        intro d hd
        rcases List.mem_append.mp hd with hd | hd
        · exact hrun d hd
        · rcases List.mem_cons.mp hd with rfl | hd
          · exact hdigit
          · exact List.mem_takeWhile_imp hd
      exact .decimal (List.cons_ne_nil _ _) (List.cons_ne_nil _ _) hdigits
  | case2 digit rest heq hdigit => exact .whole (by simp) hrun
  | case3 => exact .whole (by simp) hrun

theorem Belongs.string_cut (text : List Char) :
    Belongs ('"' :: text) (Cut.string text).element.form
      (Cut.string text).element.text := by
  fun_cases Cut.string text with
  | case1 heq => exact .openString rfl (not_mem_of_dropWhile_bne heq)
  | case2 quote rest heq =>
      have hquote : quote = '"' := by
        simpa using eq_false_of_dropWhile_eq_cons heq
      subst hquote
      exact .string (not_mem_takeWhile (by decide))

theorem Belongs.slash_cut (text : List Char) :
    Belongs ('/' :: text) (Cut.slash text).element.form
      (Cut.slash text).element.text := by
  fun_cases Cut.slash text with
  | case1 text => exact .lineComment (not_mem_takeWhile (by decide))
  | case2 text =>
      change Belongs _ (Cut.slash ('*' :: text)).element.form (Cut.slash ('*' :: text)).element.text
      rcases Cut.slash_star_cases text with ⟨body, rest, rfl, hbody, hcut⟩ | ⟨hunclosed, hcut⟩
      · rw [hcut]
        exact .blockComment ⟨body, rfl, hbody⟩
      · rw [hcut]
        refine .openComment rfl ?_
        rintro comment hbegins ⟨body, rfl, hbody⟩
        simp only [List.cons_prefix_cons, true_and] at hbegins
        exact hunclosed body hbegins hbody
  | case3 =>
      have hslash : (['/'], Kind.slash) ∈ symbols := by decide
      exact .symbol hslash

theorem Belongs.operator_cut {c : Char} {forms : Kind.OperatorForms}
    (hforms : Kind.operatorForms? c = some forms) (text : List Char) :
    Belongs (c :: text) (Cut.operator c forms text).element.form
      (Cut.operator c forms text).element.text := by
  fun_cases Cut.operator c forms text with
  | case1 text =>
      exact .symbol (mem_symbols_iff.mpr (.inr ⟨c, rfl, by simp [hforms]⟩))
  | case2 text =>
      exact .symbol (mem_symbols_iff.mpr (.inl ⟨c, rfl, by simp [hforms]⟩))

/-- What the cutter takes off a text is in the class of its form, stray
characters aside. -/
theorem Belongs.first_cut (c : Char) (text : List Char) :
    Belongs (c :: text) (Cut.first c text).element.form (Cut.first c text).element.text ∨
      (Cut.first c text).element = ⟨.stray, [c]⟩ := by
  fun_cases Cut.first c text with
  | case1 kind hkind => exact .inl (.symbol (mem_symbols_iff.mpr (.inl ⟨c, rfl, .inl hkind⟩)))
  | case2 forms hforms => exact .inl (.operator_cut hforms text)
  | case3 _ _ hdigit => exact .inl (.number_cut hdigit text)
  | case4 _ _ _ hletter =>
      exact .inl (.word hletter fun d hd => List.mem_takeWhile_imp hd)
  | case5 _ _ _ _ hquote =>
      subst hquote
      exact .inl (.string_cut text)
  | case6 _ _ _ _ _ hslash =>
      subst hslash
      exact .inl (.slash_cut text)
  | case7 _ _ _ _ _ _ hblank => exact .inl (.blank (isBlank_iff.mp hblank))
  | case8 => exact .inr rfl

/-- An element is at least as long as a piece of the same text, and is the piece
if they are of one length. -/
def Element.Covers (element : Element) (form : Form) (piece : List Char) : Prop :=
  element = ⟨form, piece⟩ ∨ piece.length < element.text.length

theorem Element.covers_of_prefix {element : Element} {form : Form} {piece : List Char}
    (hform : element.form = form) (hpiece : piece <+: element.text) :
    element.Covers form piece := by
  rcases hpiece.length_le.lt_or_eq with hlt | heq
  · exact .inr hlt
  · obtain ⟨_, text⟩ := element
    exact .inl (congrArg₂ Element.mk hform (hpiece.eq_of_length heq).symm)

theorem Element.covers_self {form : Form} {piece : List Char} :
    Element.Covers ⟨form, piece⟩ form piece :=
  .inl rfl

theorem Cut.number_form (c : Char) (text : List Char) :
    (number c text).element.form = .number := by
  fun_cases number c text <;> rfl

theorem Cut.takeWhile_prefix_number (c : Char) (text : List Char) :
    c :: text.takeWhile isDigit <+: (number c text).element.text := by
  fun_cases number c text with
  | case1 digit rest => exact List.prefix_append (c :: text.takeWhile isDigit) _
  | case2 => exact List.prefix_rfl
  | case3 => exact List.prefix_rfl

theorem Cut.number_of_decimal {c digit : Char} {whole rest : List Char}
    (hwhole : ∀ d ∈ whole, isDigit d) (hdigit : isDigit digit) :
    number c (whole ++ '.' :: digit :: rest) =
      ⟨⟨.number, c :: (whole ++ '.' :: digit :: rest.takeWhile isDigit)⟩,
        rest.dropWhile isDigit⟩ := by
  have hpoint : ∀ x ∈ ('.' :: digit :: rest).head?, isDigit x = false := by
    rintro x ⟨⟩
    decide
  rw [number, dropWhile_eq_of_append hwhole hpoint, takeWhile_eq_of_append hwhole hpoint]
  simp [hdigit]

theorem Cut.string_of_closed {inside : List Char} (hinside : '"' ∉ inside)
    (rest : List Char) :
    string (inside ++ '"' :: rest) = ⟨⟨.string, '"' :: (inside ++ ['"'])⟩, rest⟩ := by
  have hstretch := bne_of_not_mem hinside
  have hquote : ∀ c ∈ ('"' :: rest).head?, (c != '"') = false := by
    rintro c ⟨⟩
    decide
  rw [string, dropWhile_eq_of_append hstretch hquote, takeWhile_eq_of_append hstretch hquote]

theorem Cut.string_of_unclosed {inside : List Char} (hinside : '"' ∉ inside) :
    string inside = ⟨⟨.openString, '"' :: inside⟩, []⟩ := by
  rw [string, dropWhile_bne_of_not_mem hinside]

theorem Cut.covers_number {c : Char} {text piece : List Char} (hpiece : piece <+: c :: text)
    (hnumber : Belongs (c :: text) .number piece) :
    (first c text).element.Covers .number piece := by
  cases hnumber with
  | whole hne hdigits =>
      cases piece with
      | nil => exact absurd rfl hne
      | cons d digits =>
          obtain ⟨rfl, hdigitsPrefix⟩ := List.cons_prefix_cons.mp hpiece
          rw [first_of_isDigit (hdigits d List.mem_cons_self)]
          have hrun : digits <+: text.takeWhile isDigit :=
            prefix_takeWhile hdigitsPrefix fun x hx => hdigits x (List.mem_cons_of_mem _ hx)
          exact Element.covers_of_prefix (number_form d text)
            ((List.cons_prefix_cons.mpr ⟨rfl, hrun⟩).trans (takeWhile_prefix_number d text))
  | @decimal whole fraction hwhole hfraction hdigits =>
      cases whole with
      | nil => exact absurd rfl hwhole
      | cons d whole =>
          cases fraction with
          | nil => exact absurd rfl hfraction
          | cons digit fraction =>
              rw [List.cons_append, List.cons_prefix_cons] at hpiece
              obtain ⟨rfl, rest, rfl⟩ := hpiece
              have hsplit : whole ++ '.' :: digit :: fraction ++ rest =
                  whole ++ '.' :: digit :: (fraction ++ rest) := by simp
              rw [hsplit, first_of_isDigit (hdigits d (by simp)),
                number_of_decimal (fun x hx => hdigits x (by simp [hx])) (hdigits digit (by simp))]
              refine Element.covers_of_prefix rfl ?_
              have hrun : fraction <+: (fraction ++ rest).takeWhile isDigit :=
                prefix_takeWhile (List.prefix_append _ _) fun x hx => hdigits x (by simp [hx])
              obtain ⟨more, hmore⟩ := hrun
              exact ⟨more, by simp [← hmore]⟩

theorem Cut.covers_symbol {c : Char} {text piece : List Char} {kind : Kind}
    (hpiece : piece <+: c :: text) (hsymbol : (piece, kind) ∈ symbols) :
    (first c text).element.Covers (.symbol kind) piece := by
  rcases mem_symbols_iff.mp hsymbol with ⟨d, rfl, hkind⟩ | ⟨d, rfl, hkind⟩
  · obtain ⟨rfl, -⟩ := List.cons_prefix_cons.mp hpiece
    rcases hkind with hkind | hkind | ⟨rfl, rfl⟩
    · rw [first_of_ofPunctuation? hkind]
      exact Element.covers_self
    · obtain ⟨forms, hforms, rfl⟩ := Option.map_eq_some_iff.mp hkind
      rw [first_of_operatorForms? hforms]
      fun_cases operator d forms text with
      | case1 => exact .inr (by simp)
      | case2 => exact Element.covers_self
    · rw [first_slash]
      cases text with
      | nil => exact Element.covers_self
      | cons next text =>
          by_cases hline : next = '/'
          · subst hline
            exact .inr (by simp [slash])
          by_cases hblock : next = '*'
          · subst hblock
            rcases slash_star_cases text with ⟨body, rest, rfl, hbody, hcut⟩ | ⟨-, hcut⟩
            · exact .inr (by simp [hcut])
            · exact .inr (by simp [hcut])
          · rw [slash]
            · exact Element.covers_self
            · rintro tail ⟨⟩
              exact hline rfl
            · rintro tail ⟨⟩
              exact hblock rfl
  · obtain ⟨forms, hforms, rfl⟩ := Option.map_eq_some_iff.mp hkind
    obtain ⟨rfl, rest, rfl⟩ := List.cons_prefix_cons.mp hpiece
    rw [first_of_operatorForms? hforms]
    exact Element.covers_self

/-- No beginning of a text that is in a class is longer than what the cutter
takes, and none of the same length is in another class. -/
theorem Cut.covers_of_belongs {c : Char} {text piece : List Char} {form : Form}
    (hpiece : piece <+: c :: text) (hbelongs : Belongs (c :: text) form piece) :
    (first c text).element.Covers form piece := by
  cases hbelongs with
  | @blank d hd =>
      obtain ⟨rfl, -⟩ := List.cons_prefix_cons.mp hpiece
      rw [first_of_isBlank (isBlank_iff.mpr hd)]
      exact Element.covers_self
  | @lineComment body hbody =>
      obtain ⟨rfl, rest, rfl⟩ := List.cons_prefix_cons.mp hpiece
      rw [first_slash, List.cons_append, slash]
      refine Element.covers_of_prefix rfl ?_
      have hrun : body <+: (body ++ rest).takeWhile (· != '\n') :=
        prefix_takeWhile (List.prefix_append _ _) (bne_of_not_mem hbody)
      exact List.cons_prefix_cons.mpr ⟨rfl, List.cons_prefix_cons.mpr ⟨rfl, hrun⟩⟩
  | blockComment hcomment =>
      obtain ⟨body, rfl, hbody⟩ := hcomment
      obtain ⟨rfl, rest, rfl⟩ := List.cons_prefix_cons.mp hpiece
      rw [first_slash, List.cons_append, slash_of_commentBody hbody]
      exact Element.covers_self
  | @openComment body htext hopen =>
      obtain ⟨rfl, rfl⟩ := List.cons.inj htext
      rw [first_slash, slash_of_unclosed fun inner => not_commentBody_of_open hopen]
      exact Element.covers_self
  | @string inside hinside =>
      obtain ⟨rfl, rest, rfl⟩ := List.cons_prefix_cons.mp hpiece
      rw [first_quote, List.append_assoc, List.singleton_append, string_of_closed hinside]
      exact Element.covers_self
  | @openString inside htext hinside =>
      obtain ⟨rfl, rfl⟩ := List.cons.inj htext
      rw [first_quote, string_of_unclosed hinside]
      exact Element.covers_self
  | whole hne hdigits => exact covers_number hpiece (.whole hne hdigits)
  | decimal hwhole hfraction hdigits =>
      exact covers_number hpiece (.decimal hwhole hfraction hdigits)
  | @word d letters hd hletters =>
      obtain ⟨rfl, hlettersPrefix⟩ := List.cons_prefix_cons.mp hpiece
      rw [first_of_isLetter hd]
      exact Element.covers_of_prefix rfl
        (List.cons_prefix_cons.mpr ⟨rfl, prefix_takeWhile hlettersPrefix hletters⟩)
  | symbol hsymbol => exact covers_symbol hpiece hsymbol

theorem Belongs.length_pos {text piece : List Char} {form : Form}
    (hbelongs : Belongs text form piece) : 0 < piece.length := by
  cases hbelongs with
  | blockComment hcomment =>
      obtain ⟨body, rfl, -⟩ := hcomment
      simp
  | openComment htext => simp [htext]
  | openString htext => simp [htext]
  | whole hne => exact List.length_pos_iff.mpr hne
  | symbol hsymbol =>
      rcases mem_symbols_iff.mp hsymbol with ⟨d, rfl, -⟩ | ⟨d, rfl, -⟩ <;> simp
  | decimal =>
      simp only [List.length_append, List.length_cons]
      omega
  | _ => simp

theorem Belongs.form_ne_stray {text piece : List Char} {form : Form}
    (hbelongs : Belongs text form piece) : form ≠ .stray := by
  cases hbelongs <;> simp

/-- Nothing follows a string that is open. -/
theorem Belongs.rest_eq_nil {piece rest : List Char}
    (hbelongs : Belongs (piece ++ rest) .openString piece) : rest = [] := by
  generalize htext : piece ++ rest = text at hbelongs
  cases hbelongs
  exact List.append_right_eq_self.mp htext

/-- The longest match finds what the cutter takes, and nothing else. -/
theorem heads_iff {c : Char} {text : List Char} {element : Element} :
    Heads (c :: text) element ↔ element = (Cut.first c text).element := by
  constructor
  · intro hheads
    cases hheads with
    | @longest form piece hpiece hbelongs hlongest =>
        rcases Cut.covers_of_belongs hpiece hbelongs with hcut | hlt
        · exact hcut.symm
        · rcases Belongs.first_cut c text with hcut | hcut
          · have hbegins : (Cut.first c text).element.text <+: c :: text :=
              ⟨_, Cut.text_append_rest c text⟩
            exact absurd (hlongest _ _ hbegins hcut) (Nat.not_le_of_lt hlt)
          · have hpos := hbelongs.length_pos
            rw [hcut] at hlt
            simp only [List.length_singleton] at hlt
            omega
    | stray htext hnone =>
        obtain ⟨rfl, rfl⟩ := List.cons.inj htext
        rcases Belongs.first_cut c text with hcut | hcut
        · exact absurd hcut (hnone _ _ ⟨_, Cut.text_append_rest c text⟩)
        · exact hcut.symm
  · rintro rfl
    rcases Belongs.first_cut c text with hcut | hcut
    · refine .longest ⟨_, Cut.text_append_rest c text⟩ hcut ?_
      intro other longer hlonger hbelongs
      rcases Cut.covers_of_belongs hlonger hbelongs with hsame | hlt
      · exact (congrArg (fun element : Element => element.text.length) hsame).ge
      · exact hlt.le
    · rw [hcut]
      refine .stray rfl ?_
      intro form piece hpiece hbelongs
      rcases Cut.covers_of_belongs hpiece hbelongs with hsame | hlt
      · rw [hcut] at hsame
        exact hbelongs.form_ne_stray (congrArg Element.form hsame).symm
      · have hpos := hbelongs.length_pos
        rw [hcut] at hlt
        simp only [List.length_singleton] at hlt
        omega

/-- A text splits into its elements, and in no other way. -/
theorem splits_iff {text : List Char} {row : List Element} :
    Splits text row ↔ row = elements text := by
  constructor
  · intro hsplits
    induction hsplits with
    | nil => simp
    | @cons element rest row hhead _ ih =>
        cases htext : element.text ++ rest with
        | nil =>
            rw [htext] at hhead
            cases hhead with
            | longest hpiece hbelongs =>
                have hpos := hbelongs.length_pos
                simp [List.prefix_nil.mp hpiece] at hpos
            | stray htext => simp at htext
        | cons c text =>
            rw [htext, heads_iff] at hhead
            have hcut := Cut.text_append_rest c text
            rw [← hhead, ← htext, List.append_cancel_left_eq] at hcut
            rw [elements_cons, ← hhead, hcut, ih]
  · rintro rfl
    induction hlength : text.length using Nat.strongRecOn generalizing text with
    | ind length ih =>
        cases text with
        | nil =>
            rw [elements_nil]
            exact .nil
        | cons c text =>
            have hrest := Cut.length_rest_le c text
            have hlt : (Cut.first c text).rest.length < length := by
              simp only [List.length_cons] at hlength
              omega
            have hhead : Heads (c :: text) (Cut.first c text).element := heads_iff.mpr rfl
            have htext := Cut.text_append_rest c text
            rw [elements_cons, ← htext]
            rw [← htext] at hhead
            exact .cons hhead (ih _ hlt rfl)

theorem Splits.flatMap_text {text : List Char} {row : List Element} (hsplits : Splits text row) :
    row.flatMap Element.text = text := by
  rw [splits_iff.mp hsplits, flatMap_text_elements]

end LoxLexer
