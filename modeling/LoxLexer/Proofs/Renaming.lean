import LoxLexer.Proofs.Boundary
import LoxLexer.Proofs.Listing
import LoxLexer.Proofs.Locating

/-!
# Characters without lexical meaning

The characters that the grammar names are structural.  A renaming leaves them as they are
and puts other characters of the same length in place of the rest (`Renames`).  No class of
characters that the cutter asks for holds anything that is not structural, so its questions
have the same answers before and after a renaming (`Renames.apply_eq`), and a renamed text
is cut where the text was (`Renames.first_map`, `Renames.elements_map`).

The elements stay in their places (`Renames.place_map`).  What they come to is renamed with
them (`Renames.finding_rename`): words, numbers and symbols have no character to be renamed,
a string is renamed inside, and a stray character in the message about it.
-/

namespace LoxLexer

/-- The characters that mean something to a scan, wherever they stand. -/
def isStructural (c : Char) : Bool :=
  isLetter c || isDigit c ||
    ['"', '/', '(', ')', '{', '}', ',', '.', '-', '+', ';', '*', '!', '=', '<', '>',
      ' ', '\t', '\r', '\n'].contains c

/-- A map that keeps structural characters, the length of all others, and that they are
not structural. -/
structure Renames (f : Char → Char) : Prop where
  apply_of_structural : ∀ c, isStructural c = true → f c = c
  isStructural_apply : ∀ c, isStructural c = false → isStructural (f c) = false
  utf8Size_apply : ∀ c, isStructural c = false → (f c).utf8Size = c.utf8Size

def Literal.rename (f : Char → Char) : Literal → Literal
  | .text value => .text (value.map f)
  | .number value => .number value

/-- A token with its text renamed, and the value of a string with it. -/
def Token.rename (f : Char → Char) (token : Token) : Token :=
  { token with
    lexeme := token.lexeme.map f
    literal := token.literal.map (Literal.rename f) }

/-- A diagnostic, and the one that stands in its place once the character that it reports
has been renamed. -/
inductive Diagnostic.RenamedTo (f : Char → Char) : Diagnostic → Diagnostic → Prop where
  | unexpectedCharacter (line : UInt32) (span : Option Span) (c : Char) :
      RenamedTo f
        ⟨line, span, "Unexpected character: " ++ String.singleton c, 1001, .error⟩
        ⟨line, span, "Unexpected character: " ++ String.singleton (f c), 1001, .error⟩
  | unterminatedString (line : UInt32) (span : Option Span) :
      RenamedTo f ⟨line, span, "Unterminated string.", 1002, .error⟩
        ⟨line, span, "Unterminated string.", 1002, .error⟩

structure Scan.RenamedTo (f : Char → Char) (found renamed : Scan) : Prop where
  tokens_eq : renamed.tokens = found.tokens.map (Token.rename f)
  diagnostics : List.Forall₂ (Diagnostic.RenamedTo f) found.diagnostics renamed.diagnostics

/-- What an element comes to, and what its renamed element comes to. -/
inductive Finding.RenamedTo (f : Char → Char) : Finding → Finding → Prop where
  | nothing : RenamedTo f .nothing .nothing
  | token (token : Token) : RenamedTo f (.token token) (.token (token.rename f))
  | diagnostic {diagnostic renamed : Diagnostic} (hrenamed : diagnostic.RenamedTo f renamed) :
      RenamedTo f (.diagnostic diagnostic) (.diagnostic renamed)

def Element.rename (f : Char → Char) (element : Element) : Element :=
  ⟨element.form, element.text.map f⟩

def Cut.rename (f : Char → Char) (cut : Cut) : Cut :=
  ⟨cut.element.rename f, cut.rest.map f⟩

def Placed.rename (f : Char → Char) (placed : Placed) : Placed :=
  ⟨placed.element.rename f, placed.start, placed.line⟩

theorem Finding.RenamedTo.of_same {f : Char → Char} {token : Token}
    (hlexeme : token.lexeme.map f = token.lexeme)
    (hliteral : token.literal.map (Literal.rename f) = token.literal) :
    Finding.RenamedTo f (.token token) (.token token) := by
  have hrenamed := Finding.RenamedTo.token (f := f) token
  rwa [Token.rename, hlexeme, hliteral] at hrenamed

theorem ofMessage_unexpectedCharacter (line : UInt32) (c : Char) (span : Option Span) :
    Diagnostic.ofMessage line .unexpectedCharacter [String.singleton c] span =
      ⟨line, span, "Unexpected character: " ++ String.singleton c, 1001, .error⟩ := by
  rw [Diagnostic.ofMessage, fill_unexpectedCharacter]
  rfl

theorem takeWhile_map_of_same {f : Char → Char} {p : Char → Bool}
    (hp : ∀ c, p (f c) = p c) (text : List Char) :
    (text.map f).takeWhile p = (text.takeWhile p).map f := by
  have hcomp : p ∘ f = p := funext hp
  rw [List.takeWhile_map, hcomp]

theorem dropWhile_map_of_same {f : Char → Char} {p : Char → Bool}
    (hp : ∀ c, p (f c) = p c) (text : List Char) :
    (text.map f).dropWhile p = (text.dropWhile p).map f := by
  have hcomp : p ∘ f = p := funext hp
  rw [List.dropWhile_map, hcomp]

/-- Numbers and words have no other characters. -/
theorem isStructural_of_mem {form : Form} {text : List Char} (hsound : Element.Sound ⟨form, text⟩)
    (hform : form = .number ∨ form = .word) : ∀ c ∈ text, isStructural c := by
  obtain ⟨rest, hbelongs⟩ := hsound.belongs (by rcases hform with rfl | rfl <;> nofun)
  intro c hc
  rcases hform with rfl | rfl
  · by_cases hdigit : isDigit c
    · simp [isStructural, hdigit]
    · have hpoint : c = '.' := by
        by_contra hne
        exact not_mem_of_number hbelongs (by simpa using hdigit) hne hc
      rw [hpoint]
      decide
  · have hword : isWordCharacter c := by
      cases hbelongs with
      | word hfirst hletters =>
          rcases List.mem_cons.mp hc with rfl | hmem
          · exact isWordCharacter_of_isLetter hfirst
          · exact hletters c hmem
    rw [isStructural]
    rw [isWordCharacter] at hword
    rw [hword, Bool.true_or]

namespace Renames

variable {f : Char → Char} (hf : Renames f)

include hf

/-- A question with one answer for all that is not structural is answered the same way
for a renamed character. -/
theorem apply_eq {α : Type} {g : Char → α} {value : α}
    (hg : ∀ c, isStructural c = false → g c = value) (c : Char) : g (f c) = g c := by
  cases hc : isStructural c with
  | false => rw [hg c hc, hg (f c) (hf.isStructural_apply c hc)]
  | true => rw [hf.apply_of_structural c hc]

theorem test_apply {p : Char → Bool} (hp : ∀ c, p c → isStructural c) (c : Char) :
    p (f c) = p c := by
  have hfalse : ∀ c, isStructural c = false → p c = false := by
    intro c hc
    by_contra htrue
    rw [hp c (by simpa using htrue)] at hc
    cases hc
  exact hf.apply_eq hfalse c

theorem apply_eq_iff {d : Char} (hd : isStructural d) {c : Char} : f c = d ↔ c = d := by
  have hp : ∀ c, (c == d) = true → isStructural c := by
    intro c hc
    rwa [beq_iff_eq.mp hc]
  have htest : (f c == d) = (c == d) := hf.test_apply hp c
  rw [← beq_iff_eq, htest, beq_iff_eq]

theorem isDigit_apply (c : Char) : isDigit (f c) = isDigit c := by
  apply hf.test_apply
  intro c hc
  simp [isStructural, hc]

theorem isLetter_apply (c : Char) : isLetter (f c) = isLetter c := by
  apply hf.test_apply
  intro c hc
  simp [isStructural, hc]

theorem isWordCharacter_apply (c : Char) : isWordCharacter (f c) = isWordCharacter c := by
  rw [isWordCharacter, isWordCharacter, hf.isLetter_apply, hf.isDigit_apply]

theorem isBlank_apply (c : Char) : isBlank (f c) = isBlank c := by
  apply hf.test_apply
  intro c hc
  rw [isBlank_iff] at hc
  simp only [List.mem_cons, List.not_mem_nil, or_false] at hc
  rcases hc with rfl | rfl | rfl | rfl <;> decide

theorem bne_apply {d : Char} (hd : isStructural d) (c : Char) : (f c != d) = (c != d) := by
  rw [Bool.eq_iff_iff, bne_iff_ne, bne_iff_ne]
  exact not_congr (hf.apply_eq_iff hd)

theorem ofPunctuation?_apply (c : Char) : Kind.ofPunctuation? (f c) = Kind.ofPunctuation? c := by
  have hnone : ∀ c, isStructural c = false → Kind.ofPunctuation? c = none := by
    intro c hc
    fun_cases Kind.ofPunctuation? c with
    | case11 => rfl
    | _ => exact absurd hc (by decide)
  exact hf.apply_eq hnone c

theorem operatorForms?_apply (c : Char) : Kind.operatorForms? (f c) = Kind.operatorForms? c := by
  have hnone : ∀ c, isStructural c = false → Kind.operatorForms? c = none := by
    intro c hc
    fun_cases Kind.operatorForms? c with
    | case5 => rfl
    | _ => exact absurd hc (by decide)
  exact hf.apply_eq hnone c

/-! ## Where a renamed text is cut -/

theorem prefix_map_iff {mark : List Char} (hmark : mark.all isStructural = true)
    {text : List Char} : mark <+: text.map f ↔ mark <+: text := by
  induction mark generalizing text with
  | nil => simp
  | cons d mark ih =>
      rw [List.all_cons, Bool.and_eq_true] at hmark
      cases text with
      | nil => simp
      | cons c text =>
          rw [List.map_cons, List.cons_prefix_cons, List.cons_prefix_cons, eq_comm,
            hf.apply_eq_iff hmark.1, ih hmark.2, eq_comm]

theorem not_prefix_map {d : Char} (hd : isStructural d) {text : List Char}
    (hnone : ∀ rest, text = d :: rest → False) : ¬ [d] <+: text.map f := by
  rw [hf.prefix_map_iff (by simpa using hd)]
  rintro ⟨rest, hrest⟩
  exact hnone rest hrest.symm

theorem number_map (c : Char) (text : List Char) :
    Cut.number (f c) (text.map f) = (Cut.number c text).rename f := by
  have hpoint : f '.' = '.' := hf.apply_of_structural '.' (by decide)
  have hdrop := dropWhile_map_of_same hf.isDigit_apply text
  have htake := takeWhile_map_of_same hf.isDigit_apply text
  fun_cases Cut.number c text with
  | case1 digit rest heq hdigit =>
      rw [heq, List.map_cons, List.map_cons, hpoint] at hdrop
      simp [Cut.number, hdrop, htake, hf.isDigit_apply, hdigit, Cut.rename, Element.rename, hpoint,
        takeWhile_map_of_same hf.isDigit_apply, dropWhile_map_of_same hf.isDigit_apply]
  | case2 digit rest heq hdigit =>
      rw [heq, List.map_cons, List.map_cons, hpoint] at hdrop
      simp [Cut.number, hdrop, htake, hf.isDigit_apply, hdigit, Cut.rename, Element.rename, hpoint]
  | case3 hnone =>
      rw [Cut.number, hdrop, htake]
      split
      · rename_i digit rest heq
        obtain ⟨point, after, htext, hc, hafter⟩ := List.map_eq_cons_iff.mp heq
        obtain ⟨second, more, rfl, -, -⟩ := List.map_eq_cons_iff.mp hafter
        obtain rfl := (hf.apply_eq_iff (by decide)).mp hc
        exact absurd htext (hnone second more)
      · rfl

theorem string_map (text : List Char) :
    Cut.string (text.map f) = (Cut.string text).rename f := by
  have hquote : f '"' = '"' := hf.apply_of_structural '"' (by decide)
  have htest := hf.bne_apply (d := '"') (by decide)
  have hdrop := dropWhile_map_of_same (p := (· != '"')) htest text
  have htake := takeWhile_map_of_same (p := (· != '"')) htest text
  fun_cases Cut.string text with
  | case1 heq =>
      rw [heq, List.map_nil] at hdrop
      simp [Cut.string, hdrop, Cut.rename, Element.rename, hquote]
  | case2 quote rest heq =>
      rw [heq, List.map_cons] at hdrop
      simp [Cut.string, hdrop, Cut.rename, Element.rename, hquote, htake]

theorem comment_map (outer : Nat) (seen text : List Char) :
    Cut.comment outer (seen.map f) (text.map f) = (Cut.comment outer seen text).rename f := by
  have hstar : f '*' = '*' := hf.apply_of_structural '*' (by decide)
  have hslash : f '/' = '/' := hf.apply_of_structural '/' (by decide)
  fun_induction Cut.comment outer seen text with
  | case1 => simp [Cut.comment, Cut.rename, Element.rename]
  | case2 => simp [Cut.comment, Cut.rename, Element.rename, hstar, hslash]
  | case3 => simp_all [Cut.comment]
  | case4 => simp_all [Cut.comment]
  | case5 outer seen c text hclose hopen ih =>
      have hnotClose : ¬ ['*', '/'] <+: (c :: text).map f := by
        rw [hf.prefix_map_iff (by decide)]
        rintro ⟨rest, heq⟩
        cases heq
        exact hclose rest rfl rfl
      have hnotOpen : ¬ ['/', '*'] <+: (c :: text).map f := by
        rw [hf.prefix_map_iff (by decide)]
        rintro ⟨rest, heq⟩
        cases heq
        exact hopen rest rfl rfl
      rw [List.map_cons] at hnotClose hnotOpen ⊢
      rw [Cut.comment_cons_of_not_mark outer _ hnotClose hnotOpen, ← List.map_cons, ih]

theorem slash_map (text : List Char) :
    Cut.slash (text.map f) = (Cut.slash text).rename f := by
  have hstar : f '*' = '*' := hf.apply_of_structural '*' (by decide)
  have hslash : f '/' = '/' := hf.apply_of_structural '/' (by decide)
  have htest := hf.bne_apply (d := '\n') (by decide)
  fun_cases Cut.slash text with
  | case1 text =>
      simp [Cut.slash, Cut.rename, Element.rename, hslash,
        takeWhile_map_of_same (p := (· != '\n')) htest,
        dropWhile_map_of_same (p := (· != '\n')) htest]
  | case2 text =>
      have hcomment := hf.comment_map 0 ['*', '/'] text
      rw [List.map_cons, List.map_cons, List.map_nil, hstar, hslash] at hcomment
      rw [List.map_cons, hstar, Cut.slash, hcomment]
  | case3 text hline hblock =>
      rw [Cut.slash_of_symbol (hf.not_prefix_map (by decide) hline)
        (hf.not_prefix_map (by decide) hblock)]
      simp [Cut.rename, Element.rename, hslash]

theorem operator_map (c : Char) (forms : Kind.OperatorForms) (text : List Char) :
    Cut.operator (f c) forms (text.map f) = (Cut.operator c forms text).rename f := by
  have hequals : f '=' = '=' := hf.apply_of_structural '=' (by decide)
  fun_cases Cut.operator c forms text with
  | case1 text => simp [Cut.operator, Cut.rename, Element.rename, hequals]
  | case2 text hnone =>
      rw [Cut.operator_of_bare (hf.not_prefix_map (by decide) hnone)]
      rfl

theorem word_map (c : Char) (text : List Char) :
    Cut.word (f c) (text.map f) = (Cut.word c text).rename f := by
  rw [Cut.word, takeWhile_map_of_same hf.isWordCharacter_apply,
    dropWhile_map_of_same hf.isWordCharacter_apply]
  rfl

/-- The cutter takes the renamed element off a renamed text. -/
theorem first_map (c : Char) (text : List Char) :
    Cut.first (f c) (text.map f) = (Cut.first c text).rename f := by
  have hquote : f c = '"' ↔ c = '"' := hf.apply_eq_iff (by decide)
  have hslash : f c = '/' ↔ c = '/' := hf.apply_eq_iff (by decide)
  have hsingle : ∀ form, (⟨⟨form, [f c]⟩, text.map f⟩ : Cut) = Cut.rename f ⟨⟨form, [c]⟩, text⟩ :=
    fun _ => rfl
  unfold Cut.first
  rw [hf.ofPunctuation?_apply, hf.operatorForms?_apply, hf.isDigit_apply, hf.isLetter_apply,
    hf.isBlank_apply]
  -- The same branch is taken for both characters.
  simp only [hquote, hslash, hsingle, hf.operator_map, hf.number_map, hf.word_map, hf.string_map,
    hf.slash_map]
  split
  · rfl
  · rfl
  · split_ifs <;> rfl

theorem elements_map (text : List Char) :
    elements (text.map f) = (elements text).map (Element.rename f) := by
  induction hlength : text.length using Nat.strongRecOn generalizing text with
  | ind length ih =>
      subst hlength
      cases text with
      | nil => simp
      | cons c text =>
          have hlt := Nat.lt_succ_of_le (Cut.length_rest_le c text)
          rw [List.map_cons, elements_cons, hf.first_map, elements_cons, List.map_cons]
          exact congrArg _ (ih _ hlt _ rfl)

theorem utf8Size_apply_eq (c : Char) : (f c).utf8Size = c.utf8Size := by
  cases hc : isStructural c with
  | false => exact hf.utf8Size_apply c hc
  | true => rw [hf.apply_of_structural c hc]

theorem byteLength_map (text : List Char) : byteLength (text.map f) = byteLength text := by
  induction text with
  | nil => rfl
  | cons c text ih =>
      rw [List.map_cons, byteLength_cons, byteLength_cons, hf.utf8Size_apply_eq, ih]

theorem lineFeeds_map (text : List Char) : lineFeeds (text.map f) = lineFeeds text := by
  have htest : (fun c => f c == '\n') = (· == '\n') := by
    funext c
    rw [Bool.eq_iff_iff, beq_iff_eq, beq_iff_eq]
    exact hf.apply_eq_iff (by decide)
  rw [lineFeeds, lineFeeds, List.count, List.countP_map]
  exact congrFun (congrArg List.countP htest) text

theorem place_map (offset line : Nat) (row : List Element) :
    place offset line (row.map (Element.rename f)) =
      (place offset line row).map (Placed.rename f) := by
  induction row generalizing offset line with
  | nil => rfl
  | cons element row ih =>
      have hbytes : byteLength (element.rename f).text = byteLength element.text :=
        hf.byteLength_map element.text
      have hfeeds : lineFeeds (element.rename f).text = lineFeeds element.text :=
        hf.lineFeeds_map element.text
      rw [List.map_cons, place_cons, place_cons, List.map_cons, hbytes, hfeeds, ih]
      rfl

theorem placedElements_map (text : List Char) :
    placedElements (text.map f) = (placedElements text).map (Placed.rename f) := by
  rw [placedElements, hf.elements_map, hf.place_map]
  rfl

theorem map_eq_self {text : List Char} (htext : ∀ c ∈ text, isStructural c) :
    text.map f = text := by
  rw [List.map_congr_left fun c hc => hf.apply_of_structural c (htext c hc), List.map_id']

theorem finding_rename {element : Element} (hsound : element.Sound) (line lastLine : UInt32)
    (span : Span) :
    (element.finding line lastLine span).RenamedTo f
      ((element.rename f).finding line lastLine span) := by
  have hmap : ∀ text : List Char, String.ofList (text.map f) = (String.ofList text).map f := by
    intro text
    rw [← String.toList_inj, String.toList_map, String.toList_ofList, String.toList_ofList]
  obtain ⟨form, text⟩ := element
  cases form with
  | blank | lineComment | blockComment | openComment => exact .nothing
  | string =>
      have hinside : ((text.map f).drop 1).dropLast = ((text.drop 1).dropLast).map f := by
        rw [List.map_dropLast, List.map_drop]
      simp only [Element.finding, Element.rename, hinside, hmap]
      exact .token _
  | number | word =>
      -- Kind and value are read off a text that a renaming leaves as it is.
      have hsame := hf.map_eq_self (isStructural_of_mem hsound (by simp))
      have hlexeme := hmap text
      rw [hsame] at hlexeme
      rw [Element.rename, hsame]
      exact .of_same hlexeme.symm rfl
  | symbol kind =>
      simp only [Element.finding, Element.rename, hmap]
      exact .token _
  | openString => exact .diagnostic (.unterminatedString lastLine (some span))
  | stray =>
      obtain ⟨c, rfl⟩ := hsound.stray
      simp only [Element.finding, Element.rename, List.map_cons, List.map_nil,
        ← String.singleton_eq_ofList, ofMessage_unexpectedCharacter]
      exact .diagnostic (.unexpectedCharacter line (some span) c)

theorem outcome_rename {placed : Placed} (hsound : placed.element.Sound) :
    placed.outcome.RenamedTo f (placed.rename f).outcome := by
  have hstop : (placed.rename f).stop = placed.stop :=
    congrArg (placed.start + ·) (hf.byteLength_map placed.element.text)
  have hlastLine : (placed.rename f).lastLine = placed.lastLine :=
    congrArg (placed.line + ·) (hf.lineFeeds_map placed.element.text)
  have hspan : (placed.rename f).span = placed.span := by
    rw [Placed.span, hstop]
    rfl
  rw [Placed.outcome, Placed.outcome, hspan, hlastLine]
  exact hf.finding_rename hsound _ _ _

theorem forall₂_outcomes (text : List Char) :
    List.Forall₂ (Finding.RenamedTo f) ((placedElements text).map Placed.outcome)
      ((placedElements (text.map f)).map Placed.outcome) := by
  rw [hf.placedElements_map, List.map_map, List.forall₂_map_left_iff, List.forall₂_map_right_iff,
    List.forall₂_same]
  exact fun placed hmem => hf.outcome_rename (sound_of_mem_placedElements hmem)

theorem tokensOf_map (source : String) :
    tokensOf (source.map f) = (tokensOf source).map (Token.rename f) := by
  have htokens : List.Forall₂ (fun token renamed => Token.rename f token = renamed)
      (tokensOf source) (tokensOf (source.map f)) := by
    rw [tokensOf, tokensOf, String.toList_map]
    refine List.rel_filterMap ?_ (hf.forall₂_outcomes source.toList)
    intro finding renamed hrenamed
    cases hrenamed with
    | nothing | diagnostic => exact .none
    | token => exact .some rfl
  rw [← List.forall₂_map_left_iff, List.forall₂_eq_eq_eq] at htokens
  exact htokens.symm

theorem endOf_map (source : String) : endOf (source.map f) = (endOf source).rename f := by
  have hempty : "".map f = "" := by
    rw [← String.toList_inj, String.toList_map]
    rfl
  rw [endOf, endOf, String.toList_map, hf.byteLength_map, hf.lineFeeds_map, Token.rename,
    Token.endOfText, hempty]
  rfl

theorem boundedScan_map (source : String) :
    (boundedScan source).RenamedTo f (boundedScan (source.map f)) := by
  constructor
  case tokens_eq =>
    rw [tokens_boundedScan, tokens_boundedScan, hf.tokensOf_map, hf.endOf_map, List.map_append,
      List.map_singleton]
  case diagnostics =>
    rw [boundedScan, boundedScan, String.toList_map]
    refine List.rel_filterMap ?_ (hf.forall₂_outcomes source.toList)
    intro finding renamed hrenamed
    cases hrenamed with
    | nothing | token => exact .none
    | diagnostic hdiagnostic => exact .some hdiagnostic

end Renames

/-- Characters without lexical meaning are only passed on: where they are renamed in a
source, they are renamed in what a scan of it finds, and nothing else changes. -/
theorem scan_of_renamed {f : Char → Char} (hf : Renames f) {source : String}
    (hbounded : Bounded source) :
    ∃ found renamed, scan source = .ok found ∧ scan (source.map f) = .ok renamed ∧
      found.RenamedTo f renamed := by
  refine ⟨boundedScan source, boundedScan (source.map f), scan_of_bounded hbounded, ?_,
    hf.boundedScan_map source⟩
  apply scan_of_bounded
  rwa [Bounded, String.toList_map, hf.byteLength_map]

/-- Exchanges two characters that are not structural, and takes a third one for a fourth. -/
def strayExchange (c : Char) : Char :=
  if c = 'é' then 'ß' else if c = '\x00' then '@' else if c = '@' then '\x00' else c

theorem renames_strayExchange : Renames strayExchange where
  apply_of_structural c hc := by
    unfold strayExchange
    split_ifs with h h h
    · subst h
      cases hc
    · subst h
      cases hc
    · subst h
      cases hc
    · rfl
  isStructural_apply c hc := by
    unfold strayExchange
    split_ifs <;> first | exact hc | decide
  utf8Size_apply c _ := by
    unfold strayExchange
    split_ifs with h h h
    · subst h
      decide
    · subst h
      decide
    · subst h
      decide
    · rfl

theorem scan_of_renamed_of_zeros :
    Renames strayExchange ∧ Bounded "\"é@\"\x00/*é*/1.é\n// @\n\"\x00" ∧
      ∃ found renamed, scan "\"é@\"\x00/*é*/1.é\n// @\n\"\x00" = .ok found ∧
        scan ("\"é@\"\x00/*é*/1.é\n// @\n\"\x00".map strayExchange) = .ok renamed ∧
        found.RenamedTo strayExchange renamed :=
  have hbounded : Bounded "\"é@\"\x00/*é*/1.é\n// @\n\"\x00" := by decide
  ⟨renames_strayExchange, hbounded, scan_of_renamed renames_strayExchange hbounded⟩

end LoxLexer
