import LoxLexer.Proofs.Grammar
import LoxLexer.Proofs.Number.Parse
import LoxLexer.Scan.Bounded
import Mathlib.Data.List.Forall2

/-!
# What a scan reads

A scan reads a source by the lexical grammar: it has one token for each element
that is one, and one diagnostic for each element that is an error, in the order
of the elements.  Blanks and comments leave nothing.  What a token says about its
element depends on the element alone (`Element.IsToken`), and so does what a
diagnostic says (`Element.IsError`).
-/

namespace LoxLexer

/-- The kind and the value of the token that an element is. -/
inductive Element.IsToken : Element → Kind → Option Literal → Prop where
  | string (inside : List Char) :
      IsToken ⟨.string, '"' :: (inside ++ ['"'])⟩ .string (some (.text (String.ofList inside)))
  | number (digits : List Char) :
      IsToken ⟨.number, digits⟩ .number (some (.number (.ofDecimal digits)))
  | reserved {letters : List Char} {kind : Kind}
      (hreserved : (String.ofList letters, kind) ∈ Kind.reservedWords) :
      IsToken ⟨.word, letters⟩ kind none
  | identifier {letters : List Char}
      (hfree : ∀ kind, (String.ofList letters, kind) ∉ Kind.reservedWords) :
      IsToken ⟨.word, letters⟩ .identifier none
  | symbol (kind : Kind) (piece : List Char) : IsToken ⟨.symbol kind, piece⟩ kind none

/-- The message that an element is an error with, and its arguments. -/
inductive Element.IsError : Element → Message → List String → Prop where
  | stray (c : Char) : IsError ⟨.stray, [c]⟩ .unexpectedCharacter [String.singleton c]
  | openString (text : List Char) : IsError ⟨.openString, text⟩ .unterminatedString []

def Form.isToken : Form → Bool
  | .string | .number | .word | .symbol _ => true
  | _ => false

def Form.isError : Form → Bool
  | .openString | .stray => true
  | _ => false

/-- A token that says what an element is. -/
def Token.Reads (token : Token) (element : Element) : Prop :=
  element.IsToken token.kind token.literal ∧ token.lexeme = String.ofList element.text

/-- A diagnostic that says what is wrong with an element. -/
def Diagnostic.Reports (diagnostic : Diagnostic) (element : Element) : Prop :=
  ∃ message arguments line span, element.IsError message arguments ∧
    diagnostic = .ofMessage line message arguments (some span)

/-- Elements that the grammar knows: in a text that they begin they are in the
class of their form, or they are one stray character. -/
def Element.Sound (element : Element) : Prop :=
  (∃ rest, Belongs (element.text ++ rest) element.form element.text) ∨
    ∃ c, element = ⟨.stray, [c]⟩

/-- Where a row of elements is split, the later ones are the elements of their
own text. -/
theorem elements_of_split {text : List Char} {before after : List Element}
    (hsplit : elements text = before ++ after) :
    elements (after.flatMap Element.text) = after := by
  induction before generalizing text with
  | nil =>
      rw [List.nil_append] at hsplit
      rw [← hsplit, flatMap_text_elements]
  | cons element before ih =>
      cases text with
      | nil => simp at hsplit
      | cons c text =>
          rw [elements_cons, List.cons_append, List.cons.injEq] at hsplit
          exact ih hsplit.2

/-- In the text that it begins, an element is in the class of its form, or it is
one stray character. -/
theorem belongs_of_split {text : List Char} {before after : List Element} {element : Element}
    (hsplit : elements text = before ++ element :: after) :
    Belongs (element.text ++ after.flatMap Element.text) element.form element.text ∨
      ∃ c, element = ⟨.stray, [c]⟩ := by
  have hrow := elements_of_split hsplit
  rw [List.flatMap_cons] at hrow
  cases htext : element.text ++ after.flatMap Element.text with
  | nil =>
      rw [htext] at hrow
      simp at hrow
  | cons c text =>
      rw [htext, elements_cons, List.cons.injEq] at hrow
      rw [← hrow.1]
      exact (Belongs.first_cut c text).imp_right fun hstray => ⟨c, hstray⟩

theorem sound_of_mem_elements {text : List Char} {element : Element}
    (hmem : element ∈ elements text) : element.Sound := by
  obtain ⟨before, after, hsplit⟩ := List.append_of_mem hmem
  exact (belongs_of_split hsplit).imp_left fun hbelongs => ⟨_, hbelongs⟩

theorem Element.Sound.string {text : List Char} (hsound : Element.Sound ⟨.string, text⟩) :
    ∃ inside, '"' ∉ inside ∧ text = '"' :: (inside ++ ['"']) := by
  rcases hsound with ⟨rest, hbelongs⟩ | ⟨c, hstray⟩
  · cases hbelongs with
    | @string inside hinside => exact ⟨inside, hinside, rfl⟩
  · simp at hstray

theorem Element.Sound.stray {text : List Char} (hsound : Element.Sound ⟨.stray, text⟩) :
    ∃ c, text = [c] := by
  rcases hsound with ⟨rest, hbelongs⟩ | ⟨c, hstray⟩
  · cases hbelongs
  · exact ⟨c, congrArg Element.text hstray⟩

theorem Element.IsToken.kind_ne_eof {element : Element} {kind : Kind} {literal : Option Literal}
    (hsound : element.Sound) (htoken : element.IsToken kind literal) : kind ≠ .eof := by
  cases htoken with
  | @reserved letters kind hreserved =>
      rintro rfl
      simp [Kind.reservedWords] at hreserved
  | symbol kind piece =>
      rintro rfl
      rcases hsound with ⟨rest, hbelongs⟩ | ⟨c, hstray⟩
      · cases hbelongs with
        | symbol hsymbol => simp [symbols] at hsymbol
      · simp at hstray
  | _ => simp

theorem Element.isToken_ofWord (letters : List Char) :
    Element.IsToken ⟨.word, letters⟩ (Kind.ofWord (String.ofList letters)) none := by
  unfold Kind.ofWord Kind.ofReservedWord?
  cases hlookup : Kind.reservedWords.lookup (String.ofList letters) with
  | none =>
      refine .identifier fun kind hmem => ?_
      simpa using List.lookup_eq_none_iff.mp hlookup _ hmem
  | some kind =>
      obtain ⟨before, after, hwords, -⟩ := List.lookup_eq_some_iff.mp hlookup
      refine .reserved ?_
      rw [hwords]
      exact List.mem_append_right _ List.mem_cons_self

/-- A sound element comes to a token that reads it, to a diagnostic that reports
it, or to nothing, as its form says. -/
theorem Element.Sound.finding {element : Element} (hsound : element.Sound)
    (line lastLine : UInt32) (span : Span) :
    (∃ token, element.finding line lastLine span = .token token ∧
        element.form.isToken = true ∧ element.form.isError = false ∧ token.Reads element) ∨
    (∃ diagnostic, element.finding line lastLine span = .diagnostic diagnostic ∧
        element.form.isToken = false ∧ element.form.isError = true ∧
          diagnostic.Reports element) ∨
    (element.finding line lastLine span = .nothing ∧
        element.form.isToken = false ∧ element.form.isError = false) := by
  obtain ⟨form, text⟩ := element
  cases form with
  | blank | lineComment | blockComment | openComment =>
      exact .inr (.inr ⟨rfl, rfl, rfl⟩)
  | string =>
      obtain ⟨inside, -, rfl⟩ := hsound.string
      have hliteral : (('"' :: (inside ++ ['"'])).drop 1).dropLast = inside := by simp
      refine .inl ⟨_, rfl, rfl, rfl, ?_, rfl⟩
      simp only [hliteral]
      exact .string inside
  | openString =>
      exact .inr (.inl ⟨_, rfl, rfl, rfl, _, _, _, _, .openString text, rfl⟩)
  | number =>
      obtain ⟨rest, hbelongs⟩ := hsound.resolve_right (by rintro ⟨c, ⟨⟩⟩)
      have hvalue : (Binary64.parse? (String.ofList text)).getD .nan = .ofDecimal text := by
        rw [hbelongs.parse?_eq, Option.getD_some]
      refine .inl ⟨_, rfl, rfl, rfl, ?_, rfl⟩
      simp only [hvalue]
      exact .number text
  | word => exact .inl ⟨_, rfl, rfl, rfl, isToken_ofWord text, rfl⟩
  | symbol kind => exact .inl ⟨_, rfl, rfl, rfl, .symbol kind text, rfl⟩
  | stray =>
      obtain ⟨c, rfl⟩ := hsound.stray
      refine .inr (.inl ⟨_, rfl, rfl, rfl, _, _, line, span, .stray c, ?_⟩)
      rw [String.singleton_eq_ofList]

/-- A row of sound elements comes to its tokens and its diagnostics, wherever it
is placed. -/
theorem forall₂_outcomes
    (offset line : Nat) {row : List Element} (hsound : ∀ element ∈ row, element.Sound) :
    List.Forall₂ Token.Reads
        (((place offset line row).map Placed.outcome).filterMap Finding.token?)
        (row.filter fun element => element.form.isToken) ∧
      List.Forall₂ Diagnostic.Reports
        (((place offset line row).map Placed.outcome).filterMap Finding.diagnostic?)
        (row.filter fun element => element.form.isError) := by
  induction row generalizing offset line with
  | nil => simp
  | cons element row ih =>
      have hrow := ih (offset + byteLength element.text) (line + lineFeeds element.text)
        fun other hother => hsound other (List.mem_cons_of_mem _ hother)
      rw [place_cons, List.map_cons]
      rcases (hsound element List.mem_cons_self).finding
          (UInt32.ofNat line) (UInt32.ofNat (line + lineFeeds element.text))
          (Placed.span ⟨element, offset, line⟩)
        with ⟨token, hfinding, htoken, herror, hreads⟩ |
          ⟨diagnostic, hfinding, htoken, herror, hreports⟩ | ⟨hfinding, htoken, herror⟩
      · have houtcome : Placed.outcome ⟨element, offset, line⟩ = .token token := hfinding
        simp only [houtcome, List.filterMap_cons, Finding.token?, Finding.diagnostic?,
          List.filter_cons, htoken, herror, Bool.false_eq_true, if_true, if_false]
        exact ⟨.cons hreads hrow.1, hrow.2⟩
      · have houtcome : Placed.outcome ⟨element, offset, line⟩ = .diagnostic diagnostic := hfinding
        simp only [houtcome, List.filterMap_cons, Finding.token?, Finding.diagnostic?,
          List.filter_cons, htoken, herror, Bool.false_eq_true, if_true, if_false]
        exact ⟨hrow.1, .cons hreports hrow.2⟩
      · have houtcome : Placed.outcome ⟨element, offset, line⟩ = .nothing := hfinding
        simp only [houtcome, List.filterMap_cons, Finding.token?, Finding.diagnostic?,
          List.filter_cons, htoken, herror, Bool.false_eq_true, if_false]
        exact hrow

/-- A scan that reads a source by the rule of the longest match.  The source
splits into elements in exactly one way.  The tokens read those elements that
are tokens, one for one and in order, and the end of the text follows them; the
diagnostics report those elements that are errors. -/
def Scan.FollowsGrammar (found : Scan) (source : String) : Prop :=
  ∃ row tokens last,
    (∀ other, Splits source.toList other ↔ other = row) ∧
    found.tokens = tokens ++ [last] ∧
    (last.kind = .eof ∧ last.lexeme = "" ∧ last.literal = none) ∧
    List.Forall₂ Token.Reads tokens (row.filter fun element => element.form.isToken) ∧
    List.Forall₂ Diagnostic.Reports found.diagnostics
      (row.filter fun element => element.form.isError)

theorem scan_followsGrammar {source : String} (hbounded : Bounded source) :
    ∃ found, scan source = .ok found ∧ found.FollowsGrammar source := by
  refine ⟨boundedScan source, scan_of_bounded hbounded, ?_⟩
  have hsound : ∀ element ∈ elements source.toList, element.Sound :=
    fun element => sound_of_mem_elements
  obtain ⟨hreads, hreports⟩ := forall₂_outcomes 0 1 hsound
  exact ⟨elements source.toList, _, _, fun other => splits_iff, rfl, ⟨rfl, rfl, rfl⟩,
    hreads, hreports⟩

theorem scan_followsGrammar_of_adjacent_elements :
    Bounded "1.2.3!==/*/ \"*/é\"//" ∧
      ∃ found, scan "1.2.3!==/*/ \"*/é\"//" = .ok found ∧
        found.FollowsGrammar "1.2.3!==/*/ \"*/é\"//" :=
  have hbounded : Bounded "1.2.3!==/*/ \"*/é\"//" := by decide
  ⟨hbounded, scan_followsGrammar hbounded⟩

end LoxLexer
