import LoxLexer.Command.Showing
import LoxLexer.Proofs.Number.Digits
import LoxLexer.Proofs.Printing

/-!
# Listings can be read back

A listing shows the text of a string as it stands, with all its line feeds, so the lines of
a listing need not be its tokens.  Even so no two rows of tokens are listed alike.  The
line and the kind of a token come first, and neither has the character that ends it.  The
text of a string token has no quote inside, so it ends at the second one; no other token
has a blank in its text, so it ends at the next one.  The value behind it is settled by
what has been read.
-/

namespace LoxLexer

/-- Tokens that a listing shows alike. -/
structure Token.ListsSame (token other : Token) : Prop where
  line_eq : other.line = token.line
  saysSame : token.SaysSame other

/-- A token whose text and value can be told apart in a listing.  The text of a string is
its value in quotes; the text of any other token has no blank, and settles the value. -/
structure Token.Legible (token : Token) : Prop where
  string : token.kind = .string → ∃ inside, '"' ∉ inside ∧
    token.lexeme.toList = '"' :: (inside ++ ['"']) ∧
    token.literal = some (.text (String.ofList inside))
  other : token.kind ≠ .string → ' ' ∉ token.lexeme.toList ∧ token.literal =
    if token.kind = .number then some (.number (.ofDecimal token.lexeme.toList)) else none

theorem Kind.ofName?_name (kind : Kind) : Kind.ofName? kind.name = some kind := by
  cases kind <;> rfl

theorem Kind.name_injective {kind other : Kind} (hname : kind.name = other.name) :
    kind = other := by
  have hkind := kind.ofName?_name
  rw [hname, other.ofName?_name, Option.some.injEq] at hkind
  exact hkind.symm

theorem Kind.blank_not_mem_name (kind : Kind) : ' ' ∉ kind.name.toList := by
  cases kind <;> decide

theorem kind_of_mem_reservedWords {word : String} {kind : Kind}
    (hmem : (word, kind) ∈ Kind.reservedWords) : kind ≠ .string ∧ kind ≠ .number := by
  have hall : ∀ entry ∈ Kind.reservedWords, entry.2 ≠ .string ∧ entry.2 ≠ .number := by decide
  exact hall _ hmem

theorem of_mem_symbols {piece : List Char} {kind : Kind} (hmem : (piece, kind) ∈ symbols) :
    ' ' ∉ piece ∧ kind ≠ .string ∧ kind ≠ .number := by
  have hall : ∀ entry ∈ symbols, ' ' ∉ entry.1 ∧ entry.2 ≠ .string ∧ entry.2 ≠ .number := by
    decide
  exact hall _ hmem

theorem not_mem_of_number {text piece : List Char} (hbelongs : Belongs text .number piece)
    {c : Char} (hdigit : isDigit c = false) (hpoint : c ≠ '.') : c ∉ piece := by
  intro hmem
  cases hbelongs with
  | whole _ hdigits => exact Bool.eq_false_iff.mp hdigit (hdigits _ hmem)
  | @decimal whole fraction _ _ hdigits =>
      simp only [List.mem_append, List.mem_cons] at hmem
      rcases hmem with hmem | hmem | hmem
      · exact Bool.eq_false_iff.mp hdigit (hdigits _ (List.mem_append_left _ hmem))
      · exact hpoint hmem
      · exact Bool.eq_false_iff.mp hdigit (hdigits _ (List.mem_append_right _ hmem))

theorem blank_not_mem_of_word {text piece : List Char} (hbelongs : Belongs text .word piece) :
    ' ' ∉ piece := by
  intro hmem
  cases hbelongs with
  | word hc hletters =>
      rcases List.mem_cons.mp hmem with rfl | hmem
      · exact absurd hc (by decide)
      · exact absurd (hletters _ hmem) (by decide)

theorem Element.Sound.belongs {element : Element} (hsound : element.Sound)
    (hform : element.form ≠ .stray) :
    ∃ rest, Belongs (element.text ++ rest) element.form element.text := by
  rcases hsound with hbelongs | ⟨c, rfl⟩
  · exact hbelongs
  · exact absurd rfl hform

theorem Token.legible_of_ne {token : Token} (hkind : token.kind ≠ .string)
    (hblank : ' ' ∉ token.lexeme.toList)
    (hliteral : token.literal =
      if token.kind = .number then some (.number (.ofDecimal token.lexeme.toList)) else none) :
    token.Legible :=
  ⟨fun hstring => absurd hstring hkind, fun _ => ⟨hblank, hliteral⟩⟩

theorem Token.Reads.legible {token : Token} {element : Element} (hreads : token.Reads element)
    (hsound : element.Sound) : token.Legible := by
  obtain ⟨kind, lexeme, literal, line, span⟩ := token
  obtain ⟨htoken, hlexeme⟩ := hreads
  simp only at htoken hlexeme
  subst hlexeme
  cases htoken with
  | string inside =>
      obtain ⟨again, hinside, htext⟩ := hsound.string
      have hsame : inside = again := by simpa using htext
      subst hsame
      exact ⟨fun _ => ⟨inside, hinside, String.toList_ofList, rfl⟩, fun hkind => absurd rfl hkind⟩
  | number digits =>
      obtain ⟨rest, hbelongs⟩ := hsound.belongs (by simp)
      have hblank : ' ' ∉ digits := not_mem_of_number hbelongs (by decide) (by decide)
      exact Token.legible_of_ne (by simp) (by simpa using hblank) (by simp)
  | @reserved letters kind hreserved =>
      obtain ⟨rest, hbelongs⟩ := hsound.belongs (by simp)
      have hblank := blank_not_mem_of_word hbelongs
      obtain ⟨hstring, hnumber⟩ := kind_of_mem_reservedWords hreserved
      exact Token.legible_of_ne hstring (by simpa using hblank) (if_neg hnumber).symm
  | identifier =>
      obtain ⟨rest, hbelongs⟩ := hsound.belongs (by simp)
      have hblank := blank_not_mem_of_word hbelongs
      exact Token.legible_of_ne (by simp) (by simpa using hblank) (by simp)
  | symbol kind piece =>
      obtain ⟨rest, hbelongs⟩ := hsound.belongs (by simp)
      cases hbelongs with
      | symbol hsymbol =>
          obtain ⟨hblank, hstring, hnumber⟩ := of_mem_symbols hsymbol
          exact Token.legible_of_ne hstring (by simpa using hblank) (if_neg hnumber).symm

theorem legible_of_mem {source : String} {token : Token}
    (hmem : token ∈ (boundedScan source).tokens) : token.Legible := by
  rw [tokens_boundedScan, List.mem_append, List.mem_singleton] at hmem
  rcases hmem with hmem | rfl
  · obtain ⟨placed, hplaced, houtcome⟩ := mem_tokensOf.mp hmem
    have hsound := sound_of_mem_placedElements hplaced
    exact (reads_of_outcome hsound houtcome).legible hsound
  · have hkind : (endOf source).kind = .eof := rfl
    exact Token.legible_of_ne (by simp [hkind]) (by simp [endOf, Token.endOfText]) rfl

def Token.valueText (token : Token) : String :=
  (token.literal.map Literal.listing).getD "null"

theorem Token.toList_listing (token : Token) :
    token.listing.toList = "[line ".toList ++ (decimalDigits token.line.toNat ++ ']' :: ' ' ::
      (token.kind.name.toList ++ ' ' ::
        (token.lexeme.toList ++ ' ' :: token.valueText.toList))) := by
  simp [listing, valueText, decimalText]

section Reading

variable {token other : Token} {rest more : List Char}

/-- The text of a string ends at its second quote. -/
theorem Token.Legible.string_append_inj (htoken : token.Legible) (hother : other.Legible)
    (hstring : token.kind = .string) (hkind : token.kind = other.kind)
    (heq : token.lexeme.toList ++ ' ' :: (token.valueText.toList ++ '\n' :: rest) =
      other.lexeme.toList ++ ' ' :: (other.valueText.toList ++ '\n' :: more)) :
    token.SaysSame other ∧ rest = more := by
  obtain ⟨inside, hinside, hlexeme, hliteral⟩ := htoken.string hstring
  obtain ⟨again, hagain, hlexeme', hliteral'⟩ := hother.string (hkind ▸ hstring)
  have hvalue : token.valueText.toList = inside := by simp [valueText, hliteral, Literal.listing]
  have hvalue' : other.valueText.toList = again := by simp [valueText, hliteral', Literal.listing]
  simp only [hlexeme, hlexeme', hvalue, hvalue', List.cons_append, List.append_assoc,
    List.nil_append] at heq
  obtain ⟨rfl, heq⟩ := append_cons_inj hinside hagain (List.cons.inj heq).2
  obtain ⟨-, heq⟩ := List.cons.inj heq
  have hlexemeEq := String.toList_inj.mp (hlexeme'.trans hlexeme.symm)
  exact ⟨⟨hkind.symm, hlexemeEq, hliteral'.trans hliteral.symm⟩,
    (List.cons.inj (List.append_cancel_left heq)).2⟩

theorem Token.Legible.other_append_inj (htoken : token.Legible) (hother : other.Legible)
    (hstring : token.kind ≠ .string) (hkind : token.kind = other.kind)
    (heq : token.lexeme.toList ++ ' ' :: (token.valueText.toList ++ '\n' :: rest) =
      other.lexeme.toList ++ ' ' :: (other.valueText.toList ++ '\n' :: more)) :
    token.SaysSame other ∧ rest = more := by
  obtain ⟨hblank, hliteral⟩ := htoken.other hstring
  obtain ⟨hblank', hliteral'⟩ := hother.other (hkind ▸ hstring)
  obtain ⟨hlexeme, heq⟩ := append_cons_inj hblank hblank' heq
  have hliteralEq : other.literal = token.literal := by rw [hliteral', hliteral, hkind, hlexeme]
  have hvalue : other.valueText = token.valueText := by rw [valueText, valueText, hliteralEq]
  rw [hvalue] at heq
  exact ⟨⟨hkind.symm, (String.toList_inj.mp hlexeme).symm, hliteralEq⟩,
    (List.cons.inj (List.append_cancel_left heq)).2⟩

/-- Two listings that begin a text are those of tokens that are listed alike. -/
theorem Token.Legible.listing_append_inj (htoken : token.Legible) (hother : other.Legible)
    (heq : token.listing.toList ++ '\n' :: rest = other.listing.toList ++ '\n' :: more) :
    token.ListsSame other ∧ rest = more := by
  have hbracket : ∀ n, ']' ∉ decimalDigits n := fun n hmem =>
    absurd (isDigit_of_mem_decimalDigits hmem) (by decide)
  simp only [Token.toList_listing, List.append_assoc, List.cons_append] at heq
  obtain ⟨hline, heq⟩ :=
    append_cons_inj (hbracket _) (hbracket _) (List.append_cancel_left heq)
  obtain ⟨hkind, heq⟩ := append_cons_inj (Kind.blank_not_mem_name _) (Kind.blank_not_mem_name _)
    (List.cons.inj heq).2
  have hline := UInt32.toNat_inj.mp (decimalDigits_injective hline)
  have hkind := Kind.name_injective (String.toList_inj.mp hkind)
  by_cases hstring : token.kind = .string
  · obtain ⟨hsame, hrest⟩ := htoken.string_append_inj hother hstring hkind heq
    exact ⟨⟨hline.symm, hsame⟩, hrest⟩
  · obtain ⟨hsame, hrest⟩ := htoken.other_append_inj hother hstring hkind heq
    exact ⟨⟨hline.symm, hsame⟩, hrest⟩

end Reading

theorem toList_print_cons (token : Token) (tokens : List Token) :
    (OutputFormat.text.print (token :: tokens)).toList =
      token.listing.toList ++ '\n' :: (OutputFormat.text.print tokens).toList := by
  simp [OutputFormat.print]

theorem forall₂_listsSame {tokens others : List Token} (htokens : ∀ token ∈ tokens, token.Legible)
    (hothers : ∀ token ∈ others, token.Legible)
    (heq : OutputFormat.text.print tokens = OutputFormat.text.print others) :
    List.Forall₂ Token.ListsSame tokens others := by
  have hne : ∀ (token : Token) (row : List Token), OutputFormat.text.print [] ≠
      OutputFormat.text.print (token :: row) := by
    intro token row hnil
    have hlength := congrArg (fun text => text.toList.length) hnil
    rw [toList_print_cons] at hlength
    simp [OutputFormat.print] at hlength
  induction tokens generalizing others with
  | nil =>
      cases others with
      | nil => exact .nil
      | cons other others => exact absurd heq (hne other others)
  | cons token tokens ih =>
      cases others with
      | nil => exact absurd heq.symm (hne token tokens)
      | cons other others =>
          rw [← String.toList_inj, toList_print_cons, toList_print_cons] at heq
          obtain ⟨hsame, hrest⟩ := (htokens token List.mem_cons_self).listing_append_inj
            (hothers other List.mem_cons_self) heq
          exact .cons hsame (ih (fun token hmem => htokens token (List.mem_cons_of_mem _ hmem))
            (fun token hmem => hothers token (List.mem_cons_of_mem _ hmem))
            (String.toList_inj.mp hrest))

/-- Scans whose tokens are printed as the same bytes have found the same tokens, but for
their spans. -/
theorem print_text_decodable {source other : String} (hbounded : Bounded source)
    (hother : Bounded other) :
    ∃ found otherFound, scan source = .ok found ∧ scan other = .ok otherFound ∧
      ((OutputFormat.text.print found.tokens).toUTF8 =
          (OutputFormat.text.print otherFound.tokens).toUTF8 →
        List.Forall₂ Token.ListsSame found.tokens otherFound.tokens) := by
  refine ⟨boundedScan source, boundedScan other, scan_of_bounded hbounded, scan_of_bounded hother,
    fun hbytes => ?_⟩
  exact forall₂_listsSame (fun _ => legible_of_mem) (fun _ => legible_of_mem)
    (String.toByteArray_inj.mp hbytes)

theorem print_text_decodable_of_false_record :
    Bounded "\"a\n[line 1] EOF  null\" 7.50 b" ∧ Bounded "\"a\n[line 1] EOF  null\"/**/7.50@b" ∧
      ∃ found otherFound, scan "\"a\n[line 1] EOF  null\" 7.50 b" = .ok found ∧
        scan "\"a\n[line 1] EOF  null\"/**/7.50@b" = .ok otherFound ∧
        (OutputFormat.text.print found.tokens).toUTF8 =
          (OutputFormat.text.print otherFound.tokens).toUTF8 ∧
        List.Forall₂ Token.ListsSame found.tokens otherFound.tokens := by
  have hbounded : Bounded "\"a\n[line 1] EOF  null\" 7.50 b" := by decide
  have hother : Bounded "\"a\n[line 1] EOF  null\"/**/7.50@b" := by decide
  obtain ⟨found, otherFound, hscan, hscanOther, hdecodes⟩ := print_text_decodable hbounded hother
  have hprint : (scan "\"a\n[line 1] EOF  null\" 7.50 b").toOption.map
      (fun found => OutputFormat.text.print found.tokens) =
        (scan "\"a\n[line 1] EOF  null\"/**/7.50@b").toOption.map
          (fun found => OutputFormat.text.print found.tokens) := by
    decide +kernel
  rw [hscan, hscanOther] at hprint
  have hbytes := congrArg String.toUTF8 (Option.some.inj hprint)
  exact ⟨hbounded, hother, found, otherFound, hscan, hscanOther, hbytes, hdecodes hbytes⟩

end LoxLexer
