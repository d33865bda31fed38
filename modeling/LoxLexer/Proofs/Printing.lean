import LoxLexer.Proofs.Boundary
import LoxLexer.Proofs.Placing

/-!
# Printed tokens are scanned back

Tokens are printed by writing their texts one behind the other, with blanks and
comments between any two.  A separator begins with a blank, and no token goes on with
one, so each token ends where its text ends (`Element.Sound.endsBefore`).  The
printed text splits into the elements of the tokens and those of the separators
(`Prints.exists_splits`).

What a token says about an element is settled by the element alone
(`Element.IsToken.unique`), so scanning finds the same kinds, texts and values again.
-/

namespace LoxLexer

/-- Blanks, line comments with the line feed that ends them, and block comments that
are closed. -/
inductive IsTrivia : List Char → Prop where
  | nil : IsTrivia []
  | blank {c : Char} {rest : List Char} (hc : c ∈ [' ', '\t', '\r', '\n']) (hrest : IsTrivia rest) :
      IsTrivia (c :: rest)
  | lineComment {body rest : List Char} (hbody : '\n' ∉ body) (hrest : IsTrivia rest) :
      IsTrivia ('/' :: '/' :: (body ++ '\n' :: rest))
  | blockComment {comment rest : List Char} (hcomment : IsComment comment)
      (hrest : IsTrivia rest) : IsTrivia (comment ++ rest)

def IsSeparator (text : List Char) : Prop :=
  ∃ c rest, text = c :: rest ∧ c ∈ [' ', '\t', '\r', '\n'] ∧ IsTrivia rest

/-- Tokens, and a text in which they are written with separators between them. -/
inductive Prints : List Token → String → Prop where
  | nil : Prints [] ""
  | single (token : Token) : Prints [token] token.lexeme
  | cons {token next : Token} {tokens : List Token} {separator text : String}
      (hseparator : IsSeparator separator.toList) (hrest : Prints (next :: tokens) text) :
      Prints (token :: next :: tokens) (token.lexeme ++ separator ++ text)

/-- A token that some scan finds, other than the end of a text. -/
def Token.IsFound (token : Token) : Prop :=
  ∃ source found, scan source = .ok found ∧ token ∈ found.tokens ∧ token.kind ≠ .eof

/-- Tokens that say the same, wherever they stand. -/
structure Token.SaysSame (token other : Token) : Prop where
  kind_eq : other.kind = token.kind
  lexeme_eq : other.lexeme = token.lexeme
  literal_eq : other.literal = token.literal

/-- A text in which a scan finds no error, and nothing but these tokens. -/
def ReadsAs (text : String) (tokens : List Token) : Prop :=
  ∃ found again last, scan text = .ok found ∧ found.diagnostics = [] ∧
    found.tokens = again ++ [last] ∧ last.kind = .eof ∧
    List.Forall₂ Token.SaysSame tokens again

theorem Placed.exists_of_finding {placed : Placed} {finding : Finding}
    (hfinding : placed.finding = .ok finding) :
    ∃ line lastLine span, finding = placed.element.finding line lastLine span := by
  unfold Placed.finding at hfinding
  obtain ⟨line, -, hfinding⟩ := exists_of_bind_eq_ok hfinding
  obtain ⟨lastLine, -, hfinding⟩ := exists_of_bind_eq_ok hfinding
  obtain ⟨-, -, hfinding⟩ := exists_of_bind_eq_ok hfinding
  obtain ⟨span, -, hfinding⟩ := exists_of_bind_eq_ok hfinding
  cases hfinding
  exact ⟨line, lastLine, span, rfl⟩

theorem Token.IsFound.exists_element {token : Token} (hfound : token.IsFound) :
    ∃ element, token.Reads element ∧ element.Sound ∧ element.form.isToken := by
  obtain ⟨source, found, hscan, hmem, hkind⟩ := hfound
  unfold scan at hscan
  obtain ⟨findings, hfindings, hscan⟩ := exists_of_bind_eq_ok hscan
  obtain ⟨lastLine, -, hscan⟩ := exists_of_bind_eq_ok hscan
  cases hscan
  rcases List.mem_append.mp hmem with hmem | hend
  · obtain ⟨finding, hfinding, htoken⟩ := List.mem_filterMap.mp hmem
    rw [Finding.token?_eq_some_iff] at htoken
    obtain ⟨placed, hplaced, hok⟩ := exists_of_mem_mapM hfindings hfinding
    obtain ⟨line, lastLine, span, heq⟩ := Placed.exists_of_finding hok
    have hsound := sound_of_mem_placedElements hplaced
    rw [heq] at htoken
    obtain ⟨hreads, hform⟩ := hsound.reads_of_finding htoken
    exact ⟨placed.element, hreads, hsound, hform⟩
  · rw [List.mem_singleton.mp hend] at hkind
    exact absurd rfl hkind

theorem kind_unique_of_reservedWords :
    ∀ entry ∈ Kind.reservedWords, ∀ other ∈ Kind.reservedWords,
      entry.1 = other.1 → entry.2 = other.2 := by
  decide

/-- An element is one token only. -/
theorem Element.IsToken.unique {element : Element} {kind otherKind : Kind}
    {literal otherLiteral : Option Literal} (htoken : element.IsToken kind literal)
    (hother : element.IsToken otherKind otherLiteral) :
    otherKind = kind ∧ otherLiteral = literal := by
  cases htoken with
  | string inside =>
      generalize htext : '"' :: (inside ++ ['"']) = text at hother
      cases hother with
      | string other =>
          have hinside : inside = other := by simpa using htext
          rw [hinside]
          exact ⟨rfl, rfl⟩
  | number digits =>
      cases hother
      exact ⟨rfl, rfl⟩
  | reserved hreserved =>
      cases hother with
      | reserved hagain =>
          exact ⟨kind_unique_of_reservedWords _ hagain _ hreserved rfl, rfl⟩
      | identifier hfree => exact absurd hreserved (hfree _)
  | identifier hfree =>
      cases hother with
      | reserved hagain => exact absurd hagain (hfree _)
      | identifier => exact ⟨rfl, rfl⟩
  | symbol kind piece =>
      cases hother
      exact ⟨rfl, rfl⟩

theorem Token.Reads.saysSame {token other : Token} {element : Element}
    (hreads : token.Reads element) (hother : other.Reads element) : token.SaysSame other := by
  obtain ⟨htoken, hlexeme⟩ := hreads
  obtain ⟨hagain, hsame⟩ := hother
  have hunique := htoken.unique hagain
  exact ⟨hunique.1, hsame.trans hlexeme.symm, hunique.2⟩

/-- A token ends in front of a blank, and at the end of a text. -/
theorem Element.Sound.endsBefore {element : Element} (hsound : element.Sound)
    (htoken : element.form.isToken) {rest : List Char} (hrest : ∀ c ∈ rest.head?, isBlank c) :
    element.EndsBefore rest := by
  constructor
  case known =>
    rcases hsound with ⟨after, hbelongs⟩ | ⟨c, rfl⟩
    · exact .inl hbelongs.self
    · cases htoken
  case ends =>
    intro ahead hahead hbegins
    obtain ⟨c, after, rfl⟩ := List.exists_cons_of_ne_nil hahead.ne_nil
    obtain ⟨more, rfl⟩ := hbegins
    have hblank := hahead.isBlank_eq_false htoken c List.mem_cons_self
    rw [hrest c rfl] at hblank
    cases hblank

theorem Element.endsBefore_lineComment {body : List Char} (hbody : '\n' ∉ body) (rest : List Char) :
    Element.EndsBefore ⟨.lineComment, '/' :: '/' :: body⟩ ('\n' :: rest) := by
  refine ⟨.inl (.lineComment hbody), fun ahead hahead hbegins => ?_⟩
  cases hahead with
  | lineComment hc => exact hc (List.cons_prefix_cons.mp hbegins).1

theorem Element.endsBefore_blockComment {comment : List Char} (hcomment : IsComment comment)
    (rest : List Char) : Element.EndsBefore ⟨.blockComment, comment⟩ rest :=
  ⟨.inl (.blockComment hcomment), fun _ hahead => by cases hahead⟩

/-- An element that a scan passes over in silence. -/
def Element.IsSkipped (element : Element) : Prop :=
  element.form.isToken = false ∧ element.form.isError = false

/-- A row of elements that has these tokens and no errors. -/
structure RowReads (row : List Element) (tokens : List Token) : Prop where
  reads : List.Forall₂ Token.Reads tokens (row.filter fun element => element.form.isToken)
  errors : row.filter (fun element => element.form.isError) = []

theorem RowReads.cons_skipped {row : List Element} {tokens : List Token} {element : Element}
    (hrow : RowReads row tokens) (hskipped : element.IsSkipped) :
    RowReads (element :: row) tokens := by
  constructor
  case reads =>
    rw [List.filter_cons_of_neg (by simp [hskipped.1])]
    exact hrow.reads
  case errors =>
    rw [List.filter_cons_of_neg (by simp [hskipped.2])]
    exact hrow.errors

theorem Form.isError_eq_false_of_isToken {form : Form} (htoken : form.isToken) :
    form.isError = false := by
  cases form <;> simp_all [Form.isToken, Form.isError]

theorem RowReads.cons_token {row : List Element} {tokens : List Token} {token : Token}
    {element : Element} (hrow : RowReads row tokens) (hreads : token.Reads element)
    (htoken : element.form.isToken) : RowReads (element :: row) (token :: tokens) := by
  constructor
  case reads =>
    rw [List.filter_cons, if_pos htoken]
    exact .cons hreads hrow.reads
  case errors =>
    rw [List.filter_cons_of_neg (by simp [Form.isError_eq_false_of_isToken htoken])]
    exact hrow.errors

theorem IsTrivia.exists_splits {trivia text : List Char} {row : List Element} {tokens : List Token}
    (htrivia : IsTrivia trivia) (hsplits : Splits text row) (hrow : RowReads row tokens) :
    ∃ whole, Splits (trivia ++ text) whole ∧ RowReads whole tokens := by
  induction htrivia with
  | nil => exact ⟨row, hsplits, hrow⟩
  | @blank c rest hc _ ih =>
      obtain ⟨whole, hwhole, hreads⟩ := ih
      exact ⟨_, .of_endsBefore (Element.endsBefore_blank hc (rest ++ text)) hwhole,
        hreads.cons_skipped ⟨rfl, rfl⟩⟩
  | @lineComment body rest hbody _ ih =>
      obtain ⟨whole, hwhole, hreads⟩ := ih
      have hfeed := Splits.of_endsBefore
        (Element.endsBefore_blank (c := '\n') (by decide) (rest ++ text)) hwhole
      have hcomment := Splits.of_endsBefore
        (Element.endsBefore_lineComment hbody (rest ++ text)) hfeed
      refine ⟨⟨.lineComment, '/' :: '/' :: body⟩ :: ⟨.blank, ['\n']⟩ :: whole, ?_,
        (hreads.cons_skipped ⟨rfl, rfl⟩).cons_skipped ⟨rfl, rfl⟩⟩
      simpa using hcomment
  | @blockComment comment rest hcomment _ ih =>
      obtain ⟨whole, hwhole, hreads⟩ := ih
      rw [List.append_assoc]
      exact ⟨_, .of_endsBefore (Element.endsBefore_blockComment hcomment (rest ++ text)) hwhole,
        hreads.cons_skipped ⟨rfl, rfl⟩⟩

theorem IsSeparator.exists_splits {separator text : List Char} {row : List Element}
    {tokens : List Token} (hseparator : IsSeparator separator) (hsplits : Splits text row)
    (hrow : RowReads row tokens) :
    ∃ whole, Splits (separator ++ text) whole ∧ RowReads whole tokens := by
  obtain ⟨c, rest, rfl, hc, htrivia⟩ := hseparator
  exact (IsTrivia.blank hc htrivia).exists_splits hsplits hrow

/-- A printed text splits into the elements of its tokens, and into blanks and
comments. -/
theorem Prints.exists_splits {tokens : List Token} {text : String} (hprints : Prints tokens text)
    (hfound : ∀ token ∈ tokens, token.IsFound) :
    ∃ row, Splits text.toList row ∧ RowReads row tokens := by
  induction hprints with
  | nil => exact ⟨[], .nil, .nil, rfl⟩
  | single token =>
      obtain ⟨element, hreads, hsound, htoken⟩ := (hfound token List.mem_cons_self).exists_element
      have hends : element.EndsBefore [] := hsound.endsBefore htoken (by simp)
      refine ⟨[element], ?_, RowReads.cons_token ⟨.nil, rfl⟩ hreads htoken⟩
      rw [hreads.2, String.toList_ofList, ← List.append_nil element.text]
      exact .of_endsBefore hends .nil
  | @cons token next tokens separator text hseparator _ ih =>
      obtain ⟨element, hreads, hsound, htoken⟩ := (hfound token List.mem_cons_self).exists_element
      obtain ⟨row, hsplits, hrow⟩ := ih fun other hother =>
        hfound other (List.mem_cons_of_mem _ hother)
      obtain ⟨whole, hwhole, hwholeReads⟩ := hseparator.exists_splits hsplits hrow
      -- The token ends in front of the separator, whatever stands behind the first blank.
      have hblank : ∀ c ∈ (separator.toList ++ text.toList).head?, isBlank c := by
        obtain ⟨c, rest, hrest, hc, -⟩ := hseparator
        rw [hrest]
        rintro _ ⟨⟩
        exact isBlank_iff.mpr hc
      refine ⟨element :: whole, ?_, hwholeReads.cons_token hreads htoken⟩
      rw [String.toList_append, String.toList_append, List.append_assoc, hreads.2,
        String.toList_ofList]
      exact .of_endsBefore (hsound.endsBefore htoken hblank) hwhole

theorem forall₂_saysSame {tokens again : List Token} {row : List Element}
    (htokens : List.Forall₂ Token.Reads tokens row) (hagain : List.Forall₂ Token.Reads again row) :
    List.Forall₂ Token.SaysSame tokens again := by
  induction htokens generalizing again with
  | nil =>
      cases hagain
      exact .nil
  | cons hreads _ ih =>
      cases hagain with
      | cons hother hrest => exact .cons (hreads.saysSame hother) (ih hrest)

theorem Prints.readsAs {tokens : List Token} {text : String} (hprints : Prints tokens text)
    (hfound : ∀ token ∈ tokens, token.IsFound) (hbounded : Bounded text) :
    ReadsAs text tokens := by
  obtain ⟨row, hsplits, hrow⟩ := hprints.exists_splits hfound
  obtain ⟨hreads, hreports⟩ := forall₂_outcomes 0 1 fun element (hmem : element ∈ row) => by
    rw [hsplits.eq_elements] at hmem
    exact sound_of_mem_elements hmem
  rw [hrow.errors, List.forall₂_nil_right_iff] at hreports
  refine ⟨boundedScan text, tokensOf text, endOf text, scan_of_bounded hbounded, ?_, rfl, rfl, ?_⟩
  · rw [hsplits.eq_elements] at hreports
    exact hreports
  · rw [hsplits.eq_elements] at hreads hrow
    exact forall₂_saysSame hrow.reads hreads

/-- Scanning undoes printing, whatever stands between the tokens.  In particular the text
of a single token is read as that token. -/
theorem scan_undoes_printing :
    (∀ (tokens : List Token) (text : String), (∀ token ∈ tokens, token.IsFound) →
      Prints tokens text → Bounded text → ReadsAs text tokens) ∧
    (∀ token : Token, token.IsFound → Bounded token.lexeme → ReadsAs token.lexeme [token]) := by
  constructor
  · intro tokens text hfound hprints hbounded
    exact hprints.readsAs hfound hbounded
  · intro token hfound hbounded
    apply (Prints.single token).readsAs _ hbounded
    intro other hother
    rwa [List.mem_singleton.mp hother]

theorem scan_undoes_printing_of_comments :
    ((∀ token ∈ [(⟨.string, "\"//é\"", some (.text "//é"), 1, ⟨0, 6⟩⟩ : Token),
          ⟨.gets, "=", none, 1, ⟨6, 1⟩⟩], token.IsFound) ∧
      Prints [⟨.string, "\"//é\"", some (.text "//é"), 1, ⟨0, 6⟩⟩, ⟨.gets, "=", none, 1, ⟨6, 1⟩⟩]
        ("\"//é\"" ++ " /*/* \" */*/// /*\n" ++ "=") ∧
      Bounded ("\"//é\"" ++ " /*/* \" */*/// /*\n" ++ "=") ∧
      ReadsAs ("\"//é\"" ++ " /*/* \" */*/// /*\n" ++ "=")
        [⟨.string, "\"//é\"", some (.text "//é"), 1, ⟨0, 6⟩⟩, ⟨.gets, "=", none, 1, ⟨6, 1⟩⟩]) ∧
    (Token.IsFound ⟨.gets, "=", none, 1, ⟨6, 1⟩⟩ ∧ Bounded "=" ∧
      ReadsAs "=" [⟨.gets, "=", none, 1, ⟨6, 1⟩⟩]) := by
  have hrow : elements "\"//é\"=".toList =
      [⟨.string, ['"', '/', '/', 'é', '"']⟩, ⟨.symbol .gets, ['=']⟩] := by
    cbv
  have hscan : scan "\"//é\"=" = .ok
      ⟨[⟨.string, "\"//é\"", some (.text "//é"), 1, ⟨0, 6⟩⟩, ⟨.gets, "=", none, 1, ⟨6, 1⟩⟩,
        ⟨.eof, "", none, 1, ⟨7, 0⟩⟩], []⟩ := by
    rw [scan_of_bounded (by decide), boundedScan, placedElements, hrow]
    rfl
  have hfound : ∀ token ∈ [(⟨.string, "\"//é\"", some (.text "//é"), 1, ⟨0, 6⟩⟩ : Token),
      ⟨.gets, "=", none, 1, ⟨6, 1⟩⟩], token.IsFound := by
    intro token hmem
    refine ⟨_, _, hscan, List.mem_append_left [_] hmem, ?_⟩
    revert token
    decide
  have hseparator : IsSeparator " /*/* \" */*/// /*\n".toList := by
    have hinner : CommentBody [' ', '"', ' ', '*', '/'] :=
      .character (by decide) (by decide) (.character (by decide) (by decide)
        (.character (by decide) (by decide) .close))
    have hline : IsTrivia "// /*\n".toList :=
      .lineComment (by decide : '\n' ∉ [' ', '/', '*']) .nil
    exact ⟨' ', _, rfl, by decide, .blockComment ⟨_, rfl, .comment hinner .close⟩ hline⟩
  have hprints : Prints [⟨.string, "\"//é\"", some (.text "//é"), 1, ⟨0, 6⟩⟩,
      ⟨.gets, "=", none, 1, ⟨6, 1⟩⟩] ("\"//é\"" ++ " /*/* \" */*/// /*\n" ++ "=") :=
    .cons hseparator (.single _)
  have hbounded : Bounded ("\"//é\"" ++ " /*/* \" */*/// /*\n" ++ "=") := by decide
  have hreads := scan_undoes_printing.1 _ _ hfound hprints hbounded
  have hgets := hfound ⟨.gets, "=", none, 1, ⟨6, 1⟩⟩ (by decide)
  have hreadsGets := scan_undoes_printing.2 _ hgets (by decide)
  exact ⟨⟨hfound, hprints, hbounded, hreads⟩, hgets, by decide, hreadsGets⟩

end LoxLexer
