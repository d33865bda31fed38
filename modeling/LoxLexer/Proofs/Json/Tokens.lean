import LoxLexer.Proofs.Json.RoundTrip
import LoxLexer.Proofs.Listing

/-!
# Tokens in JSON

Tokens are shown as an array of objects, in either spacing.  Reading it gives back each
token with all that it says (`Token.ShownAs`).  Only a number too great for a double comes
back as `null`, but its text still tells its value, so no two tokens are shown alike
(`Token.ShownAs.unique`).
-/

namespace LoxLexer

namespace Binary64

theorem isInfinite_ofDecimal_iff (digits : List Char) :
    (ofDecimal digits).isInfinite = true ↔ ¬(ofDecimal digits).isFinite = true := by
  have hpos : 0 < Nat.pow 10 ((digits.dropWhile isDigit).drop 1).length :=
    Decimal.pow_pos 10 _ (by decide)
  have hle := (isNearest_nearest (digitsValue (digits.takeWhile isDigit ++
    (digits.dropWhile isDigit).drop 1)) hpos).le_infinite
  have hmagnitude := magnitude_ofMagnitude hle
  unfold isInfinite isFinite ofDecimal
  rw [hmagnitude, beq_iff_eq, decide_eq_true_eq]
  omega

end Binary64

/-- A value in JSON that shows the literal of a token.  A string shows the text inside of its
quotes, and a number the double that its text stands for, if that is finite. -/
structure Token.LiteralShownAs (token : Token) (value : Json) : Prop where
  number : token.kind = .number → ∃ x, token.literal = some (.number x) ∧
    x = .ofDecimal token.lexeme.toList ∧ (x.isFinite = true → value = .real x) ∧
    (value = .null ↔ x.isInfinite = true)
  string : token.kind = .string → ∃ text, token.literal = some (.text text) ∧
    value = .string text
  other : token.kind ≠ .number → token.kind ≠ .string → token.literal = none ∧ value = .null

/-- A value in JSON that shows a token. -/
def Token.ShownAs (token : Token) (value : Json) : Prop :=
  ∃ literal, token.LiteralShownAs literal ∧ value = .object [
    ("kind", .string token.kind.name),
    ("lexeme", .string token.lexeme),
    ("literal", literal),
    ("line", .integer token.line.toNat),
    ("span", .object [
      ("start", .integer token.span.start.toNat),
      ("length", .integer token.span.length.toNat)])]

theorem Token.Legible.shownAs {token : Token} (hlegible : token.Legible) :
    token.ShownAs token.toJson.readBack := by
  refine ⟨((token.literal.map Literal.toJson).getD .null).readBack, ?_, rfl⟩
  constructor
  case number =>
    intro hkind
    obtain ⟨-, hliteral⟩ := hlegible.other (by rw [hkind]; decide)
    rw [if_pos hkind] at hliteral
    have hinfinite := Binary64.isInfinite_ofDecimal_iff token.lexeme.toList
    refine ⟨_, hliteral, rfl, ?_, ?_⟩
    · intro hfinite
      rw [hliteral]
      exact if_pos hfinite
    · rw [hinfinite, hliteral, Option.map_some, Option.getD_some, Literal.toJson, Json.readBack]
      split <;> simp_all
  case string =>
    intro hkind
    obtain ⟨inside, -, -, hliteral⟩ := hlegible.string hkind
    exact ⟨_, hliteral, by rw [hliteral]; rfl⟩
  case other =>
    intro hnumber hstring
    obtain ⟨-, hliteral⟩ := hlegible.other hstring
    rw [if_neg hnumber] at hliteral
    exact ⟨hliteral, by rw [hliteral]; rfl⟩

theorem Token.ShownAs.unique {token other : Token} {value : Json} (htoken : token.ShownAs value)
    (hother : other.ShownAs value) : token = other := by
  obtain ⟨literal, hliteral, rfl⟩ := htoken
  obtain ⟨literal', hliteral', heq⟩ := hother
  simp only [Json.object.injEq, List.cons.injEq, Prod.mk.injEq, Json.string.injEq,
    Json.integer.injEq, true_and, and_true] at heq
  obtain ⟨hname, hlexeme, rfl, hline, hstart, hlength⟩ := heq
  have hkind := Kind.name_injective hname
  have hsame : token.literal = other.literal := by
    by_cases hnumber : token.kind = .number
    · obtain ⟨x, hx, rfl, -⟩ := hliteral.number hnumber
      obtain ⟨y, hy, rfl, -⟩ := hliteral'.number (hkind ▸ hnumber)
      rw [hx, hy, hlexeme]
    · by_cases hstring : token.kind = .string
      · obtain ⟨text, htext, hvalue⟩ := hliteral.string hstring
        obtain ⟨text', htext', hvalue'⟩ := hliteral'.string (hkind ▸ hstring)
        rw [htext, htext', Json.string.inj (hvalue.symm.trans hvalue')]
      · rw [(hliteral.other hnumber hstring).1,
          (hliteral'.other (hkind ▸ hnumber) (hkind ▸ hstring)).1]
  obtain ⟨kind, lexeme, literal, line, start, length⟩ := token
  obtain ⟨kind', lexeme', literal', line', start', length'⟩ := other
  cases hkind
  cases hlexeme
  cases hsame
  cases UInt32.toNat_inj.mp hline
  cases UInt32.toNat_inj.mp hstart
  cases UInt32.toNat_inj.mp hlength
  rfl

theorem Json.readBackItems_eq_map (items : List Json) :
    readBackItems items = items.map readBack := by
  induction items with
  | nil => rfl
  | cons item items ih => rw [readBackItems, ih, List.map_cons]

theorem forall₂_shownAs {tokens : List Token} (hlegible : ∀ token ∈ tokens, token.Legible) :
    List.Forall₂ Token.ShownAs tokens (tokens.map fun token => token.toJson.readBack) := by
  rw [List.forall₂_map_right_iff, List.forall₂_same]
  exact fun token hmem => (hlegible token hmem).shownAs

theorem readBack_listToJson (tokens : List Token) :
    (Token.listToJson tokens).readBack =
      .array (tokens.map fun token => token.toJson.readBack) := by
  rw [Token.listToJson, Json.readBack, Json.readBackItems_eq_map, List.map_map]
  rfl

theorem read_compactText (tokens : List Token) :
    Json.read (Token.listToJson tokens).compactText =
      some (.array (tokens.map fun token => token.toJson.readBack)) := by
  have hread := Json.read_write Json.Spacing.isBlank_compact (Token.listToJson tokens)
    fun c hc => absurd hc List.not_mem_nil
  rwa [List.append_nil, readBack_listToJson] at hread

theorem read_print_json (tokens : List Token) :
    Json.read (OutputFormat.json.print tokens) =
      some (.array (tokens.map fun token => token.toJson.readBack)) := by
  have hblank : ∀ c ∈ ['\n'], isSpacing c := List.forall_mem_singleton.mpr (by decide)
  have hread := Json.read_write Json.Spacing.isBlank_pretty (Token.listToJson tokens) hblank
  rwa [String.ofList_append, readBack_listToJson] at hread

/-- Scans whose tokens are printed alike in JSON have found the same tokens. -/
theorem tokens_eq_of_print_json_eq {source other : String} {found otherFound : Scan}
    (hbounded : Bounded source) (hother : Bounded other) (hscan : scan source = .ok found)
    (hscanOther : scan other = .ok otherFound)
    (hprint : OutputFormat.json.print found.tokens = OutputFormat.json.print otherFound.tokens) :
    found.tokens = otherFound.tokens := by
  obtain rfl := Except.ok.inj ((scan_of_bounded hbounded).symm.trans hscan)
  obtain rfl := Except.ok.inj ((scan_of_bounded hother).symm.trans hscanOther)
  have hread := read_print_json (boundedScan source).tokens
  rw [hprint, read_print_json, Option.some.injEq, Json.array.injEq] at hread
  have htokens : List.Forall₂ Token.ShownAs (boundedScan source).tokens _ :=
    forall₂_shownAs fun _ => legible_of_mem
  have hothers : List.Forall₂ Token.ShownAs (boundedScan other).tokens _ :=
    forall₂_shownAs fun _ => legible_of_mem
  rw [← hread] at htokens
  have hunique : Relator.LeftUnique Token.ShownAs := fun _ _ _ => Token.ShownAs.unique
  exact List.left_unique_forall₂' hunique htokens hothers

/-- The tokens of a bounded source, written in JSON in either spacing, are read back as the
same value, which shows them one by one. -/
theorem json_output_lossless {source : String} (hbounded : Bounded source) :
    ∃ found items, scan source = .ok found ∧
      Json.read (Token.listToJson found.tokens).compactText = some (.array items) ∧
      Json.read (OutputFormat.json.print found.tokens) = some (.array items) ∧
      List.Forall₂ Token.ShownAs found.tokens items :=
  ⟨boundedScan source, _, scan_of_bounded hbounded, read_compactText _, read_print_json _,
    forall₂_shownAs fun _ => legible_of_mem⟩

theorem json_output_lossless_of_escapes :
    Bounded "\"\\\x01\t/é\n\"7.50 x" ∧ ∃ found items,
      scan "\"\\\x01\t/é\n\"7.50 x" = .ok found ∧
      Json.read (Token.listToJson found.tokens).compactText = some (.array items) ∧
      Json.read (OutputFormat.json.print found.tokens) = some (.array items) ∧
      List.Forall₂ Token.ShownAs found.tokens items :=
  have hbounded : Bounded "\"\\\x01\t/é\n\"7.50 x" := by decide
  ⟨hbounded, json_output_lossless hbounded⟩

end LoxLexer
