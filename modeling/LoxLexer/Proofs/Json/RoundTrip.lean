import LoxLexer.Proofs.Json.Numbers
import LoxLexer.Proofs.Json.Strings

/-!
# Values are read back

A value is written as a row of symbols with blanks between them.  The row is the same in
every spacing (`splitsTo_write`), and the value is put together from it again, inside
of whatever is open (`readValue_symbols`).  Only a double that is not finite comes back as
`null` (`readBack`).
-/

namespace LoxLexer

namespace Json

mutual

/-- What remains of a value when it has been written. -/
def readBack : Json → Json
  | .real value => if value.isFinite then .real value else .null
  | .array items => .array (readBackItems items)
  | .object members => .object (readBackMembers members)
  | value => value

def readBackItems : List Json → List Json
  | [] => []
  | item :: items => readBack item :: readBackItems items

def readBackMembers : List (String × Json) → List (String × Json)
  | [] => []
  | (name, value) :: members => (name, readBack value) :: readBackMembers members

end

mutual

/-- The symbols that a value is written with. -/
def symbols : Json → List Symbol
  | .array [] => [.openArray, .closeArray]
  | .array (item :: items) =>
    .openArray :: (symbols item ++ itemSymbols items ++ [.closeArray])
  | .object [] => [.openObject, .closeObject]
  | .object ((name, value) :: members) =>
    .openObject :: .scalar (.string name) :: .colon ::
      (symbols value ++ memberSymbols members ++ [.closeObject])
  | value => [.scalar value.readBack]

def itemSymbols : List Json → List Symbol
  | [] => []
  | item :: items => .comma :: (symbols item ++ itemSymbols items)

def memberSymbols : List (String × Json) → List Symbol
  | [] => []
  | (name, value) :: members =>
    .comma :: .scalar (.string name) :: .colon :: (symbols value ++ memberSymbols members)

end

theorem readValue_openArray {opened : List Opened} {rest : List Symbol}
    (hrest : ∀ more, rest ≠ .closeArray :: more) :
    readValue opened (.openArray :: rest) = readValue (.array [] :: opened) rest := by
  rw [readValue]
  exact hrest

theorem readValue_openObject {opened : List Opened} {rest : List Symbol}
    (hrest : ∀ more, rest ≠ .closeObject :: more) :
    readValue opened (.openObject :: rest) = readMember opened [] rest := by
  rw [readValue]
  exact hrest

theorem symbols_append_ne (value : Json) (rest : List Symbol) :
    ∀ more, value.symbols ++ rest ≠ .closeArray :: more := by
  intro more heq
  cases value with
  | array items => cases items <;> simp [symbols] at heq
  | object members =>
      cases members with
      | nil => simp [symbols] at heq
      | cons member members =>
          obtain ⟨name, value⟩ := member
          simp [symbols] at heq
  | _ => simp [symbols] at heq

-- Items and members are read behind others, so the lemmas about them are about any row of
-- those before.

mutual

theorem readValue_symbols (opened : List Opened) (rest : List Symbol) :
    ∀ value : Json, readValue opened (value.symbols ++ rest) = readAfter opened value.readBack rest
  | .null => rfl
  | .boolean _ => rfl
  | .integer _ => rfl
  | .real _ => rfl
  | .string _ => rfl
  | .array [] => rfl
  | .array (item :: items) => by
      rw [symbols, List.cons_append, List.append_assoc, List.append_assoc,
        readValue_openArray (symbols_append_ne item _), readValue_symbols _ _ item,
        List.singleton_append, readAfter_itemSymbols [] _ items]
      rfl
  | .object [] => rfl
  | .object ((name, value) :: members) => by
      rw [symbols, List.cons_append, List.cons_append, List.cons_append, List.append_assoc,
        List.append_assoc, readValue_openObject (by simp), readMember,
        readValue_symbols _ _ value, List.singleton_append,
        readAfter_memberSymbols [] name _ members]
      rfl

theorem readAfter_itemSymbols {opened : List Opened} {rest : List Symbol} (before : List Json)
    (value : Json) : ∀ items : List Json,
    readAfter (.array before :: opened) value (itemSymbols items ++ .closeArray :: rest) =
      readAfter opened (.array (before.reverse ++ value :: readBackItems items)) rest
  | [] => by
      rw [itemSymbols, List.nil_append, readAfter, List.reverse_cons]
      rfl
  | item :: items => by
      rw [itemSymbols, List.cons_append, List.append_assoc, readAfter,
        readValue_symbols _ _ item, readAfter_itemSymbols _ _ items, List.reverse_cons,
        List.append_assoc]
      rfl

theorem readAfter_memberSymbols {opened : List Opened} {rest : List Symbol}
    (before : List (String × Json)) (name : String) (value : Json) :
    ∀ members : List (String × Json),
    readAfter (.object before name :: opened) value
        (memberSymbols members ++ .closeObject :: rest) =
      readAfter opened (.object (before.reverse ++ (name, value) :: readBackMembers members)) rest
  | [] => by
      rw [memberSymbols, List.nil_append, readAfter, List.reverse_cons]
      rfl
  | (next, value) :: members => by
      rw [memberSymbols, List.cons_append, List.cons_append, List.cons_append,
        List.append_assoc, readAfter, readMember, readValue_symbols _ _ value,
        readAfter_memberSymbols _ _ _ members, List.reverse_cons, List.append_assoc]
      rfl

end

/-- A text begins with the given symbols, and goes on with the given rest. -/
def SplitsTo (text : List Char) (symbols : List Symbol) (rest : List Char) : Prop :=
  splitSymbols text = (splitSymbols rest).map (symbols ++ ·)

theorem SplitsTo.trans {text middle rest : List Char} {symbols more : List Symbol}
    (hsymbols : SplitsTo text symbols middle) (hmore : SplitsTo middle more rest) :
    SplitsTo text (symbols ++ more) rest := by
  unfold SplitsTo at *
  rw [hsymbols, hmore, Option.map_map]
  exact congrArg (Option.map · _) (funext fun last => (List.append_assoc symbols more last).symm)

theorem splitsTo_blanks {blanks : List Char} (hblanks : ∀ c ∈ blanks, isSpacing c)
    (rest : List Char) : SplitsTo (blanks ++ rest) [] rest := by
  unfold SplitsTo
  induction blanks with
  | nil => simp
  | cons c blanks ih =>
      rw [List.cons_append, splitSymbols, if_pos (hblanks c List.mem_cons_self)]
      exact ih fun c hc => hblanks c (List.mem_cons_of_mem _ hc)

theorem splitsTo_symbol {c : Char} {text rest : List Char} {symbol : Symbol}
    (hblank : isSpacing c = false) (hread : readSymbol c text = some (symbol, rest)) :
    SplitsTo (c :: text) [symbol] rest := by
  unfold SplitsTo
  rw [splitSymbols, if_neg (by rw [hblank]; decide)]
  split
  · rename_i heq
    rw [hread] at heq
    cases heq
    rfl
  · rename_i heq
    rw [hread] at heq
    contradiction

theorem splitsTo_quote (text : List Char) (rest : List Char) :
    SplitsTo (quote text ++ rest) [.scalar (.string (String.ofList text))] rest := by
  have hread : readSymbol '"' (text.flatMap escape ++ '"' :: rest) =
      some (.scalar (.string (String.ofList text)), rest) := by
    have hstring := readString_flatMap_escape text [] rest
    simp only [readSymbol, mark?, word?, hstring]
    rfl
  rw [quote, List.cons_append, List.append_assoc]
  exact splitsTo_symbol (by decide) hread

theorem readSymbol_number {c : Char} (hc : isDigit c ∨ c = '-') (text : List Char) :
    isSpacing c = false ∧ readSymbol c text =
      (readNumber (c :: text)).map fun (number, rest) => (.scalar number.value, rest) := by
  have hne : ∀ other, isDigit other = false → other ≠ '-' → c ≠ other := by
    rintro other hdigit hminus rfl
    rw [hdigit] at hc
    exact hc.elim (fun hfalse => absurd hfalse (by decide)) hminus
  have hspacing : isSpacing c = false := by
    simp [isSpacing, hne ' ' rfl (by decide), hne '\n' rfl (by decide), hne '\t' rfl (by decide),
      hne '\r' rfl (by decide)]
  have hmark : mark? c = none := by
    unfold mark?
    split
    case h_7 => rfl
    all_goals exact (hne _ rfl (by decide) rfl).elim
  have hword : word? c = none := by
    unfold word?
    split
    case h_4 => rfl
    all_goals exact (hne _ rfl (by decide) rfl).elim
  have hquote : c ≠ '"' := hne '"' (by decide) (by decide)
  refine ⟨hspacing, ?_⟩
  rw [readSymbol, hmark, hword]
  exact if_neg hquote

theorem splitsTo_number {number : Number} {rest : List Char} (hproper : number.Proper)
    (hends : EndsNumber rest) : SplitsTo (number.text ++ rest) [.scalar number.value] rest := by
  have hread := readNumber_text hproper hends
  have hfirst : ∃ c more, number.text = c :: more ∧ (isDigit c ∨ c = '-') := by
    obtain ⟨c, more, hwhole⟩ := List.exists_cons_of_ne_nil hproper.whole_ne_nil
    have hdigit := hproper.isDigit_whole c (by rw [hwhole]; exact List.mem_cons_self)
    unfold Number.text
    rw [hwhole]
    cases number.negative with
    | true => exact ⟨'-', _, rfl, .inr rfl⟩
    | false => exact ⟨c, _, rfl, .inl hdigit⟩
  obtain ⟨c, more, htext, hc⟩ := hfirst
  rw [htext, List.cons_append] at hread ⊢
  obtain ⟨hspacing, hsymbol⟩ := readSymbol_number hc (more ++ rest)
  exact splitsTo_symbol hspacing (by rw [hsymbol, hread]; rfl)

theorem splitsTo_realText (x : Binary64) {rest : List Char} (hends : EndsNumber rest) :
    SplitsTo (realText x ++ rest) [.scalar (readBack (.real x))] rest := by
  rw [readBack]
  by_cases hfinite : x.isFinite = true
  · obtain ⟨number, hproper, htext, hvalue⟩ := exists_realText_eq hfinite
    rw [if_pos hfinite, htext, ← hvalue]
    exact splitsTo_number hproper hends
  · rw [if_neg hfinite, realText, if_neg hfinite]
    exact splitsTo_symbol (by decide) rfl

theorem splitsTo_decimalDigits (n : Nat) {rest : List Char} (hends : EndsNumber rest) :
    SplitsTo (decimalDigits n ++ rest) [.scalar (.integer n)] rest := by
  obtain ⟨number, hproper, htext, hvalue⟩ := exists_decimalDigits_eq n
  rw [htext, ← hvalue]
  exact splitsTo_number hproper hends

/-- A spacing of blanks only. -/
structure Spacing.IsBlank (spacing : Spacing) : Prop where
  lineBreak : ∀ depth, ∀ c ∈ spacing.lineBreak depth, isSpacing c
  afterColon : ∀ c ∈ spacing.afterColon, isSpacing c

theorem Spacing.isBlank_compact : Spacing.compact.IsBlank :=
  ⟨fun _ _ hc => absurd hc List.not_mem_nil, fun _ hc => absurd hc List.not_mem_nil⟩

theorem Spacing.isBlank_pretty : Spacing.pretty.IsBlank := by
  constructor
  case lineBreak =>
    intro depth c hc
    rcases List.mem_cons.mp hc with rfl | hc
    · decide
    · rw [List.eq_of_mem_replicate hc]
      decide
  case afterColon =>
    intro c hc
    rw [List.mem_singleton.mp hc]
    decide

theorem endsNumber_blanks {blanks rest : List Char} (hblanks : ∀ c ∈ blanks, isSpacing c)
    (hrest : EndsNumber rest) : EndsNumber (blanks ++ rest) := by
  cases blanks with
  | nil => exact hrest
  | cons blank blanks =>
      intro c hc
      obtain rfl : blank = c := Option.some.inj hc
      have hblank := hblanks blank List.mem_cons_self
      simp only [isSpacing, Bool.or_eq_true, beq_iff_eq] at hblank
      rcases hblank with ((rfl | rfl) | rfl) | rfl <;> decide

theorem endsNumber_mark {c : Char} {mark : Symbol} (hmark : mark? c = some mark)
    (rest : List Char) : EndsNumber (c :: rest) := by
  intro other hother
  obtain rfl : c = other := Option.some.inj hother
  unfold mark? at hmark
  split at hmark <;> first | decide | contradiction

theorem splitsTo_mark {c : Char} {mark : Symbol} (hmark : mark? c = some mark)
    (rest : List Char) : SplitsTo (c :: rest) [mark] rest := by
  refine splitsTo_symbol ?_ ?_
  · unfold mark? at hmark
    split at hmark <;> first | decide | contradiction
  · rw [readSymbol, hmark]

theorem endsNumber_writeItems (spacing : Spacing) (depth : Nat) (items : List Json)
    {rest : List Char}
    (hrest : EndsNumber rest) : EndsNumber (writeItems spacing depth items ++ rest) := by
  cases items with
  | nil => exact hrest
  | cons item items => exact endsNumber_mark rfl _

theorem endsNumber_writeMembers (spacing : Spacing) (depth : Nat)
    (members : List (String × Json)) {rest : List Char} (hrest : EndsNumber rest) :
    EndsNumber (writeMembers spacing depth members ++ rest) := by
  cases members with
  | nil => exact hrest
  | cons member members =>
      obtain ⟨name, value⟩ := member
      exact endsNumber_mark rfl _

section Writing

variable {spacing : Spacing} (hblank : spacing.IsBlank)

include hblank

theorem splitsTo_member {name : String} {text rest : List Char} {symbols : List Symbol}
    (hvalue : SplitsTo text symbols rest) :
    SplitsTo (quote name.toList ++ ':' :: (spacing.afterColon ++ text))
      (.scalar (.string name) :: .colon :: symbols) rest := by
  have hname := splitsTo_quote name.toList (':' :: (spacing.afterColon ++ text))
  rw [String.ofList_toList] at hname
  exact hname.trans ((splitsTo_mark rfl _).trans
    ((splitsTo_blanks hblank.afterColon text).trans hvalue))

mutual

/-- A value is written with its symbols, in any spacing.  If it is a number, what follows has
to end it. -/
theorem splitsTo_write (depth : Nat) {rest : List Char} (hrest : EndsNumber rest) :
    ∀ value : Json, SplitsTo (value.write spacing depth ++ rest) value.symbols rest
  | .null => splitsTo_symbol (by decide) rfl
  | .boolean true => splitsTo_symbol (by decide) rfl
  | .boolean false => splitsTo_symbol (by decide) rfl
  | .integer n => splitsTo_decimalDigits n hrest
  | .real x => splitsTo_realText x hrest
  | .string text => by
      have hquote := splitsTo_quote text.toList rest
      rw [String.ofList_toList] at hquote
      exact hquote
  | .array [] => (splitsTo_mark rfl _).trans (splitsTo_mark rfl rest)
  | .array (item :: items) => by
      have hclose : EndsNumber (spacing.lineBreak depth ++ ']' :: rest) :=
        endsNumber_blanks (hblank.lineBreak depth) (endsNumber_mark rfl rest)
      have hitem := splitsTo_write (depth + 1)
        (endsNumber_writeItems spacing (depth + 1) items hclose) item
      have hitems := splitsTo_writeItems (depth + 1) hclose items
      have hlast := (splitsTo_blanks (hblank.lineBreak depth) _).trans
        (splitsTo_mark (c := ']') rfl rest)
      have hfirst := splitsTo_blanks (hblank.lineBreak (depth + 1))
        (write spacing (depth + 1) item ++
          (writeItems spacing (depth + 1) items ++ (spacing.lineBreak depth ++ ']' :: rest)))
      simp only [write, List.cons_append, List.append_assoc, List.nil_append]
      exact (splitsTo_mark rfl _).trans
        (hfirst.trans ((hitem.trans hitems).trans hlast))
  | .object [] => (splitsTo_mark rfl _).trans (splitsTo_mark rfl rest)
  | .object ((name, value) :: members) => by
      have hclose : EndsNumber (spacing.lineBreak depth ++ '}' :: rest) :=
        endsNumber_blanks (hblank.lineBreak depth) (endsNumber_mark rfl rest)
      have hvalue := splitsTo_write (depth + 1)
        (endsNumber_writeMembers spacing (depth + 1) members hclose) value
      have hmembers := splitsTo_writeMembers (depth + 1) hclose members
      have hlast := (splitsTo_blanks (hblank.lineBreak depth) _).trans
        (splitsTo_mark (c := '}') rfl rest)
      simp only [write, List.cons_append, List.append_assoc, List.nil_append]
      exact (splitsTo_mark rfl _).trans ((splitsTo_blanks (hblank.lineBreak (depth + 1)) _).trans
        (splitsTo_member hblank ((hvalue.trans hmembers).trans hlast)))

theorem splitsTo_writeItems (depth : Nat) {rest : List Char} (hrest : EndsNumber rest) :
    ∀ items : List Json,
      SplitsTo (writeItems spacing depth items ++ rest) (itemSymbols items) rest
  | [] => splitsTo_blanks (fun _ hc => absurd hc List.not_mem_nil) rest
  | item :: items => by
      have hitem := splitsTo_write depth (endsNumber_writeItems spacing depth items hrest) item
      have hitems := splitsTo_writeItems depth hrest items
      simp only [writeItems, List.cons_append, List.append_assoc]
      exact (splitsTo_mark rfl _).trans
        ((splitsTo_blanks (hblank.lineBreak depth) _).trans (hitem.trans hitems))

theorem splitsTo_writeMembers (depth : Nat) {rest : List Char} (hrest : EndsNumber rest) :
    ∀ members : List (String × Json),
      SplitsTo (writeMembers spacing depth members ++ rest) (memberSymbols members) rest
  | [] => splitsTo_blanks (fun _ hc => absurd hc List.not_mem_nil) rest
  | (name, value) :: members => by
      have hvalue := splitsTo_write depth
        (endsNumber_writeMembers spacing depth members hrest) value
      have hmembers := splitsTo_writeMembers depth hrest members
      simp only [writeMembers, List.cons_append, List.append_assoc]
      exact (splitsTo_mark rfl _).trans ((splitsTo_blanks (hblank.lineBreak depth) _).trans
        (splitsTo_member hblank (hvalue.trans hmembers)))

end

/-- A value that has been written is read back, whatever blanks are written behind it. -/
theorem read_write (value : Json) {blanks : List Char} (hblanks : ∀ c ∈ blanks, isSpacing c) :
    read (String.ofList (value.write spacing 0 ++ blanks)) = some value.readBack := by
  have hends : EndsNumber blanks := by
    have hnil : EndsNumber [] := fun c hc => by simp at hc
    have hblanks := endsNumber_blanks hblanks hnil
    rwa [List.append_nil] at hblanks
  have hsplit := (splitsTo_write hblank 0 hends value).trans
    (by simpa using splitsTo_blanks hblanks [])
  unfold SplitsTo at hsplit
  rw [read, String.toList_ofList, hsplit, splitSymbols, Option.map_some, Option.bind_some,
    List.append_nil, readValue_symbols [] [] value]
  rfl

end Writing

end Json

end LoxLexer
