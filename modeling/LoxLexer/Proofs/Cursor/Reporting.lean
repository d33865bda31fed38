import LoxLexer.Diagnostic.Collection
import LoxLexer.Proofs.Cursor.Run

/-!
# A scan only adds to what has been reported

A cursor can report into a collection that holds diagnostics already.  No move looks at
them, and each leaves them where they are: from a cursor with some more diagnostics in
front, it comes to the same cursor with these diagnostics in front, or to the same mishap.
This passes from the moves to what is put together from them, and so to whole scans, of
sources of any length (`scanInto_eq`).
-/

namespace LoxLexer

section Passing

variable {α β ε : Type} {after : β → β}

theorem bind_eq_map_bind {first : Except ε α} {next other : α → Except ε β}
    (hnext : ∀ value, next value = (other value).map after) :
    (first >>= next) = (first >>= other).map after := by
  cases first with
  | error reason => rfl
  | ok value => exact hnext value

theorem map_bind_eq_map_bind {first : Except ε α} {next other : α → Except ε β}
    {before : α → α} (hnext : ∀ value, next (before value) = (other value).map after) :
    (first.map before >>= next) = (first >>= other).map after := by
  cases first with
  | error reason => rfl
  | ok value => exact hnext value

theorem ite_eq_map_ite {test : Prop} [Decidable test] {yes no yes' no' : Except ε β}
    (hyes : yes = yes'.map after) (hno : no = no'.map after) :
    (if test then yes else no) = (if test then yes' else no').map after := by
  split
  · exact hyes
  · exact hno

end Passing

/-- A loop passes on a change of state that its moves pass on, as long as its test and its
measure do not see the change. -/
theorem loop_of_passes {σ : Type} {size : Nat} {position : σ → Nat} {test : σ → Bool}
    {move : σ → Except Mishap σ} (change : σ → σ)
    (hposition : ∀ state, position (change state) = position state)
    (htest : ∀ state, test (change state) = test state)
    (hmove : ∀ state, move (change state) = (move state).map change) (state : σ) :
    loop size position test move (change state) =
      (loop size position test move state).map change := by
  -- Both loops have as much of the source before them, so they take the same turns.
  induction hmeasure : size - position state using Nat.strongRecOn generalizing state with
  | ind measure ih =>
      conv => rhs; rw [loop]
      rw [loop, htest, hmove]
      refine ite_eq_map_ite ?_ rfl
      cases move state with
      | error mishap => rfl
      | ok next =>
          simp only [Except.map, hposition]
          by_cases hcloser : position state < position next ∧ position next ≤ size
          · rw [if_pos hcloser, if_pos hcloser]
            exact ih _ (by omega) next rfl
          · rw [if_neg hcloser, if_neg hcloser]

/-- The cursor, with diagnostics in front of those that it has found. -/
def Cursor.withEarlier (earlier : List Diagnostic) (cursor : Cursor) : Cursor :=
  { cursor with diagnostics := earlier ++ cursor.diagnostics }

/-- Moves that pass on diagnostics which have been reported earlier. -/
structure Moves.PassOn (moves : Moves) (earlier : List Diagnostic) : Prop where
  toQuote : ∀ source cursor, moves.toQuote source (cursor.withEarlier earlier) =
    (moves.toQuote source cursor).map (Prod.map id (Cursor.withEarlier earlier))
  toLineFeed : ∀ source cursor, moves.toLineFeed source (cursor.withEarlier earlier) =
    (moves.toLineFeed source cursor).map (Cursor.withEarlier earlier)
  pastCharacter : ∀ source c cursor, moves.pastCharacter source c (cursor.withEarlier earlier) =
    (moves.pastCharacter source c cursor).map (Cursor.withEarlier earlier)

namespace Cursor

variable {earlier : List Diagnostic} {moves : Moves} (source : String) (cursor : Cursor)

theorem advance_withEarlier :
    (cursor.withEarlier earlier).advance source =
      (cursor.advance source).map (withEarlier earlier) := by
  unfold advance
  exact ite_eq_map_ite (bind_eq_map_bind fun _ => rfl) rfl

theorem advanceTo_withEarlier (stop : Nat) :
    (cursor.withEarlier earlier).advanceTo source stop =
      (cursor.advanceTo source stop).map (withEarlier earlier) := by
  unfold advanceTo
  exact bind_eq_map_bind fun _ => bind_eq_map_bind fun _ => rfl

theorem matchChar_withEarlier (expected : Char) :
    (cursor.withEarlier earlier).matchChar source expected =
      (cursor.matchChar source expected).map (Prod.map id (withEarlier earlier)) := by
  unfold matchChar
  rw [advance_withEarlier]
  exact ite_eq_map_ite rfl (map_bind_eq_map_bind fun _ => rfl)

theorem skipWhile_withEarlier (test : Char → Bool) :
    (cursor.withEarlier earlier).skipWhile source test =
      (cursor.skipWhile source test).map (withEarlier earlier) :=
  loop_of_passes (withEarlier earlier) (fun _ => rfl) (fun _ => rfl) (advance_withEarlier source)
    cursor

end Cursor

theorem Moves.bulk_passOn (earlier : List Diagnostic) : Moves.bulk.PassOn earlier := by
  constructor
  case toQuote =>
    intro source cursor
    dsimp only [Moves.bulk]
    refine bind_eq_map_bind fun found => ?_
    cases found with
    | none =>
        refine (congrArg (· >>= _) (cursor.advanceTo_withEarlier source _)).trans ?_
        exact map_bind_eq_map_bind fun _ => rfl
    | some offset =>
        refine (congrArg (· >>= _) (cursor.advanceTo_withEarlier source _)).trans ?_
        exact map_bind_eq_map_bind fun _ => rfl
  case toLineFeed =>
    intro source cursor
    dsimp only [Moves.bulk]
    exact bind_eq_map_bind fun _ => rfl
  case pastCharacter =>
    intro source c cursor
    rfl

namespace Cursor

variable (source : String) (cursor : Cursor)

theorem pushToken_withEarlier (kind : Kind) (literal : Option Literal) (line : UInt32) :
    (cursor.withEarlier earlier).pushToken source kind literal line =
      (cursor.pushToken source kind literal line).map (withEarlier earlier) := by
  unfold pushToken
  exact bind_eq_map_bind fun _ => bind_eq_map_bind fun _ => rfl

theorem report_withEarlier (message : Message) (arguments : List String) :
    (cursor.withEarlier earlier).report message arguments =
      (cursor.report message arguments).map (withEarlier earlier) := by
  unfold report
  refine bind_eq_map_bind fun _ => ?_
  exact congrArg (fun entries => Except.ok { cursor with diagnostics := entries })
    (List.append_assoc _ _ _)

theorem scanOperator_withEarlier (forms : Kind.OperatorForms) :
    (cursor.withEarlier earlier).scanOperator source forms =
      (cursor.scanOperator source forms).map (withEarlier earlier) := by
  unfold scanOperator
  rw [matchChar_withEarlier]
  exact map_bind_eq_map_bind fun next => pushToken_withEarlier source next.2 _ _ _

theorem pushNumber_withEarlier :
    (cursor.withEarlier earlier).pushNumber source =
      (cursor.pushNumber source).map (withEarlier earlier) := by
  unfold pushNumber
  exact bind_eq_map_bind fun _ => pushToken_withEarlier source cursor _ _ _

theorem scanNumber_withEarlier :
    (cursor.withEarlier earlier).scanNumber source =
      (cursor.scanNumber source).map (withEarlier earlier) := by
  unfold scanNumber
  rw [skipWhile_withEarlier]
  refine map_bind_eq_map_bind fun next => ite_eq_map_ite ?_ (pushNumber_withEarlier source next)
  rw [advance_withEarlier]
  refine map_bind_eq_map_bind fun next => ?_
  rw [skipWhile_withEarlier]
  exact map_bind_eq_map_bind fun next => pushNumber_withEarlier source next

theorem scanWord_withEarlier :
    (cursor.withEarlier earlier).scanWord source =
      (cursor.scanWord source).map (withEarlier earlier) := by
  unfold scanWord
  rw [skipWhile_withEarlier]
  exact map_bind_eq_map_bind fun next =>
    bind_eq_map_bind fun _ => pushToken_withEarlier source next _ _ _

theorem scanString_withEarlier (hmoves : moves.PassOn earlier) :
    (cursor.withEarlier earlier).scanString moves source =
      (cursor.scanString moves source).map (withEarlier earlier) := by
  unfold scanString
  rw [hmoves.toQuote]
  refine map_bind_eq_map_bind fun found => ite_eq_map_ite ?_ (report_withEarlier found.2 _ _)
  rw [advance_withEarlier]
  exact map_bind_eq_map_bind fun next => bind_eq_map_bind fun _ => bind_eq_map_bind fun _ =>
    pushToken_withEarlier source next _ _ _

theorem commentTurn_withEarlier (state : UInt32 × Cursor) :
    commentTurn source (Prod.map id (withEarlier earlier) state) =
      (commentTurn source state).map (Prod.map id (withEarlier earlier)) := by
  obtain ⟨depth, cursor⟩ := state
  have hadvance : ∀ cursor : Cursor, (cursor.withEarlier earlier).advance source =
      (cursor.advance source).map (withEarlier earlier) := advance_withEarlier source
  unfold commentTurn
  refine ite_eq_map_ite ?_ (ite_eq_map_ite ?_ ?_)
  · rw [hadvance]
    refine map_bind_eq_map_bind fun next => ?_
    rw [hadvance]
    exact map_bind_eq_map_bind fun _ => ite_eq_map_ite rfl rfl
  · rw [hadvance]
    refine map_bind_eq_map_bind fun next => ?_
    rw [hadvance]
    exact map_bind_eq_map_bind fun _ => bind_eq_map_bind fun _ => rfl
  · rw [hadvance]
    exact map_bind_eq_map_bind fun _ => rfl

theorem skipComment_withEarlier :
    (cursor.withEarlier earlier).skipComment source =
      (cursor.skipComment source).map (withEarlier earlier) := by
  have hloop : commentLoop source (Prod.map id (withEarlier earlier) (1, cursor)) =
      (commentLoop source (1, cursor)).map (Prod.map id (withEarlier earlier)) :=
    loop_of_passes (Prod.map id (withEarlier earlier)) (fun _ => rfl) (fun _ => rfl)
      (commentTurn_withEarlier source) (1, cursor)
  unfold skipComment
  refine (congrArg (· >>= _) hloop).trans ?_
  exact map_bind_eq_map_bind fun _ => rfl

theorem scanSlash_withEarlier (hmoves : moves.PassOn earlier) :
    (cursor.withEarlier earlier).scanSlash moves source =
      (cursor.scanSlash moves source).map (withEarlier earlier) := by
  unfold scanSlash
  rw [matchChar_withEarlier]
  refine map_bind_eq_map_bind fun line => ite_eq_map_ite (hmoves.toLineFeed source line.2) ?_
  rw [matchChar_withEarlier]
  exact map_bind_eq_map_bind fun block => ite_eq_map_ite (skipComment_withEarlier source block.2)
    (pushToken_withEarlier source block.2 _ _ _)

theorem scanStray_withEarlier (hmoves : moves.PassOn earlier) :
    (cursor.withEarlier earlier).scanStray moves source =
      (cursor.scanStray moves source).map (withEarlier earlier) := by
  unfold scanStray
  refine bind_eq_map_bind fun _ => ?_
  dsimp only
  rw [hmoves.pastCharacter]
  exact map_bind_eq_map_bind fun next => report_withEarlier next _ _

theorem scanToken_withEarlier (hmoves : moves.PassOn earlier) :
    (cursor.withEarlier earlier).scanToken moves source =
      (cursor.scanToken moves source).map (withEarlier earlier) := by
  have hpeek : (cursor.withEarlier earlier).peek source = cursor.peek source := rfl
  unfold scanToken
  rw [advance_withEarlier, hpeek]
  refine map_bind_eq_map_bind fun next => ?_
  split
  · exact pushToken_withEarlier source next _ _ _
  · exact scanOperator_withEarlier source next _
  · exact ite_eq_map_ite (scanNumber_withEarlier source next)
      (ite_eq_map_ite (scanWord_withEarlier source next)
        (ite_eq_map_ite (scanString_withEarlier source next hmoves)
          (ite_eq_map_ite (scanSlash_withEarlier source next hmoves)
            (ite_eq_map_ite rfl (scanStray_withEarlier source next hmoves)))))

theorem turn_withEarlier (hmoves : moves.PassOn earlier) :
    (cursor.withEarlier earlier).turn moves source =
      (cursor.turn moves source).map (withEarlier earlier) :=
  scanToken_withEarlier source { cursor with start := cursor.current } hmoves

/-- A scan that reports into a collection: its tokens, and the collection after it. -/
def scanInto (moves : Moves) (source : String) (held : Collection) :
    Except Mishap (List Token × Collection) := do
  let cursor ← loop source.utf8ByteSize current (fun cursor => !cursor.atEnd source)
    (turn moves source) { initial with diagnostics := held.entries }
  let last := Token.endOfText cursor.line (Span.clamp source.utf8ByteSize)
  return (cursor.tokens ++ [last], ⟨cursor.diagnostics⟩)

/-- A scan finds the same tokens whatever has been reported before it, and adds the same
diagnostics behind. -/
theorem scanInto_eq {held : Collection} (hmoves : moves.PassOn held.entries) :
    scanInto moves source held =
      (Cursor.scan moves source).map fun found =>
        (found.tokens, held.addAll found.diagnostics) := by
  have hinitial : { initial with diagnostics := held.entries } =
      initial.withEarlier held.entries := by
    simp [withEarlier, initial]
  unfold scanInto Cursor.scan
  rw [hinitial, loop_of_passes (withEarlier held.entries) (fun _ => rfl) (fun _ => rfl)
    (fun cursor => turn_withEarlier source cursor hmoves)]
  cases loop source.utf8ByteSize current (fun cursor => !cursor.atEnd source)
    (turn moves source) initial with
  | error mishap => rfl
  | ok cursor => rfl

end Cursor

end LoxLexer
