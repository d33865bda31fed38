import LoxLexer.Proofs.Cursor.Run

/-!
# A scan never ends with a mishap

Between two turns a cursor stands between two characters (`Reached.exists_stands`).
From there a turn takes one element, so it brings the cursor closer to the end and
not beyond it.  No turn ends with a mishap: what it cuts out of the source begins and
ends between characters, its sums fit into words, and no span ends before it
starts.
-/

namespace LoxLexer

namespace Cursor

/-- A scan by a cursor that runs into no mishap, and what it has found. -/
structure Safe (moves : Moves) (source : String) (found : Scan) : Prop where
  scan_eq : Cursor.scan moves source = .ok found
  boundary : ∀ cursor, Reached moves source cursor →
    String.Pos.Raw.IsValid source ⟨cursor.current⟩
  progress : ∀ cursor, Reached moves source cursor → ¬ cursor.atEnd source →
    ∃ next, cursor.turn moves source = .ok next ∧ cursor.current < next.current ∧
      next.current ≤ source.utf8ByteSize
  stop_token : ∀ token ∈ found.tokens, ∃ stop, token.span.stop = .ok stop
  stop_diagnostic : ∀ diagnostic ∈ found.diagnostics,
    ∃ span, diagnostic.span = some span ∧ ∃ stop, span.stop = .ok stop

variable {source : String} {cursor next : Cursor} {moves : Moves} {before after : List Char}

/-- A cursor that stands before the end takes a turn, and stands further on. -/
theorem Stands.progress (hmoves : moves.Sound) (hstands : cursor.Stands source before after)
    (hend : ¬ cursor.atEnd source) :
    ∃ next, cursor.turn moves source = .ok next ∧ cursor.current < next.current ∧
      ∃ before after, next.Stands source before after := by
  cases after with
  | nil => exact absurd (hstands.faces.atEnd_iff.mpr rfl) hend
  | cons c text =>
      exact ⟨_, hstands.turn hmoves,
        current_lt_current_behind cursor (Cut.text_first_ne_nil c text),
        _, _, hstands.behind_first⟩

/-- Between two turns a cursor stands behind some elements of the source. -/
theorem Reached.exists_row (hmoves : moves.Sound) (hbounded : Bounded source)
    (hreached : Reached moves source cursor) :
    ∃ before after, elements source.toList = before ++ elements after ∧
      cursor.Stands source (before.flatMap Element.text) after := by
  induction hreached with
  | initial => exact ⟨[], source.toList, rfl, stands_initial hbounded⟩
  | @turn cursor next _ hend hturn ih =>
      obtain ⟨before, after, hrow, hstands⟩ := ih
      cases after with
      | nil => exact absurd (hstands.faces.atEnd_iff.mpr rfl) hend
      | cons c text =>
          rw [hstands.turn hmoves, Except.ok.injEq] at hturn
          subst hturn
          have hnext := hstands.behind_first
          refine ⟨before ++ [(Cut.first c text).element], (Cut.first c text).rest, ?_, ?_⟩
          · rw [hrow, elements_cons, List.append_assoc, List.singleton_append]
          · rwa [List.flatMap_append, List.flatMap_singleton]

theorem Reached.exists_stands (hmoves : moves.Sound) (hbounded : Bounded source)
    (hreached : Reached moves source cursor) :
    ∃ before after, cursor.Stands source before after := by
  obtain ⟨before, after, -, hstands⟩ := hreached.exists_row hmoves hbounded
  exact ⟨_, after, hstands⟩

end Cursor

/-- The span of an element has an end that fits into a word. -/
theorem Placed.exists_stop_span {source : String} (hbounded : Bounded source) {placed : Placed}
    (hmem : placed ∈ placedElements source.toList) : ∃ stop, placed.span.stop = .ok stop := by
  have hstop := stop_le_of_mem_placedElements hbounded hmem
  have hsum : placed.span.start.toNat + placed.span.length.toNat < UInt32.size := by
    rw [Placed.toNat_start_span hstop, Placed.toNat_length_span hstop]
    exact Nat.lt_succ_of_le hstop
  exact ⟨_, Word.add_of_lt hsum⟩

/-- In a bounded source a cursor with sound moves runs into no mishap. -/
theorem Moves.Sound.safe {moves : Moves} (hmoves : moves.Sound) {source : String}
    (hbounded : Bounded source) : Cursor.Safe moves source (boundedScan source) := by
  constructor
  case scan_eq => exact Cursor.scan_eq_boundedScan hmoves hbounded
  case boundary =>
    intro cursor hreached
    obtain ⟨before, after, hstands⟩ := hreached.exists_stands hmoves hbounded
    have hcurrent : cursor.current = byteLength before := hstands.current_eq
    rw [hcurrent]
    exact isValid_of_append hstands.toList_eq
  case progress =>
    intro cursor hreached hend
    obtain ⟨before, after, hstands⟩ := hreached.exists_stands hmoves hbounded
    obtain ⟨next, hturn, hlt, _, _, hnext⟩ := hstands.progress hmoves hend
    exact ⟨next, hturn, hlt, hnext.faces.current_le⟩
  case stop_token =>
    intro token hmem
    rw [tokens_boundedScan, List.mem_append, List.mem_singleton] at hmem
    rcases hmem with hmem | rfl
    · obtain ⟨placed, hplaced, houtcome⟩ := mem_tokensOf.mp hmem
      rw [(Placed.of_outcome_eq_token houtcome).2.2.1]
      exact Placed.exists_stop_span hbounded hplaced
    · exact ⟨_, Word.ofNat_toNat _⟩
  case stop_diagnostic =>
    intro diagnostic hmem
    obtain ⟨placed, hplaced, houtcome⟩ := mem_diagnostics.mp hmem
    exact ⟨placed.span, (Placed.of_outcome_eq_diagnostic houtcome).1,
      Placed.exists_stop_span hbounded hplaced⟩

/-- A scan of a bounded source by a cursor over its bytes comes to the end without a
mishap, and finds what the scan by elements finds. -/
theorem cursor_scan_safe {source : String} (hbounded : Bounded source) :
    ∃ found, Cursor.Safe .bulk source found ∧ scan source = .ok found :=
  ⟨boundedScan source, Moves.bulk_sound.safe hbounded, scan_of_bounded hbounded⟩

theorem cursor_scan_safe_of_wide_characters :
    Bounded "\x00é /*/*€\n*/*/ \"😀\n\" 1.5 \"" ∧
      ∃ found, Cursor.Safe .bulk "\x00é /*/*€\n*/*/ \"😀\n\" 1.5 \"" found ∧
        scan "\x00é /*/*€\n*/*/ \"😀\n\" 1.5 \"" = .ok found :=
  have hbounded : Bounded "\x00é /*/*€\n*/*/ \"😀\n\" 1.5 \"" := by decide
  ⟨hbounded, cursor_scan_safe hbounded⟩

end LoxLexer
