import LoxLexer.Proofs.Cursor.Safety

/-!
# Nested comments, byte by byte

Seen as bytes, a comment is an opening mark, a row of items and a closing mark.  An item is a
comment again, or one byte at which neither mark begins in the text (`CommentItems`).  Bytes
inside a character are no marks, so the comments among the bytes of a text are the
encodings of the comments among its characters (`isNestedComment_encode_iff`), and there is at
most one at each place.

A cursor between two turns which has an opening mark in front of it only counts how many
comments are open.  Its turn ends behind the comment all the same, or at the end of the text if
there is none (`scan_skips_nestedComments`).
-/

namespace LoxLexer

/-- Items of a comment in a row, at the beginning of some bytes, and the bytes behind them.
The bytes 42 and 47 are a star and a slash. -/
inductive CommentItems : List UInt8 → List UInt8 → Prop where
  | none {text : List UInt8} : CommentItems text text
  | comment {inside middle rest : List UInt8}
      (hinside : CommentItems inside (42 :: 47 :: middle))
      (hitems : CommentItems middle rest) : CommentItems (47 :: 42 :: inside) rest
  | byte {byte : UInt8} {text rest : List UInt8} (hclose : ¬ [42, 47] <+: byte :: text)
      (hopen : ¬ [47, 42] <+: byte :: text) (hitems : CommentItems text rest) :
      CommentItems (byte :: text) rest

/-- A beginning of some bytes that is a comment. -/
def IsNestedComment (text piece : List UInt8) : Prop :=
  ∃ inside rest, text = 47 :: 42 :: inside ∧ CommentItems inside (42 :: 47 :: rest) ∧
    text = piece ++ rest

theorem cons_prefix_encode_iff {byte : UInt8} (hbyte : byte.toNat < 128) {bytes : List UInt8}
    {text : List Char} :
    byte :: bytes <+: encode text ↔
      ∃ rest, text = Char.ofUInt8 byte :: rest ∧ bytes <+: encode rest := by
  constructor
  · intro hbegins
    cases text with
    | nil => simp at hbegins
    | cons c text =>
        obtain ⟨first, high, hbytes, -, hfirst⟩ := exists_encodeChar c
        rw [encode_cons, hbytes, List.cons_append, List.cons_prefix_cons] at hbegins
        obtain ⟨rfl, hbegins⟩ := hbegins
        obtain ⟨-, rfl⟩ | ⟨-, hwide⟩ := hfirst
        · rw [encodeChar_ofUInt8 hbyte, List.cons.injEq] at hbytes
          rw [← hbytes.2, List.nil_append] at hbegins
          exact ⟨text, rfl, hbegins⟩
        · exact absurd hbyte (Nat.not_lt.mpr hwide)
  · rintro ⟨rest, rfl, hbegins⟩
    rw [encode_cons, encodeChar_ofUInt8 hbyte, List.singleton_append, List.cons_prefix_cons]
    exact ⟨rfl, hbegins⟩

theorem mark_prefix_encode_iff {first second : UInt8} (hfirst : first.toNat < 128)
    (hsecond : second.toNat < 128) {text : List Char} :
    [first, second] <+: encode text ↔ [Char.ofUInt8 first, Char.ofUInt8 second] <+: text := by
  rw [cons_prefix_encode_iff hfirst]
  constructor
  · rintro ⟨rest, rfl, hbegins⟩
    obtain ⟨rest, rfl, -⟩ := (cons_prefix_encode_iff hsecond).mp hbegins
    exact ⟨rest, rfl⟩
  · rintro ⟨rest, rfl⟩
    exact ⟨_, rfl, (cons_prefix_encode_iff hsecond).mpr ⟨rest, rfl, List.nil_prefix⟩⟩

theorem close_prefix_encode_iff {text : List Char} :
    [42, 47] <+: encode text ↔ ['*', '/'] <+: text :=
  mark_prefix_encode_iff (by decide) (by decide)

theorem open_prefix_encode_iff {text : List Char} :
    [47, 42] <+: encode text ↔ ['/', '*'] <+: text :=
  mark_prefix_encode_iff (by decide) (by decide)

theorem not_mark_prefix_of_high {byte first second : UInt8} (hbyte : 128 ≤ byte.toNat)
    (hfirst : first.toNat < 128) (bytes : List UInt8) : ¬ [first, second] <+: byte :: bytes := by
  rw [List.cons_prefix_cons]
  rintro ⟨rfl, -⟩
  exact absurd hfirst (Nat.not_lt.mpr hbyte)

variable {text body : List Char} {stop : List UInt8}

/-- Bytes inside a character are items. -/
theorem CommentItems.high_append {bytes high : List UInt8}
    (hhigh : ∀ byte ∈ high, 128 ≤ byte.toNat) (hitems : CommentItems bytes stop) :
    CommentItems (high ++ bytes) stop := by
  induction high with
  | nil => exact hitems
  | cons byte high ih =>
      have hbyte := hhigh byte List.mem_cons_self
      exact .byte (not_mark_prefix_of_high hbyte (by decide) _)
        (not_mark_prefix_of_high hbyte (by decide) _)
        (ih fun other hother => hhigh other (List.mem_cons_of_mem _ hother))

theorem CommentItems.character {c : Char} (hclose : ¬ ['*', '/'] <+: c :: text)
    (hopen : ¬ ['/', '*'] <+: c :: text) (hitems : CommentItems (encode text) stop) :
    CommentItems (encode (c :: text)) stop := by
  rw [← close_prefix_encode_iff] at hclose
  rw [← open_prefix_encode_iff] at hopen
  obtain ⟨byte, high, hbytes, hhigh, -⟩ := exists_encodeChar c
  rw [encode_cons, hbytes, List.cons_append] at hclose hopen ⊢
  exact .byte hclose hopen (hitems.high_append hhigh)

theorem CommentBody.commentItems (hbody : CommentBody body) (after : List Char) :
    CommentItems (encode (body ++ after)) (42 :: 47 :: encode after) := by
  induction hbody generalizing after with
  | close => exact .none
  | character hclose hopen hbody ih =>
      exact .character (fun hmark => hclose (hbody.mark_of_mark_append hmark))
        (fun hmark => hopen (hbody.mark_of_mark_append hmark)) (ih after)
  | @comment inner body _ _ ihinner ihbody =>
      have hinside := ihinner (body ++ after)
      rw [← List.append_assoc] at hinside
      exact .comment hinside (ihbody after)

/-- Where items and a closing mark begin a text, perhaps behind the remainder of a
character, they are the body of a comment. -/
theorem CommentItems.exists_commentBody {bytes rest high : List UInt8}
    (hitems : CommentItems bytes stop) (hstop : stop = 42 :: 47 :: rest)
    (hhigh : ∀ byte ∈ high, 128 ≤ byte.toNat) (hbytes : bytes = high ++ encode text) :
    ∃ body after, text = body ++ after ∧ CommentBody body ∧ rest = encode after := by
  induction hitems generalizing high text rest with
  | none =>
      subst hbytes
      cases high with
      | nil =>
          have hmark : [42, 47] <+: encode text := ⟨rest, hstop.symm⟩
          obtain ⟨after, rfl⟩ := close_prefix_encode_iff.mp hmark
          refine ⟨['*', '/'], after, rfl, .close, ?_⟩
          have hencode : encode (['*', '/'] ++ after) = 42 :: 47 :: encode after := rfl
          rw [List.nil_append, hencode] at hstop
          exact (List.cons.inj (List.cons.inj hstop).2).2.symm
      | cons byte high =>
          obtain ⟨rfl, -⟩ := List.cons.inj hstop
          exact absurd (hhigh 42 List.mem_cons_self) (by decide)
  | @comment inside middle stop hinside hitems ihinside ih =>
      cases high with
      | nil =>
          have hmark : [47, 42] <+: encode text := ⟨inside, hbytes⟩
          obtain ⟨text, rfl⟩ := open_prefix_encode_iff.mp hmark
          have hinner : inside = encode text := (List.cons.inj (List.cons.inj hbytes).2).2
          obtain ⟨inner, between, rfl, hinnerBody, hmiddle⟩ := ihinside rfl hhigh hinner
          obtain ⟨body, after, rfl, hbody, hrest⟩ := ih hstop hhigh hmiddle
          exact ⟨'/' :: '*' :: (inner ++ body), after, by simp, .comment hinnerBody hbody, hrest⟩
      | cons byte high =>
          obtain ⟨rfl, -⟩ := List.cons.inj hbytes
          exact absurd (hhigh 47 List.mem_cons_self) (by decide)
  | @byte byte bytes stop hclose hopen hitems ih =>
      cases high with
      | nil =>
          cases text with
          | nil => cases hbytes
          | cons c text =>
              obtain ⟨first, other, hc, hother, -⟩ := exists_encodeChar c
              have hwhole : byte :: bytes = encode (c :: text) := hbytes
              rw [hwhole] at hclose hopen
              rw [encode_cons, hc, List.cons_append, List.cons.injEq] at hwhole
              obtain ⟨body, after, rfl, hbody, hrest⟩ := ih hstop hother hwhole.2
              have hbegins : c :: body <+: c :: (body ++ after) := ⟨after, rfl⟩
              refine ⟨c :: body, after, rfl, .character ?_ ?_ hbody, hrest⟩
              · exact fun hmark => hclose (close_prefix_encode_iff.mpr (hmark.trans hbegins))
              · exact fun hmark => hopen (open_prefix_encode_iff.mpr (hmark.trans hbegins))
      | cons first high =>
          rw [List.cons_append, List.cons.injEq] at hbytes
          exact ih hstop (fun other hother => hhigh other (List.mem_cons_of_mem _ hother)) hbytes.2

/-- The comments among the bytes of a text are those among its characters. -/
theorem isNestedComment_encode_iff {piece : List UInt8} :
    IsNestedComment (encode text) piece ↔
      ∃ comment, IsComment comment ∧ comment <+: text ∧ piece = encode comment := by
  constructor
  · rintro ⟨inside, rest, htext, hitems, hpiece⟩
    obtain ⟨text, rfl⟩ := open_prefix_encode_iff.mp ⟨inside, htext.symm⟩
    have hinside : inside = encode text := (List.cons.inj (List.cons.inj htext).2).2.symm
    have hnone : ∀ byte ∈ ([] : List UInt8), 128 ≤ byte.toNat := by simp
    obtain ⟨body, after, rfl, hbody, rfl⟩ := hitems.exists_commentBody rfl hnone hinside
    refine ⟨'/' :: '*' :: body, ⟨body, rfl, hbody⟩, ⟨after, rfl⟩, ?_⟩
    have hsplit : ['/', '*'] ++ (body ++ after) = '/' :: '*' :: body ++ after := rfl
    rw [hsplit, encode_append] at hpiece
    exact (List.append_cancel_right hpiece).symm
  · rintro ⟨_, ⟨body, rfl, hbody⟩, ⟨after, rfl⟩, rfl⟩
    exact ⟨encode (body ++ after), encode after, rfl, hbody.commentItems after,
      encode_append _ _⟩

theorem IsNestedComment.unique {piece other : List UInt8}
    (hpiece : IsNestedComment (encode text) piece) (hother : IsNestedComment (encode text) other) :
    piece = other := by
  obtain ⟨comment, hcomment, hbegins, rfl⟩ := isNestedComment_encode_iff.mp hpiece
  obtain ⟨second, hsecond, hsecondBegins, rfl⟩ := isNestedComment_encode_iff.mp hother
  rw [hcomment.unique hsecond hbegins hsecondBegins]

namespace Cursor

/-- The bytes in front of a cursor. -/
def ahead (source : String) (cursor : Cursor) : List UInt8 :=
  (bytesOf source).drop cursor.current

/-- What a turn does that takes a cursor over a comment.  The element that stands at the cursor
is that comment. -/
structure SkipsComment (source : String) (cursor next : Cursor) : Prop where
  unique : ∀ piece other, IsNestedComment (cursor.ahead source) piece →
    IsNestedComment (cursor.ahead source) other → piece = other
  current_of_comment : ∀ piece, IsNestedComment (cursor.ahead source) piece →
    next.current = cursor.current + piece.length
  current_of_open : (∀ piece, ¬ IsNestedComment (cursor.ahead source) piece) →
    next.current = source.utf8ByteSize
  line_eq : next.line.toNat = cursor.line.toNat +
    ((cursor.ahead source).take (next.current - cursor.current)).count 10
  tokens_eq : next.tokens = cursor.tokens
  diagnostics_eq : next.diagnostics = cursor.diagnostics
  element : ∃ before element after, elements source.toList = before ++ element :: after ∧
    (element.form = .blockComment ∨ element.form = .openComment) ∧
    cursor.current = byteLength (before.flatMap Element.text) ∧
    next.current = cursor.current + byteLength element.text

variable {source : String} {cursor : Cursor} {moves : Moves}

variable {before : List Char}

theorem Stands.ahead_eq {after : List Char} (hstands : cursor.Stands source before after) :
    cursor.ahead source = encode after :=
  hstands.faces.drop_eq

/-- Behind an element the cursor has counted the line feeds of its bytes. -/
theorem Stands.toNat_line_behind {element : Element} {after : List Char}
    (hstands : cursor.Stands source before (element.text ++ after)) :
    (cursor.behind element).line.toNat = cursor.line.toNat +
      ((cursor.ahead source).take ((cursor.behind element).current - cursor.current)).count 10 := by
  have hfits := hstands.faces.fits
  have htaken : (cursor.behind element).current - cursor.current = (encode element.text).length :=
    Nat.add_sub_cancel_left _ _
  rw [length_encode, byteLength_append] at hfits
  rw [hstands.ahead_eq, htaken, encode_append, List.take_left, count_lineFeed_encode]
  exact Cursor.toNat_line_behind (by omega)

/-- A turn in front of an opening mark takes a comment that is closed, or else all of the
text. -/
theorem Stands.skipsComment {row : List Element}
    (hrow : elements source.toList = row ++ elements ('/' :: '*' :: text))
    (hstands : cursor.Stands source (row.flatMap Element.text) ('/' :: '*' :: text)) :
    cursor.SkipsComment source (cursor.behind (Cut.first '/' ('*' :: text)).element) := by
  have hcut : Cut.first '/' ('*' :: text) = Cut.slash ('*' :: text) := rfl
  have hcurrent := current_behind cursor (Cut.first '/' ('*' :: text)).element
  have hnothing : (cursor.place (Cut.first '/' ('*' :: text)).element).outcome = .nothing := by
    rw [outcome_place]
    exact finding_comment 0 ['*', '/'] text _ _ _
  constructor
  case unique =>
    rw [hstands.ahead_eq]
    exact fun _ _ => IsNestedComment.unique
  case current_of_comment =>
    intro piece hpiece
    rw [hstands.ahead_eq, isNestedComment_encode_iff] at hpiece
    obtain ⟨_, ⟨body, rfl, hbody⟩, ⟨rest, hsplit⟩, rfl⟩ := hpiece
    obtain rfl : body ++ rest = text := (List.cons.inj (List.cons.inj hsplit).2).2
    rw [hcurrent, hcut, Cut.slash_of_commentBody hbody, length_encode]
  case current_of_open =>
    intro hopen
    have hunclosed : ∀ body, body <+: text → ¬ CommentBody body := by
      rintro body ⟨rest, rfl⟩ hbody
      apply hopen (encode ('/' :: '*' :: body))
      rw [hstands.ahead_eq, isNestedComment_encode_iff]
      exact ⟨_, ⟨body, rfl, hbody⟩, ⟨rest, rfl⟩, rfl⟩
    have hall := hstands.faces.current_add_length
    rw [hcurrent, hcut, Cut.slash_of_unclosed hunclosed, ← hall, length_encode]
  case line_eq =>
    rw [← Cut.text_append_rest] at hstands
    exact hstands.toNat_line_behind
  case tokens_eq =>
    rw [tokens_behind, hnothing]
    exact List.append_nil _
  case diagnostics_eq =>
    rw [diagnostics_behind, hnothing]
    exact List.append_nil _
  case element =>
    rw [elements_cons] at hrow
    refine ⟨row, _, _, hrow, ?_, hstands.current_eq, hcurrent⟩
    rw [hcut]
    rcases Cut.slash_star_cases text with ⟨body, rest, -, -, hclosed⟩ | ⟨-, hopen⟩
    · rw [hclosed]
      exact .inl rfl
    · rw [hopen]
      exact .inr rfl

end Cursor

/-- Where a scan meets an opening mark, the bytes in front of it have at most one beginning that
is a comment, and the scan goes on behind that comment.  If there is none, it goes on at the
end.  It counts the line feeds on its way, and finds nothing there. -/
theorem scan_skips_nestedComments {source : String} (hbounded : Bounded source) {cursor : Cursor}
    (hreached : Cursor.Reached .bulk source cursor) (hopens : [47, 42] <+: cursor.ahead source) :
    (∃ found, Cursor.scan .bulk source = .ok found ∧ scan source = .ok found) ∧
      ∃ next, cursor.turn .bulk source = .ok next ∧ cursor.SkipsComment source next := by
  obtain ⟨before, after, hrow, hstands⟩ := hreached.exists_row Moves.bulk_sound hbounded
  rw [hstands.ahead_eq] at hopens
  obtain ⟨text, rfl⟩ := open_prefix_encode_iff.mp hopens
  constructor
  · exact ⟨_, Cursor.scan_eq_boundedScan Moves.bulk_sound hbounded, scan_of_bounded hbounded⟩
  · exact ⟨_, hstands.turn Moves.bulk_sound, hstands.skipsComment hrow⟩

theorem scan_skips_nestedComments_of_overlapping_marks :
    Bounded "/*/*é*/\n/*/**/*/ \"**/ */" ∧
      Cursor.Reached .bulk "/*/*é*/\n/*/**/*/ \"**/ */" .initial ∧
      [47, 42] <+: Cursor.initial.ahead "/*/*é*/\n/*/**/*/ \"**/ */" ∧
      (∃ found, Cursor.scan .bulk "/*/*é*/\n/*/**/*/ \"**/ */" = .ok found ∧
        scan "/*/*é*/\n/*/**/*/ \"**/ */" = .ok found) ∧
      ∃ next, Cursor.initial.turn .bulk "/*/*é*/\n/*/**/*/ \"**/ */" = .ok next ∧
        Cursor.initial.SkipsComment "/*/*é*/\n/*/**/*/ \"**/ */" next :=
  have hbounded : Bounded "/*/*é*/\n/*/**/*/ \"**/ */" := by decide
  have hopens : [47, 42] <+: Cursor.initial.ahead "/*/*é*/\n/*/**/*/ \"**/ */" := ⟨_, rfl⟩
  ⟨hbounded, .initial, hopens, scan_skips_nestedComments hbounded .initial hopens⟩

end LoxLexer
