import LoxLexer.Proofs.Cursor.Motion

/-!
# The loop over a block comment

In a block comment a cursor goes on byte by byte, and stops inside characters as
well as between them.  It compares what it sees there with the characters of the
marks only, and no byte inside a character is one of these.  So it finds the marks that
the cutter finds (`Faces.mark_iff`), and takes the text that the cutter takes
(`Faces.skipComment`).
-/

namespace LoxLexer

namespace Cursor

variable {source : String} {cursor : Cursor} {text : List Char} {c : Char} {depth : UInt32}
  {byte : UInt8} {bytes more : List UInt8}

theorem Faces.mark_iff (hfaces : cursor.Faces source (encode text)) {first second : Char}
    (hfirst : first.toNat < 128) (hfirstNull : first ≠ '\x00') (hsecond : second.toNat < 128)
    (hsecondNull : second ≠ '\x00') :
    cursor.peek source = first ∧ cursor.peekNext source = second ↔ [first, second] <+: text := by
  have hascii : ∀ c : Char, decide (c = second) → c.toNat < 128 := by
    intro c hc
    rw [of_decide_eq_true hc]
    exact hsecond
  have hseen := hfaces.peek_and_peekNext_iff first (fun c => decide (c = second)) hfirst hfirstNull
    hascii (decide_eq_false hsecondNull.symm)
  simp only [decide_eq_true_eq] at hseen
  rw [hseen]
  constructor
  · rintro ⟨_, rest, rfl, rfl⟩
    exact ⟨rest, rfl⟩
  · rintro ⟨rest, rfl⟩
    exact ⟨second, rest, rfl, rfl⟩

theorem commentLoop_of_depth_zero : commentLoop source (0, cursor) = .ok (0, cursor) :=
  loop_of_not rfl

theorem Faces.commentLoop_nil (hfaces : cursor.Faces source []) :
    commentLoop source (depth, cursor) = .ok (depth, cursor) := by
  apply loop_of_not
  simp [commentGoesOn, hfaces.atEnd_iff.mpr rfl]

theorem Faces.commentLoop_of_turn {next : UInt32} (hfaces : cursor.Faces source (bytes ++ more))
    (hbytes : bytes ≠ []) (hdepth : 0 < depth)
    (hturn : commentTurn source (depth, cursor) = .ok (next, cursor.moved bytes)) :
    commentLoop source (depth, cursor) = commentLoop source (next, cursor.moved bytes) := by
  have hend : cursor.atEnd source = false := by
    rw [Bool.eq_false_iff, ne_eq, hfaces.atEnd_iff, List.append_eq_nil_iff]
    exact fun hnil => hbytes hnil.1
  have hlt : cursor.current < (cursor.moved bytes).current := by
    rw [current_moved]
    exact Nat.lt_add_of_pos_right (List.length_pos_iff.mpr hbytes)
  apply loop_of_move ?_ hturn hlt hfaces.moved.current_le
  simp [commentGoesOn, hend, hdepth]

/-- A byte at which no mark begins is passed over. -/
theorem Faces.commentLoop_of_byte (hfaces : cursor.Faces source (byte :: bytes))
    (hdepth : 0 < depth)
    (hclose : ¬ (cursor.peek source = '*' ∧ cursor.peekNext source = '/'))
    (hopen : ¬ (cursor.peek source = '/' ∧ cursor.peekNext source = '*')) :
    commentLoop source (depth, cursor) = commentLoop source (depth, cursor.moved [byte]) := by
  have hturn : commentTurn source (depth, cursor) = .ok (depth, cursor.moved [byte]) := by
    rw [commentTurn, if_neg hclose, if_neg hopen, bind_of_eq_ok hfaces.advance]
    rfl
  rw [← List.singleton_append] at hfaces
  exact hfaces.commentLoop_of_turn (List.cons_ne_nil _ _) hdepth hturn

/-- Inside a character no mark begins. -/
theorem Faces.commentLoop_of_high {high : List UInt8} (hfaces : cursor.Faces source (high ++ more))
    (hhigh : ∀ byte ∈ high, 128 ≤ byte.toNat) (hdepth : 0 < depth) :
    commentLoop source (depth, cursor) = commentLoop source (depth, cursor.moved high) := by
  induction high generalizing cursor with
  | nil => rw [moved_nil]
  | cons byte high ih =>
      have hbyte := hhigh byte List.mem_cons_self
      have hpeek : 128 ≤ (cursor.peek source).toNat := by
        rw [hfaces.peek_eq]
        exact hbyte
      have hclose : ¬ (cursor.peek source = '*' ∧ cursor.peekNext source = '/') := by
        rintro ⟨hstar, -⟩
        rw [hstar] at hpeek
        exact absurd hpeek (by decide)
      have hopen : ¬ (cursor.peek source = '/' ∧ cursor.peekNext source = '*') := by
        rintro ⟨hslash, -⟩
        rw [hslash] at hpeek
        exact absurd hpeek (by decide)
      rw [List.cons_append] at hfaces
      rw [hfaces.commentLoop_of_byte hdepth hclose hopen]
      rw [← List.singleton_append] at hfaces
      rw [ih hfaces.moved fun other hother => hhigh other (List.mem_cons_of_mem _ hother),
        moved_moved, List.singleton_append]

/-- A character at which no mark begins is passed over, byte by byte. -/
theorem Faces.commentLoop_of_character (hfaces : cursor.Faces source (encode (c :: text)))
    (hdepth : 0 < depth) (hclose : ¬ ['*', '/'] <+: c :: text)
    (hopen : ¬ ['/', '*'] <+: c :: text) :
    commentLoop source (depth, cursor) =
      commentLoop source (depth, cursor.moved (encode [c])) := by
  rw [← hfaces.mark_iff (by decide) (by decide) (by decide) (by decide)] at hclose hopen
  obtain ⟨byte, high, hbytes, hhigh, -⟩ := exists_encodeChar c
  rw [encode_cons, hbytes, List.cons_append] at hfaces
  rw [hfaces.commentLoop_of_byte hdepth hclose hopen]
  rw [← List.singleton_append] at hfaces
  rw [hfaces.moved.commentLoop_of_high hhigh hdepth, moved_moved, encode_cons, hbytes, encode_nil,
    List.append_nil, List.singleton_append]

theorem Faces.commentLoop_of_close (hfaces : cursor.Faces source (encode ('*' :: '/' :: text)))
    (hdepth : 0 < depth) :
    commentLoop source (depth, cursor) =
      commentLoop source (depth - 1, cursor.moved (encode ['*', '/'])) := by
  have hclose := (hfaces.mark_iff (by decide) (by decide) (by decide) (by decide)).mpr ⟨text, rfl⟩
  have hne : depth ≠ 0 := by
    rintro rfl
    exact absurd hdepth (by decide)
  have hstar := hfaces.advance_ascii (by decide)
  have hslash := hfaces.behind_head.advance_ascii (by decide)
  rw [moved_encode] at hslash
  have hturn : commentTurn source (depth, cursor) =
      .ok (depth - 1, cursor.moved (encode ['*', '/'])) := by
    rw [commentTurn, if_pos hclose, bind_of_eq_ok hstar, bind_of_eq_ok hslash, if_neg hne]
    rfl
  have hmark : cursor.Faces source (encode ['*', '/'] ++ encode text) := by
    rwa [← encode_append]
  exact hmark.commentLoop_of_turn (by decide) hdepth hturn

theorem Faces.commentLoop_of_open (hfaces : cursor.Faces source (encode ('/' :: '*' :: text)))
    (hdepth : 0 < depth) (hfits : depth.toNat + 1 < UInt32.size) :
    commentLoop source (depth, cursor) =
      commentLoop source (depth + 1, cursor.moved (encode ['/', '*'])) := by
  have hopen := (hfaces.mark_iff (by decide) (by decide) (by decide) (by decide)).mpr ⟨text, rfl⟩
  have hclose : ¬ (cursor.peek source = '*' ∧ cursor.peekNext source = '/') := by
    rw [hopen.1]
    exact fun hstar => absurd hstar.1 (by decide)
  have hslash := hfaces.advance_ascii (by decide)
  have hstar := hfaces.behind_head.advance_ascii (by decide)
  rw [moved_encode] at hstar
  have hturn : commentTurn source (depth, cursor) =
      .ok (depth + 1, cursor.moved (encode ['/', '*'])) := by
    rw [commentTurn, if_neg hclose, if_pos hopen, bind_of_eq_ok hslash, bind_of_eq_ok hstar,
      Word.add_of_lt hfits]
    rfl
  have hmark : cursor.Faces source (encode ['/', '*'] ++ encode text) := by
    rwa [← encode_append]
  exact hmark.commentLoop_of_turn (by decide) hdepth hturn

theorem pos_and_toNat_pred {outer : Nat} (hdepth : depth.toNat = outer + 1) :
    0 < depth ∧ (depth - 1).toNat = outer := by
  have hle : (1 : UInt32) ≤ depth := by
    rw [UInt32.le_iff_toNat_le, hdepth]
    exact Nat.le_add_left 1 outer
  constructor
  · rw [UInt32.lt_iff_toNat_lt, hdepth]
    exact Nat.succ_pos outer
  · rw [UInt32.toNat_sub_of_le _ _ hle, hdepth]
    rfl

/-- The loop over a comment takes what the cutter takes.  The depth fits into a word
as long as it and the number of bytes in front of the cursor together do. -/
theorem Faces.commentLoop_eq {outer : Nat} {seen : List Char}
    (hfaces : cursor.Faces source (encode text)) (hdepth : depth.toNat = outer + 1)
    (hfits : depth.toNat + byteLength text < UInt32.size) :
    ∃ left taken, (Cut.comment outer seen text).element.text = seen.reverse ++ taken ∧
      commentLoop source (depth, cursor) = .ok (left, cursor.moved (encode taken)) := by
  have hstar : '*'.utf8Size = 1 := rfl
  have hslash : '/'.utf8Size = 1 := rfl
  -- The cutter and the loop open and close comments at the same characters.
  fun_induction Cut.comment outer seen text generalizing cursor depth with
  | case1 outer seen =>
      refine ⟨depth, [], (List.append_nil _).symm, ?_⟩
      rw [hfaces.commentLoop_nil, encode_nil, moved_nil]
  | case2 seen text =>
      obtain ⟨hpos, hpred⟩ := pos_and_toNat_pred hdepth
      have hzero : depth - 1 = 0 := UInt32.toNat_inj.mp hpred
      refine ⟨0, ['*', '/'], by simp, ?_⟩
      rw [hfaces.commentLoop_of_close hpos, hzero, commentLoop_of_depth_zero]
  | case3 seen text outer ih =>
      obtain ⟨hpos, hpred⟩ := pos_and_toNat_pred hdepth
      rw [byteLength_cons, byteLength_cons] at hfits
      have hrest := hfaces.behind_head.behind_head
      rw [moved_encode] at hrest
      obtain ⟨left, taken, htext, hloop⟩ := ih hrest hpred (by omega)
      refine ⟨left, '*' :: '/' :: taken, by simp [htext], ?_⟩
      rw [hfaces.commentLoop_of_close hpos]
      exact hloop.trans (by rw [moved_encode]; rfl)
  | case4 outer seen text ih =>
      rw [byteLength_cons, byteLength_cons] at hfits
      have hsize : UInt32.size = 4294967296 := rfl
      have hsucc : (depth + 1).toNat = outer + 1 + 1 := by
        rw [UInt32.toNat_add, UInt32.toNat_one, hdepth]
        exact Nat.mod_eq_of_lt (by omega)
      have hrest := hfaces.behind_head.behind_head
      rw [moved_encode] at hrest
      obtain ⟨left, taken, htext, hloop⟩ := ih hrest hsucc (by omega)
      refine ⟨left, '/' :: '*' :: taken, by simp [htext], ?_⟩
      rw [hfaces.commentLoop_of_open (pos_and_toNat_pred hdepth).1 (by omega)]
      exact hloop.trans (by rw [moved_encode]; rfl)
  | case5 outer seen c text hclose hopen ih =>
      have hclose' : ¬ ['*', '/'] <+: c :: text := by
        rintro ⟨rest, hrest⟩
        cases hrest
        exact hclose rest rfl rfl
      have hopen' : ¬ ['/', '*'] <+: c :: text := by
        rintro ⟨rest, hrest⟩
        cases hrest
        exact hopen rest rfl rfl
      rw [byteLength_cons] at hfits
      obtain ⟨left, taken, htext, hloop⟩ := ih hfaces.behind_head hdepth (by omega)
      refine ⟨left, c :: taken, by simp [htext], ?_⟩
      rw [hfaces.commentLoop_of_character (pos_and_toNat_pred hdepth).1 hclose' hopen', hloop,
        moved_encode, List.singleton_append]

theorem Faces.skipComment (hfaces : cursor.Faces source (encode text)) (seen : List Char)
    (hfits : 1 + byteLength text < UInt32.size) :
    ∃ taken, (Cut.comment 0 seen text).element.text = seen.reverse ++ taken ∧
      cursor.skipComment source = .ok (cursor.moved (encode taken)) := by
  have hdepth : (1 : UInt32).toNat = 0 + 1 := rfl
  obtain ⟨left, taken, htext, hloop⟩ := hfaces.commentLoop_eq hdepth hfits
  refine ⟨taken, htext, ?_⟩
  rw [Cursor.skipComment, bind_of_eq_ok hloop]
  rfl

end Cursor

end LoxLexer
