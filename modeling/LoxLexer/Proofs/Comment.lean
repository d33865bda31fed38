import LoxLexer.Element.Cut

/-!
# Nested block comments

A block comment is an opening mark, a row of items and a closing mark.  An item
is another block comment, or one character at which neither mark begins.  The
cutter does not look for items: it counts the comments that are open, and stops
where that count falls to zero.

Both agree.  From inside a comment the cutter runs exactly through the body
(`Cut.comment_of_commentBody`), and where no closing mark completes the body it
takes all of the text (`Cut.comment_of_unclosed`).  Hence a text has at most one
beginning that is a comment (`IsComment.unique`).
-/

namespace LoxLexer

/-- What follows the opening mark of a block comment, up to and with the mark
that closes it. -/
inductive CommentBody : List Char → Prop where
  | close : CommentBody ['*', '/']
  | character {c : Char} {body : List Char}
      (hclose : ¬ ['*', '/'] <+: c :: body) (hopen : ¬ ['/', '*'] <+: c :: body)
      (hbody : CommentBody body) : CommentBody (c :: body)
  | comment {inner body : List Char} (hinner : CommentBody inner)
      (hbody : CommentBody body) : CommentBody ('/' :: '*' :: (inner ++ body))

/-- A block comment that is closed, with all the comments inside it. -/
def IsComment (text : List Char) : Prop :=
  ∃ body, text = '/' :: '*' :: body ∧ CommentBody body

theorem CommentBody.length_ge {body : List Char} (hbody : CommentBody body) :
    2 ≤ body.length := by
  induction hbody with
  | close => simp
  | character _ _ _ ih =>
      simp only [List.length_cons]
      omega
  | comment _ _ ihinner ihbody =>
      simp only [List.length_cons, List.length_append]
      omega

/-- A mark is seen at the beginning of a body already when nothing that comes
after the body is known. -/
theorem CommentBody.mark_of_mark_append
    {c first second : Char} {body rest : List Char} (hbody : CommentBody body)
    (hmark : [first, second] <+: c :: (body ++ rest)) :
    [first, second] <+: c :: body := by
  have hlength := hbody.length_ge
  cases body with
  | nil => simp at hlength
  | cons next body =>
      rw [List.cons_append, List.cons_prefix_cons, List.cons_prefix_cons] at hmark
      rw [List.cons_prefix_cons, List.cons_prefix_cons]
      exact ⟨hmark.1, hmark.2.1, List.nil_prefix⟩

namespace Cut

theorem comment_cons_of_not_mark
    (outer : Nat) (seen : List Char) {c : Char} {text : List Char}
    (hclose : ¬ ['*', '/'] <+: c :: text) (hopen : ¬ ['/', '*'] <+: c :: text) :
    comment outer seen (c :: text) = comment outer (c :: seen) text := by
  rw [comment]
  · rintro tail rfl rfl
    exact hclose ⟨tail, rfl⟩
  · rintro tail rfl rfl
    exact hopen ⟨tail, rfl⟩

/-- The cutter runs through a body, and goes on in the comment around it if
there is one. -/
theorem comment_of_commentBody
    {body : List Char} (hbody : CommentBody body)
    (outer : Nat) (seen rest : List Char) :
    comment outer seen (body ++ rest) =
      match outer with
      | 0 => ⟨⟨.blockComment, seen.reverse ++ body⟩, rest⟩
      | outer + 1 => comment outer (body.reverse ++ seen) rest := by
  induction hbody generalizing outer seen rest with
  | close =>
      cases outer <;> simp [comment]
  | @character c body hclose hopen hbody ih =>
      have hclose' : ¬ ['*', '/'] <+: c :: (body ++ rest) := fun hmark =>
        hclose (hbody.mark_of_mark_append hmark)
      have hopen' : ¬ ['/', '*'] <+: c :: (body ++ rest) := fun hmark =>
        hopen (hbody.mark_of_mark_append hmark)
      rw [List.cons_append, comment_cons_of_not_mark outer seen hclose' hopen', ih]
      cases outer <;> simp
  | @comment inner body _ _ ihinner ihbody =>
      have hopened :
          comment outer seen ('/' :: '*' :: (inner ++ body) ++ rest) =
            comment (outer + 1) ('*' :: '/' :: seen) (inner ++ (body ++ rest)) := by
        rw [List.cons_append, List.cons_append, List.append_assoc, comment]
      rw [hopened, ihinner]
      simp only
      rw [ihbody]
      cases outer <;> simp

/-- A comment that no body completes takes all of the text. -/
theorem comment_of_unclosed
    (outer : Nat) (seen text : List Char)
    (hunclosed : ∀ body, body <+: text → ¬ CommentBody body) :
    comment outer seen text = ⟨⟨.openComment, seen.reverse ++ text⟩, []⟩ := by
  induction hlength : text.length using Nat.strongRecOn generalizing outer seen text with
  | ind length ih =>
    subst hlength
    cases text with
    | nil => simp [comment]
    | cons c text =>
        by_cases hclose : ['*', '/'] <+: c :: text
        · exact absurd .close (hunclosed _ hclose)
        by_cases hopen : ['/', '*'] <+: c :: text
        · -- Either the comment inside stays open, or the text after it does.
          obtain ⟨after, hafter⟩ := hopen
          simp only [List.cons_append, List.nil_append] at hafter
          rw [← hafter] at hunclosed ih ⊢
          rw [comment]
          by_cases hinner : ∃ inner, inner <+: after ∧ CommentBody inner
          · obtain ⟨inner, ⟨rest, rfl⟩, hinner⟩ := hinner
            have hrest : ∀ body, body <+: rest → ¬ CommentBody body := by
              intro body hbegins hbody
              obtain ⟨tail, rfl⟩ := hbegins
              exact hunclosed _ ⟨tail, by simp⟩ (.comment hinner hbody)
            have hlt : rest.length < ('/' :: '*' :: (inner ++ rest)).length := by
              simp only [List.length_cons, List.length_append]
              omega
            rw [comment_of_commentBody hinner]
            simp only
            rw [ih _ hlt _ _ _ hrest rfl]
            simp
          · have hafter' : ∀ body, body <+: after → ¬ CommentBody body :=
              fun body hbegins hbody => hinner ⟨body, hbegins, hbody⟩
            have hlt : after.length < ('/' :: '*' :: after).length := by
              simp only [List.length_cons]
              omega
            rw [ih _ hlt _ _ _ hafter' rfl]
            simp
        · have htail : ∀ body, body <+: text → ¬ CommentBody body := by
            intro body hbegins hbody
            have hwhole : c :: body <+: c :: text := List.cons_prefix_cons.mpr ⟨rfl, hbegins⟩
            exact hunclosed _ hwhole
              (.character (fun h => hclose (h.trans hwhole)) (fun h => hopen (h.trans hwhole))
                hbody)
          have hlt : text.length < (c :: text).length := Nat.lt_succ_self _
          rw [comment_cons_of_not_mark outer seen hclose hopen, ih _ hlt _ _ _ htail rfl]
          simp

theorem slash_of_commentBody {body : List Char} (hbody : CommentBody body) (rest : List Char) :
    slash ('*' :: (body ++ rest)) = ⟨⟨.blockComment, '/' :: '*' :: body⟩, rest⟩ := by
  rw [slash, comment_of_commentBody hbody]
  rfl

theorem slash_of_unclosed {text : List Char}
    (hunclosed : ∀ body, body <+: text → ¬ CommentBody body) :
    slash ('*' :: text) = ⟨⟨.openComment, '/' :: '*' :: text⟩, []⟩ := by
  rw [slash, comment_of_unclosed 0 _ text hunclosed]
  rfl

/-- What a slash and a star begin is a comment that is closed, or one that takes
all of the text. -/
theorem slash_star_cases (text : List Char) :
    (∃ body rest, text = body ++ rest ∧ CommentBody body ∧
      slash ('*' :: text) = ⟨⟨.blockComment, '/' :: '*' :: body⟩, rest⟩) ∨
    ((∀ body, body <+: text → ¬ CommentBody body) ∧
      slash ('*' :: text) = ⟨⟨.openComment, '/' :: '*' :: text⟩, []⟩) := by
  by_cases hclosed : ∃ body, body <+: text ∧ CommentBody body
  · obtain ⟨body, ⟨rest, rfl⟩, hbody⟩ := hclosed
    exact .inl ⟨body, rest, rfl, hbody, slash_of_commentBody hbody rest⟩
  · have hunclosed : ∀ body, body <+: text → ¬ CommentBody body :=
      fun body hbegins hbody => hclosed ⟨body, hbegins, hbody⟩
    exact .inr ⟨hunclosed, slash_of_unclosed hunclosed⟩

end Cut

/-- In an open comment nothing behind the opening mark is the body of a comment. -/
theorem not_commentBody_of_open {body inner : List Char}
    (hopen : ∀ comment, comment <+: '/' :: '*' :: body → ¬ IsComment comment)
    (hinner : inner <+: body) : ¬ CommentBody inner := by
  intro hbody
  apply hopen ('/' :: '*' :: inner)
  · exact (List.prefix_append_right_inj ['/', '*']).mpr hinner
  · exact ⟨inner, rfl, hbody⟩

/-- At most one beginning of a text is a block comment. -/
theorem IsComment.unique {text first second : List Char}
    (hfirst : IsComment first) (hsecond : IsComment second)
    (hfirstPrefix : first <+: text) (hsecondPrefix : second <+: text) :
    first = second := by
  obtain ⟨firstBody, rfl, hfirstBody⟩ := hfirst
  obtain ⟨secondBody, rfl, hsecondBody⟩ := hsecond
  obtain ⟨firstRest, rfl⟩ := hfirstPrefix
  obtain ⟨secondRest, htext⟩ := hsecondPrefix
  simp only [List.cons_append, List.cons.injEq, true_and] at htext
  have hcut :
      Cut.slash ('*' :: (firstBody ++ firstRest)) =
        Cut.slash ('*' :: (secondBody ++ secondRest)) := by
    rw [htext]
  rw [Cut.slash_of_commentBody hfirstBody, Cut.slash_of_commentBody hsecondBody] at hcut
  exact congrArg (fun cut : Cut => cut.element.text) hcut

end LoxLexer
