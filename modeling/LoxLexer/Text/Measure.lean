/-!
# Measures of a text

A text is a list of characters.  Its length in bytes is that of its UTF-8
encoding, and it has as many line breaks as line feeds.
-/

namespace LoxLexer

/-- The number of bytes of a text in UTF-8. -/
def byteLength (text : List Char) : Nat :=
  text.foldl (fun length c => length + c.utf8Size) 0

def lineFeeds (text : List Char) : Nat :=
  text.count '\n'

theorem foldl_utf8Size (length : Nat) (text : List Char) :
    text.foldl (fun length c => length + c.utf8Size) length = length + byteLength text := by
  induction text generalizing length with
  | nil => rfl
  | cons c text ih =>
    rw [byteLength, List.foldl_cons, List.foldl_cons, ih, ih]
    omega

@[simp] theorem byteLength_nil : byteLength [] = 0 := rfl

@[simp] theorem byteLength_cons (c : Char) (text : List Char) :
    byteLength (c :: text) = c.utf8Size + byteLength text := by
  rw [byteLength, List.foldl_cons, foldl_utf8Size]
  omega

@[simp] theorem byteLength_append (x y : List Char) :
    byteLength (x ++ y) = byteLength x + byteLength y := by
  induction x with
  | nil => simp
  | cons c x ih => rw [List.cons_append, byteLength_cons, ih, byteLength_cons, Nat.add_assoc]

@[simp] theorem lineFeeds_nil : lineFeeds [] = 0 := rfl

@[simp] theorem lineFeeds_append (x y : List Char) :
    lineFeeds (x ++ y) = lineFeeds x + lineFeeds y :=
  List.count_append

theorem lineFeeds_le_byteLength (text : List Char) : lineFeeds text ≤ byteLength text := by
  induction text with
  | nil => simp
  | cons c text ih =>
    have hpos := c.utf8Size_pos
    simp only [lineFeeds, List.count_cons, byteLength_cons] at ih ⊢
    split <;> omega

end LoxLexer
