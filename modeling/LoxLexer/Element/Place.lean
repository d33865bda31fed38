import LoxLexer.Element.Cut
import LoxLexer.Text.Measure

/-!
# Elements in their place

Each element of a text stands at the offset where the ones before it end, and
on the line that their line feeds have reached.
-/

namespace LoxLexer

/-- An element, with the offset and the line at which it starts. -/
structure Placed where
  element : Element
  start : Nat
  line : Nat
deriving DecidableEq, Repr

namespace Placed

def stop (placed : Placed) : Nat :=
  placed.start + byteLength placed.element.text

def lastLine (placed : Placed) : Nat :=
  placed.line + lineFeeds placed.element.text

end Placed

/-- Places elements from an offset and a line on, behind those in `done`,
which come last one first. -/
def placeAfter (done : List Placed) (offset line : Nat) : List Element → List Placed
  | [] => done.reverse
  | element :: elements =>
    let placed : Placed := ⟨element, offset, line⟩
    placeAfter (placed :: done) placed.stop placed.lastLine elements

def place (offset line : Nat) (elements : List Element) : List Placed :=
  placeAfter [] offset line elements

theorem placeAfter_eq (done : List Placed) (offset line : Nat) (elements : List Element) :
    placeAfter done offset line elements = done.reverse ++ place offset line elements := by
  induction elements generalizing done offset line with
  | nil => simp [place, placeAfter]
  | cons element elements ih =>
    rw [place, placeAfter, placeAfter, ih, ih [_]]
    simp

@[simp] theorem place_nil (offset line : Nat) : place offset line [] = [] := rfl

theorem place_cons (offset line : Nat) (element : Element) (elements : List Element) :
    place offset line (element :: elements) =
      ⟨element, offset, line⟩ ::
        place (offset + byteLength element.text) (line + lineFeeds element.text) elements := by
  rw [place, placeAfter, placeAfter_eq]
  rfl

def placedElements (text : List Char) : List Placed :=
  place 0 1 (elements text)

end LoxLexer
