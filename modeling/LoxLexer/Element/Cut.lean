import LoxLexer.Element.Basic

/-!
# Cutting a text into elements

`Cut.first` takes the first element off a text that is not empty.  It loses
nothing (`Cut.text_append_rest`) and takes at least one character
(`Cut.length_rest_le`), so cutting again and again ends.
-/

namespace LoxLexer

/-- An element, and the text after it. -/
structure Cut where
  element : Element
  rest : List Char

namespace Cut

/-- Takes a number off a text after its first digit.  A point belongs to the
number only in front of another digit. -/
def number (first : Char) (text : List Char) : Cut :=
  match text.dropWhile isDigit with
  | '.' :: digit :: rest =>
    if isDigit digit then
      ⟨⟨.number,
          first :: (text.takeWhile isDigit ++ '.' :: digit :: rest.takeWhile isDigit)⟩,
        rest.dropWhile isDigit⟩
    else
      ⟨⟨.number, first :: text.takeWhile isDigit⟩, '.' :: digit :: rest⟩
  | rest => ⟨⟨.number, first :: text.takeWhile isDigit⟩, rest⟩

/-- Takes a word off a text after its first letter. -/
def word (first : Char) (text : List Char) : Cut :=
  ⟨⟨.word, first :: text.takeWhile isWordCharacter⟩, text.dropWhile isWordCharacter⟩

/-- Takes a string off a text after its opening quote. -/
def string (text : List Char) : Cut :=
  match text.dropWhile (· != '"') with
  | [] => ⟨⟨.openString, '"' :: text⟩, []⟩
  | quote :: rest => ⟨⟨.string, '"' :: (text.takeWhile (· != '"') ++ [quote])⟩, rest⟩

/-- Takes the remainder of a block comment off a text.  It lies inside
`outer` further comments, and the characters before it are `seen`, the last
one first. -/
def comment (outer : Nat) (seen : List Char) : List Char → Cut
  | [] => ⟨⟨.openComment, seen.reverse⟩, []⟩
  | '*' :: '/' :: text =>
    match outer with
    | 0 => ⟨⟨.blockComment, ('/' :: '*' :: seen).reverse⟩, text⟩
    | outer + 1 => comment outer ('/' :: '*' :: seen) text
  | '/' :: '*' :: text => comment (outer + 1) ('*' :: '/' :: seen) text
  | c :: text => comment outer (c :: seen) text

/-- Takes what a slash begins off a text after that slash. -/
def slash : List Char → Cut
  | '/' :: text =>
    ⟨⟨.lineComment, '/' :: '/' :: text.takeWhile (· != '\n')⟩, text.dropWhile (· != '\n')⟩
  | '*' :: text => comment 0 ['*', '/'] text
  | text => ⟨⟨.symbol .slash, ['/']⟩, text⟩

/-- Takes an operator off a text after its first character. -/
def operator (first : Char) (forms : Kind.OperatorForms) : List Char → Cut
  | '=' :: text => ⟨⟨.symbol forms.withEquals, [first, '=']⟩, text⟩
  | text => ⟨⟨.symbol forms.bare, [first]⟩, text⟩

/-- Takes the first element off the text that begins with a given character. -/
def first (c : Char) (text : List Char) : Cut :=
  match Kind.ofPunctuation? c, Kind.operatorForms? c with
  | some kind, _ => ⟨⟨.symbol kind, [c]⟩, text⟩
  | none, some forms => operator c forms text
  | none, none =>
    if isDigit c then number c text
    else if isLetter c then word c text
    else if c = '"' then string text
    else if c = '/' then slash text
    else if isBlank c then ⟨⟨.blank, [c]⟩, text⟩
    else ⟨⟨.stray, [c]⟩, text⟩

theorem comment_text_append_rest (outer : Nat) (seen text : List Char) :
    (comment outer seen text).element.text ++ (comment outer seen text).rest =
      seen.reverse ++ text := by
  fun_induction comment outer seen text <;> simp_all

theorem number_text_append_rest (c : Char) (text : List Char) :
    (number c text).element.text ++ (number c text).rest = c :: text := by
  have hsplit : text.takeWhile isDigit ++ text.dropWhile isDigit = text :=
    List.takeWhile_append_dropWhile
  fun_cases number c text <;> simp_all

theorem string_text_append_rest (text : List Char) :
    (string text).element.text ++ (string text).rest = '"' :: text := by
  have hsplit : text.takeWhile (· != '"') ++ text.dropWhile (· != '"') = text :=
    List.takeWhile_append_dropWhile
  fun_cases string text <;> simp_all

theorem slash_text_append_rest (text : List Char) :
    (slash text).element.text ++ (slash text).rest = '/' :: text := by
  fun_cases slash text <;> simp [comment_text_append_rest]

theorem operator_text_append_rest (c : Char) (forms : Kind.OperatorForms) (text : List Char) :
    (operator c forms text).element.text ++ (operator c forms text).rest = c :: text := by
  fun_cases operator c forms text <;> simp

theorem text_append_rest (c : Char) (text : List Char) :
    (first c text).element.text ++ (first c text).rest = c :: text := by
  fun_cases first c text <;>
    simp_all [number_text_append_rest, string_text_append_rest, slash_text_append_rest,
      operator_text_append_rest, word]

theorem comment_length_rest_le (outer : Nat) (seen text : List Char) :
    (comment outer seen text).rest.length ≤ text.length := by
  fun_induction comment outer seen text <;> grind

theorem number_length_rest_le (c : Char) (text : List Char) :
    (number c text).rest.length ≤ text.length := by
  have hdrop := (List.dropWhile_sublist isDigit (l := text)).length_le
  fun_cases number c text with
  | case1 digit rest heq hdigit =>
    have hrest := (List.dropWhile_sublist isDigit (l := rest)).length_le
    simp only [heq, List.length_cons] at hdrop
    simpa using by omega
  | case2 digit rest heq hdigit => simpa [heq] using hdrop
  | case3 => exact hdrop

theorem string_length_rest_le (text : List Char) :
    (string text).rest.length ≤ text.length := by
  have hdrop := (List.dropWhile_sublist (· != '"') (l := text)).length_le
  fun_cases string text with
  | case1 => simp
  | case2 quote rest heq =>
    simp only [heq, List.length_cons] at hdrop
    simpa using by omega

theorem slash_length_rest_le (text : List Char) :
    (slash text).rest.length ≤ text.length := by
  fun_cases slash text with
  | case1 text =>
    have hdrop := (List.dropWhile_sublist (· != '\n') (l := text)).length_le
    simpa using by omega
  | case2 text =>
    have hrest := comment_length_rest_le 0 ['*', '/'] text
    simpa using by omega
  | case3 => simp

theorem operator_length_rest_le (c : Char) (forms : Kind.OperatorForms) (text : List Char) :
    (operator c forms text).rest.length ≤ text.length := by
  fun_cases operator c forms text <;> simp

theorem length_rest_le (c : Char) (text : List Char) :
    (first c text).rest.length ≤ text.length := by
  have hword := (List.dropWhile_sublist isWordCharacter (l := text)).length_le
  fun_cases first c text <;>
    simp_all [number_length_rest_le, string_length_rest_le, slash_length_rest_le,
      operator_length_rest_le, word]

end Cut

/-- Cuts a text into its elements and puts them after those in `done`, which
come last one first. -/
def elementsAfter (done : List Element) : List Char → List Element
  | [] => done.reverse
  | c :: text =>
    let cut := Cut.first c text
    elementsAfter (cut.element :: done) cut.rest
termination_by text => text.length
decreasing_by exact Nat.lt_succ_of_le (Cut.length_rest_le c text)

def elements (text : List Char) : List Element :=
  elementsAfter [] text

theorem elementsAfter_eq (done : List Element) (text : List Char) :
    elementsAfter done text = done.reverse ++ elements text := by
  induction hlength : text.length using Nat.strongRecOn generalizing done text with
  | ind length ih =>
    cases text with
    | nil => simp [elements, elementsAfter]
    | cons c text =>
      have hrest := Cut.length_rest_le c text
      have hlt : (Cut.first c text).rest.length < length := by
        simp only [List.length_cons] at hlength
        omega
      rw [elements, elementsAfter, elementsAfter, ih _ hlt _ _ rfl, ih _ hlt [_] _ rfl]
      simp

@[simp] theorem elements_nil : elements [] = [] := by
  simp [elements, elementsAfter]

theorem elements_cons (c : Char) (text : List Char) :
    elements (c :: text) =
      (Cut.first c text).element :: elements (Cut.first c text).rest := by
  rw [elements, elementsAfter, elementsAfter_eq]
  simp

/-- The elements of a text make up all of it. -/
theorem flatMap_text_elements (text : List Char) :
    (elements text).flatMap Element.text = text := by
  induction hlength : text.length using Nat.strongRecOn generalizing text with
  | ind length ih =>
    cases text with
    | nil => simp
    | cons c text =>
      have hrest := Cut.length_rest_le c text
      have hlt : (Cut.first c text).rest.length < length := by
        simp only [List.length_cons] at hlength
        omega
      rw [elements_cons, List.flatMap_cons, ih _ hlt _ rfl, Cut.text_append_rest]

end LoxLexer
