import Mathlib.Data.List.TakeWhile

/-!
# Stretches

The stretch at the beginning of a list is its longest beginning on which a test
holds throughout.
-/

namespace LoxLexer

variable {α : Type} {p : α → Bool}

theorem takeWhile_eq_of_append {stretch rest : List α} (hstretch : ∀ x ∈ stretch, p x)
    (hrest : ∀ x ∈ rest.head?, p x = false) : (stretch ++ rest).takeWhile p = stretch := by
  rw [List.takeWhile_append_of_pos hstretch]
  cases rest with
  | nil => simp
  | cons x rest => simp [hrest x rfl]

theorem dropWhile_eq_of_append {stretch rest : List α} (hstretch : ∀ x ∈ stretch, p x)
    (hrest : ∀ x ∈ rest.head?, p x = false) : (stretch ++ rest).dropWhile p = rest := by
  rw [List.dropWhile_append_of_pos hstretch]
  cases rest with
  | nil => simp
  | cons x rest => simp [hrest x rfl]

theorem eq_false_of_dropWhile_eq_cons {x : α} {list rest : List α}
    (h : list.dropWhile p = x :: rest) : p x = false := by
  have hhead := List.head?_dropWhile_not p list
  rw [h] at hhead
  simpa using hhead

theorem not_mem_takeWhile {x : α} {list : List α} (hx : p x = false) :
    x ∉ list.takeWhile p := by
  intro hmem
  rw [List.mem_takeWhile_imp hmem] at hx
  cases hx

theorem bne_of_not_mem {text : List Char} {c : Char} (hmem : c ∉ text) :
    ∀ other ∈ text, (other != c) = true := by
  intro other hother
  simp only [bne_iff_ne, ne_eq]
  rintro rfl
  exact hmem hother

theorem takeWhile_bne_of_not_mem {text : List Char} {c : Char} (hmem : c ∉ text) :
    text.takeWhile (· != c) = text :=
  List.takeWhile_eq_self_iff.mpr (bne_of_not_mem hmem)

theorem dropWhile_bne_of_not_mem {text : List Char} {c : Char} (hmem : c ∉ text) :
    text.dropWhile (· != c) = [] :=
  List.dropWhile_eq_nil_iff.mpr (bne_of_not_mem hmem)

theorem not_mem_of_dropWhile_bne {text : List Char} {c : Char}
    (hdrop : text.dropWhile (· != c) = []) : c ∉ text := by
  intro hmem
  simpa using List.dropWhile_eq_nil_iff.mp hdrop c hmem

/-- A beginning on which the test holds lies inside the stretch. -/
theorem prefix_takeWhile {beginning list : List α} (hbegins : beginning <+: list)
    (hbeginning : ∀ x ∈ beginning, p x) : beginning <+: list.takeWhile p := by
  obtain ⟨rest, rfl⟩ := hbegins
  rw [List.takeWhile_append_of_pos hbeginning]
  exact List.prefix_append _ _

/-- What stands in front of the first mark, and what stands behind it, can be told apart. -/
theorem append_cons_inj {mark : α} {before other after rest : List α} (hbefore : mark ∉ before)
    (hother : mark ∉ other) (heq : before ++ mark :: after = other ++ mark :: rest) :
    before = other ∧ after = rest := by
  induction before generalizing other with
  | nil =>
      cases other with
      | nil => exact ⟨rfl, List.cons.inj heq |>.2⟩
      | cons x other =>
          obtain ⟨rfl, -⟩ := List.cons.inj heq
          exact absurd List.mem_cons_self hother
  | cons x before ih =>
      cases other with
      | nil =>
          obtain ⟨rfl, -⟩ := List.cons.inj heq
          exact absurd List.mem_cons_self hbefore
      | cons y other =>
          obtain ⟨rfl, hrest⟩ := List.cons.inj heq
          obtain ⟨rfl, rfl⟩ := ih (mt (List.mem_cons_of_mem _) hbefore)
            (mt (List.mem_cons_of_mem _) hother) hrest
          exact ⟨rfl, rfl⟩

end LoxLexer
