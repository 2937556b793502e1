import Mathlib.Data.List.DropRight
import Signatory.Proofs.Text.Words

/-!
# Blanks around a text

A text is trimmed by taking the blanks off both of its ends; what is left neither begins nor ends
with a blank. A text of blanks has no words.
-/

namespace Signatory.Text

/-- A text that consists of another with blanks around it. -/
def Surrounds (s t : List Char) : Prop :=
  ∃ before after, s = before ++ t ++ after ∧ before.all isBlank = true ∧ after.all isBlank = true

/-- A text that neither begins nor ends with a blank. -/
structure Bare (s : List Char) : Prop where
  first : s.head?.all (!isBlank ·) = true
  last : s.getLast?.all (!isBlank ·) = true

variable {s t gap : List Char}

/-- A text without any blank is bare. -/
theorem Bare.of_solid (solid : s.any isBlank = false) : Bare s := by
  have none (c : Char) (inside : c ∈ s) : (!isBlank c) = true := by
    rw [List.any_eq_false] at solid
    simpa using solid c inside
  refine ⟨?_, ?_⟩
  · cases first : s.head? with
    | none => rfl
    | some c => exact none c (List.mem_of_head? first)
  · cases last : s.getLast? with
    | none => rfl
    | some c => exact none c (List.mem_of_getLast? last)

/-! ## Trimming -/

/-- Blanks at the start are taken off. -/
theorem trimStart_append (blank : gap.all isBlank = true)
    (first : s.head?.all (!isBlank ·) = true) : trimStart (gap ++ s) = s := by
  rw [trimStart, List.dropWhile_append_of_pos (List.all_eq_true.mp blank)]
  cases s with
  | nil => rfl
  | cons c s => exact List.dropWhile_cons_of_neg (by simpa using first)

/-- Blanks at the end are taken off. -/
theorem trimEnd_append (blank : gap.all isBlank = true)
    (last : s.getLast?.all (!isBlank ·) = true) : trimEnd (s ++ gap) = s := by
  have back : trimStart (gap.reverse ++ s.reverse) = s.reverse :=
    trimStart_append (by rwa [List.all_reverse]) (by rwa [List.head?_reverse])
  rw [trimEnd, List.reverse_append]
  exact (congrArg List.reverse back).trans (List.reverse_reverse s)

/-- Nothing but blanks is taken off. -/
theorem surrounds_trim (s : List Char) : Surrounds s (trim s) := by
  refine ⟨s.takeWhile isBlank, (trimStart s).rtakeWhile isBlank, ?_, List.all_takeWhile, ?_⟩
  · have front : s.takeWhile isBlank ++ trimStart s = s := List.takeWhile_append_dropWhile
    have back : trim s ++ (trimStart s).rtakeWhile isBlank = trimStart s :=
      List.rdropWhile_append_rtakeWhile
    rw [List.append_assoc, back, front]
  · exact List.all_eq_true.mpr fun c inside ↦ List.mem_rtakeWhile_imp inside

/-- What is left does not begin with a blank. -/
theorem head?_trimStart (s : List Char) : (trimStart s).head?.all (!isBlank ·) = true := by
  have kept := List.head?_dropWhile_not isBlank s
  rw [trimStart]
  cases first : (s.dropWhile isBlank).head? with
  | none => rfl
  | some c =>
    rw [first] at kept
    simpa using kept

/-- A trimmed text is bare. -/
theorem bare_trim (s : List Char) : Bare (trim s) where
  first := by
    have first := head?_trimStart s
    have back : trim s ++ (trimStart s).rtakeWhile isBlank = trimStart s :=
      List.rdropWhile_append_rtakeWhile
    rw [← back] at first
    cases left : trim s with
    | nil => rfl
    | cons c t =>
      rw [left] at first
      exact first
  last := by
    have first := head?_trimStart (trimStart s).reverse
    rwa [← List.getLast?_reverse] at first

/-- A text is trimmed to the bare text that it surrounds with blanks. -/
theorem trim_eq_iff : trim s = t ↔ Surrounds s t ∧ Bare t := by
  constructor
  · rintro rfl
    exact ⟨surrounds_trim s, bare_trim s⟩
  · rintro ⟨⟨before, after, rfl, front, back⟩, first, last⟩
    rw [trim]
    cases t with
    | nil =>
      have all : (before ++ after).all isBlank = true := by rw [List.all_append, front, back]; rfl
      have nothing : trimStart (before ++ after ++ []) = [] := trimStart_append all rfl
      rw [List.append_nil] at nothing ⊢
      rw [nothing]
      rfl
    | cons c t =>
      have start : trimStart (before ++ (c :: t ++ after)) = c :: t ++ after :=
        trimStart_append front first
      rw [List.append_assoc, start]
      exact trimEnd_append back last

/-! ## Words -/

/-- A text has no words exactly if it consists of blanks. -/
theorem words_eq_nil_iff : words s = [] ↔ s.all isBlank = true := by
  constructor
  · intro none
    induction s with
    | nil => rfl
    | cons c s ih =>
      by_cases blank : isBlank c = true
      · rw [words_cons_blank blank] at none
        rw [List.all_cons, blank, ih none]
        rfl
      · rw [words, List.foldr_cons, words.next, if_neg blank] at none
        exact absurd none (by simp [words.close])
  · intro blank
    have none := words_append_blanks (s := []) blank
    rwa [List.append_nil] at none

end Signatory.Text
