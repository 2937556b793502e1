import Signatory.Text.Blank

/-!
# The words of a line

A line that is made of words without blanks, with blanks between them and perhaps around them, has
these words, whichever blanks they are and however many. It is made of words if it sets them out,
and they are words.
-/

namespace Signatory.Text

/-- Whether a character that may follow a word ends it: a blank, or the end of the line. -/
def EndsWord (rest : List Char) : Prop :=
  rest.head?.all isBlank = true

instance (rest : List Char) : Decidable (EndsWord rest) :=
  inferInstanceAs (Decidable (rest.head?.all isBlank = true))

/-- A line is made of words: each is without blanks, and comes behind some blanks and before others,
or the end of the line. -/
inductive MadeOf : List (List Char) → List Char → Prop
  | blanks (gap : List Char) (blank : gap.all isBlank = true) : MadeOf [] gap
  | word {w rest : List Char} {ws : List (List Char)} (gap : List Char)
    (blank : gap.all isBlank = true) (some_letters : w ≠ []) (solid : w.any isBlank = false)
    (ends : EndsWord rest) (others : MadeOf ws rest) : MadeOf (w :: ws) (gap ++ w ++ rest)

/-- A word is not empty and has no blanks. -/
structure IsWord (w : List Char) : Prop where
  some_letters : w ≠ []
  solid : w.any isBlank = false

/-- A line sets out texts one after the other: each comes behind some blanks and before others, or
the end of the line. -/
inductive SetsOut : List (List Char) → List Char → Prop
  | blanks (gap : List Char) (blank : gap.all isBlank = true) : SetsOut [] gap
  | word {w rest : List Char} {ws : List (List Char)} (gap : List Char)
    (blank : gap.all isBlank = true) (ends : EndsWord rest) (others : SetsOut ws rest) :
    SetsOut (w :: ws) (gap ++ w ++ rest)

variable {c : Char} {s w gap lead rest : List Char} {ws : List (List Char)}

/-- Texts are set out by putting blanks in front of the first and a blank, or several, behind each. -/
theorem SetsOut.of_gap (front : lead.all isBlank = true) (blank : isBlank c = true)
    (others : gap.all isBlank = true) : SetsOut ws (lead ++ ws.flatMap (· ++ c :: gap)) := by
  have whole : (c :: gap).all isBlank = true := by rw [List.all_cons, blank, others]; rfl
  induction ws generalizing lead with
  | nil => exact .blanks _ (by rwa [List.flatMap_nil, List.append_nil])
  | cons w ws ih =>
    rw [List.flatMap_cons, List.append_assoc w, ← List.append_assoc lead]
    exact .word lead front blank (ih whole)

/-- A line that sets out words is made of them. -/
theorem SetsOut.madeOf (h : SetsOut ws s) (words : ∀ w ∈ ws, IsWord w) : MadeOf ws s := by
  induction h with
  | blanks gap blank => exact .blanks gap blank
  | word gap blank ends others ih =>
    obtain ⟨first, later⟩ := List.forall_mem_cons.mp words
    exact .word gap blank first.some_letters first.solid ends (ih later)

/-- A blank in front of a text adds no word. -/
theorem words_cons_blank (blank : isBlank c = true) : words (c :: s) = words s := by
  rw [words, List.foldr_cons, words.next, if_pos blank]
  rfl

/-- Blanks in front of a text add no word. -/
theorem words_append_blanks (blank : gap.all isBlank = true) : words (gap ++ s) = words s := by
  induction gap with
  | nil => rfl
  | cons c gap ih =>
    rw [List.all_cons, Bool.and_eq_true] at blank
    rw [List.cons_append, words_cons_blank blank.1, ih blank.2]

/-- What has been gathered behind the end of a word is no word yet. -/
theorem gathered_of_endsWord (ends : EndsWord rest) :
    rest.foldr words.next ([], []) = ([], words rest) := by
  cases rest with
  | nil => rfl
  | cons c rest =>
    have blank : isBlank c = true := ends
    rw [words_cons_blank blank, List.foldr_cons, words.next, if_pos blank]
    rfl

/-- A word in front of its end is gathered as it is. -/
theorem gathered_append (solid : w.any isBlank = false) (ends : EndsWord rest) :
    (w ++ rest).foldr words.next ([], []) = (w, words rest) := by
  induction w with
  | nil => exact gathered_of_endsWord ends
  | cons c w ih =>
    rw [List.any_cons, Bool.or_eq_false_iff] at solid
    rw [List.cons_append, List.foldr_cons, ih solid.2, words.next, if_neg (by simp [solid.1])]

/-- A line that is made of words has these words. -/
theorem MadeOf.words (h : MadeOf ws s) : words s = ws := by
  induction h with
  | blanks gap blank =>
    have none := words_append_blanks (s := []) blank
    rwa [List.append_nil] at none
  | @word w rest ws gap blank some_letters solid ends others ih =>
    have letters : w.isEmpty = false := by simpa using some_letters
    rw [List.append_assoc, words_append_blanks blank, Text.words, gathered_append solid ends, ih,
      words.close, letters]
    rfl

end Signatory.Text
