import Signatory.Proofs.Json.Text

/-!
# A value is written in one line

There is no line feed in the text of a value: those in strings are escaped, and nothing else that is
written has any.
-/

namespace Signatory.Json

namespace Number

variable {ds : List Char}

theorem newline_not_mem_toDigits (k : Nat) : '\n' ∉ Nat.toDigits 10 k := fun inside ↦
  absurd (Nat.isDigit_of_mem_toDigits (b := 10) (by decide) (by decide) inside) (by decide)

theorem newline_not_mem_pointed (line : '\n' ∉ ds) (k : Nat) : '\n' ∉ pointed ds k := by
  have front : '\n' ∉ (ds ++ List.replicate (k - ds.length) '0').take k := fun inside ↦ by
    rcases List.mem_append.mp (List.mem_of_mem_take inside) with old | zero
    · exact line old
    · exact absurd (List.eq_of_mem_replicate zero) (by decide)
  have back : '\n' ∉ (if (ds.drop k).isEmpty then ['0'] else ds.drop k) := by
    split
    · decide
    · exact fun inside ↦ line (List.mem_of_mem_drop inside)
  unfold pointed
  simp only [List.mem_append, List.mem_cons, not_or]
  exact ⟨front, by decide, back⟩

theorem newline_not_mem_layout (d : Decimal.Scaled) : '\n' ∉ layout d := by
  have line : '\n' ∉ ((Nat.toDigits 10 d.coefficient).reverse.dropWhile (· = '0')).reverse :=
    fun inside ↦ newline_not_mem_toDigits d.coefficient (List.mem_reverse.mp
      ((List.dropWhile_sublist _).subset (List.mem_reverse.mp inside)))
  unfold layout
  dsimp only
  generalize ((Nat.toDigits 10 d.coefficient).reverse.dropWhile _).reverse = ds at line ⊢
  split
  next => exact newline_not_mem_pointed line _
  next =>
    split
    next => simpa [not_or] using line
    next =>
      simp only [List.mem_append, List.mem_cons, not_or]
      refine ⟨?_, by decide, by split <;> decide, newline_not_mem_toDigits _⟩
      split
      next => simpa [not_or] using line
      next => exact line

/-- Numbers are written with digits, signs, a point and a mark before the exponent. -/
theorem newline_not_mem_text (n : Number) : '\n' ∉ n.text := by
  unfold text
  split
  next n =>
    have line := newline_not_mem_toDigits n.natAbs
    split
    · exact List.not_mem_cons_of_ne_of_not_mem (by decide) line
    · exact line
  next negative x =>
    have line : '\n' ∉
        (if x.mantissa = 0 then ['0', '.', '0'] else layout (Decimal.shortest x)) := by
      split
      · decide
      · exact newline_not_mem_layout _
    dsimp only
    split
    · exact List.not_mem_cons_of_ne_of_not_mem (by decide) line
    · exact line

end Number

/-- No character is a line feed as it stands in a string literal. -/
theorem newline_not_mem_escape (c : Char) : '\n' ∉ escape c := by
  by_cases named : c ∈ ['\x22', '\\', '\x08', '\t', '\n', '\x0c', '\r']
  · simp only [List.mem_cons, List.not_mem_nil, or_false] at named
    rcases named with rfl | rfl | rfl | rfl | rfl | rfl | rfl <;> decide
  simp only [List.mem_cons, List.not_mem_nil, or_false, not_or] at named
  by_cases control : c < ' '
  · have digit (n : Nat) (below : n < 16) : '\n' ≠ Text.digit n := by
      decide +revert
    have small : c.toNat < 32 := control
    have high := digit (c.toNat / 16) (by omega)
    have low := digit (c.toNat % 16) (by omega)
    simp [escape, named, control, high, low]
  · simp [escape, named, control, Ne.symm named.2.2.2.2.1]

/-- A text of one line goes on as one if what is appended has no line feed. -/
theorem newline_not_mem_append {out : String} (line : '\n' ∉ out.toList) {cs : List Char}
    (more : '\n' ∉ cs) : '\n' ∉ (append out cs).toList := by
  rw [toList_append, List.mem_append]
  exact not_or.mpr ⟨line, more⟩

theorem newline_not_mem_push {out : String} (line : '\n' ∉ out.toList) {c : Char}
    (other : '\n' ≠ c) : '\n' ∉ (out.push c).toList := by
  rw [String.toList_push, List.mem_append, List.mem_singleton]
  exact not_or.mpr ⟨line, other⟩

/-- A string literal is written in one line. -/
theorem newline_not_mem_writeString {out : String} (line : '\n' ∉ out.toList) (s : String) :
    '\n' ∉ (writeString out s).toList := by
  have opened : '\n' ∉ (out.push '\x22').toList := newline_not_mem_push line (by decide)
  unfold writeString
  rw [String.foldl_eq_foldl_toList]
  generalize out.push '\x22' = out at opened
  generalize s.toList = cs
  induction cs generalizing out with
  | nil => exact newline_not_mem_push opened (by decide)
  | cons c cs ih => exact ih _ (newline_not_mem_append opened (newline_not_mem_escape c))

mutual

/-- A value is written in one line. -/
theorem newline_not_mem_write {out : String} (line : '\n' ∉ out.toList) :
    (v : Value) → '\n' ∉ (write out v).toList
  | .null => newline_not_mem_append line (by decide)
  | .bool true => newline_not_mem_append line (by decide)
  | .bool false => newline_not_mem_append line (by decide)
  | .number n => newline_not_mem_append line n.newline_not_mem_text
  | .string s => newline_not_mem_writeString line s
  | .array [] => newline_not_mem_append line (by decide)
  | .array (v :: rest) =>
    have first := newline_not_mem_write (newline_not_mem_push line (by decide)) v
    newline_not_mem_push (newline_not_mem_writeElements first rest) (by decide)
  | .object [] => newline_not_mem_append line (by decide)
  | .object ((key, v) :: rest) =>
    have named := newline_not_mem_writeString (newline_not_mem_push line (by decide)) key
    have first := newline_not_mem_write (newline_not_mem_push named (by decide)) v
    newline_not_mem_push (newline_not_mem_writeMembers first rest) (by decide)

theorem newline_not_mem_writeElements {out : String} (line : '\n' ∉ out.toList) :
    (elements : List Value) → '\n' ∉ (writeElements out elements).toList
  | [] => line
  | v :: rest =>
    have first := newline_not_mem_write (newline_not_mem_push line (by decide)) v
    newline_not_mem_writeElements first rest

theorem newline_not_mem_writeMembers {out : String} (line : '\n' ∉ out.toList) :
    (members : List (String × Value)) → '\n' ∉ (writeMembers out members).toList
  | [] => line
  | (key, v) :: rest =>
    have named := newline_not_mem_writeString (newline_not_mem_push line (by decide)) key
    have first := newline_not_mem_write (newline_not_mem_push named (by decide)) v
    newline_not_mem_writeMembers first rest

end

/-- The text of a value is one line. -/
theorem Value.newline_not_mem_render (v : Value) : '\n' ∉ v.render.toList :=
  newline_not_mem_write (by decide) v

end Signatory.Json
