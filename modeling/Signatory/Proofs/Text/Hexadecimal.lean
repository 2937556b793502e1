import Mathlib.Data.List.Induction
import Signatory.Proofs.Hex
import Signatory.Proofs.Text.Unsigned

/-!
# Which texts are byte strings

A text is read as a byte string exactly if it consists of an even number of hexadecimal digits: then
these are the digits of the byte string, up to their case. One reader takes off a mark before it
looks at the digits, another all marks that follow each other. A mark is no digit, so they differ
exactly on texts with two marks in front.
-/

namespace Signatory.Hex

/-- A text spells a byte string if it has the digits of the byte string, in either case. -/
def Spells (s : List Char) (bs : Bytes) : Prop :=
  (∀ c ∈ s, c ∈ Text.hexDigits) ∧ s.map Char.toLower = digits bs

/-- A text behind a number of marks. -/
def marked (marks : Nat) (s : List Char) : List Char :=
  (List.replicate marks ['0', 'x']).flatten ++ s

variable {s rest : List Char} {bs : Bytes} {c d : Char}

/-! ## Digits -/

/-- A digit in lower case is the one that is written for its value. -/
theorem toLower_of_digitValue {n : Nat} (digit : Text.digitValue c = some n) :
    c.toLower = Text.digit n := by
  have all : ∀ k : Fin 103, ∀ n ∈ Text.digitValue (Char.ofNat k.val),
      (Char.ofNat k.val).toLower = Text.digit n := by decide
  have here := all ⟨c.toNat, Text.toNat_lt_of_digitValue digit⟩ n
  rw [Char.ofNat_toNat] at here
  exact here digit

/-- The byte that two digits spell has these digits, in lower case. -/
theorem pair_of_digitValue {high low : Nat} (first : Text.digitValue c = some high)
    (second : Text.digitValue d = some low) :
    pair (UInt8.ofNat (16 * high + low)) = [c.toLower, d.toLower] := by
  have upper := (Text.of_digitValue first).1
  have lower := (Text.of_digitValue second).1
  have small : 16 * high + low < 2 ^ 8 := by omega
  have quotient : (16 * high + low) / 16 = high := by omega
  have remainder : (16 * high + low) % 16 = low := by omega
  rw [pair, UInt8.toNat_ofNat_of_lt' small, quotient, remainder, toLower_of_digitValue first,
    toLower_of_digitValue second]

/-- A text that spells a byte string has two characters for each byte. -/
theorem Spells.length (h : Spells s bs) : s.length = 2 * bs.length := by
  rw [← length_digits, ← h.2, List.length_map]

/-- A text spells one byte string at most. -/
theorem Spells.unique {other : Bytes} (h : Spells s bs) (also : Spells s other) : bs = other :=
  digits_inj (h.2.symm.trans also.2)

theorem spells_nil_iff : Spells [] bs ↔ bs = [] := by
  constructor
  · intro h
    have none := h.length
    rw [List.length_nil] at none
    exact List.length_eq_zero_iff.mp (by omega)
  · rintro rfl
    exact ⟨fun c mem ↦ absurd mem List.not_mem_nil, rfl⟩

/-- Two digits spell a byte, and what follows spells the others. -/
theorem spells_cons_cons_iff {high low : Nat} (first : Text.digitValue c = some high)
    (second : Text.digitValue d = some low) :
    Spells (c :: d :: s) bs ↔
      ∃ others, bs = UInt8.ofNat (16 * high + low) :: others ∧ Spells s others := by
  have byte := pair_of_digitValue first second
  constructor
  · intro h
    cases bs with
    | nil => exact absurd h.length (by simp)
    | cons b others =>
      have same : c.toLower :: d.toLower :: s.map Char.toLower =
          Text.digit (b.toNat / 16) :: Text.digit (b.toNat % 16) :: digits others := h.2
      obtain ⟨upper, tail⟩ := List.cons.inj same
      obtain ⟨lower, tail⟩ := List.cons.inj tail
      have own : digits [UInt8.ofNat (16 * high + low)] = digits [b] := by
        rw [digits, List.flatMap_singleton, digits, List.flatMap_singleton, byte, upper, lower]
        rfl
      refine ⟨others, ?_, fun e mem ↦ h.1 e ?_, tail⟩
      · rw [(List.cons.inj (digits_inj own)).1]
      · exact List.mem_cons_of_mem _ (List.mem_cons_of_mem _ mem)
  · rintro ⟨others, rfl, rest⟩
    refine ⟨?_, ?_⟩
    · rw [List.forall_mem_cons, List.forall_mem_cons]
      exact ⟨(Text.of_digitValue first).2, (Text.of_digitValue second).2, rest.1⟩
    · have split : digits (UInt8.ofNat (16 * high + low) :: others) =
          pair (UInt8.ofNat (16 * high + low)) ++ digits others := rfl
      rw [List.map_cons, List.map_cons, rest.2, split, byte]
      rfl

/-- The texts that spell byte strings are those with an even number of digits. -/
theorem exists_spells_iff :
    (∃ bs, Spells s bs) ↔ (∀ c ∈ s, c ∈ Text.hexDigits) ∧ s.length % 2 = 0 := by
  constructor
  · rintro ⟨bs, h⟩
    refine ⟨h.1, ?_⟩
    rw [h.length]
    omega
  · rintro ⟨digit, even⟩
    induction s using List.twoStepInduction with
    | nil => exact ⟨[], spells_nil_iff.mpr rfl⟩
    | singleton c => exact absurd even (by simp)
    | cons_cons c d s ih _ =>
      rw [List.forall_mem_cons, List.forall_mem_cons] at digit
      obtain ⟨first, second, others⟩ := digit
      obtain ⟨high, first⟩ := Option.isSome_iff_exists.mp (Text.isSome_digitValue_iff.mpr first)
      obtain ⟨low, second⟩ := Option.isSome_iff_exists.mp (Text.isSome_digitValue_iff.mpr second)
      rw [List.length_cons, List.length_cons] at even
      obtain ⟨bs, rest⟩ := ih others (by omega)
      exact ⟨_, (spells_cons_cons_iff first second).mpr ⟨bs, rfl, rest⟩⟩

/-! ## Reading -/

/-- Pairs of digits are read exactly if they spell what is read, behind the bytes read before. -/
theorem decodePairs_ok_iff {offset : Nat} {done out : Bytes} :
    decodePairs offset done s = .ok out ↔ ∃ bs, Spells s bs ∧ out = done.reverse ++ bs := by
  fun_induction decodePairs offset done s with
  | case1 offset done => simp [spells_nil_iff, eq_comm]
  | case2 offset done c =>
    refine ⟨fun h ↦ absurd h (by simp), ?_⟩
    rintro ⟨bs, h, -⟩
    have odd := h.length
    rw [List.length_singleton] at odd
    omega
  | case3 offset done c d s unread =>
    refine ⟨fun h ↦ absurd h (by simp), ?_⟩
    rintro ⟨bs, h, -⟩
    have digit := Text.isSome_digitValue_iff.mpr (h.1 c List.mem_cons_self)
    exact absurd digit (by simp [unread])
  | case4 offset done c d s high unread first =>
    refine ⟨fun h ↦ absurd h (by simp), ?_⟩
    rintro ⟨bs, h, -⟩
    have digit := Text.isSome_digitValue_iff.mpr
      (h.1 d (List.mem_cons_of_mem _ List.mem_cons_self))
    exact absurd digit (by simp [unread])
  | case5 offset done c d s low high second first ih =>
    rw [ih]
    constructor
    · rintro ⟨bs, h, rfl⟩
      refine ⟨_, (spells_cons_cons_iff first second).mpr ⟨bs, rfl, h⟩, ?_⟩
      rw [List.reverse_cons, List.append_assoc, List.singleton_append]
    · rintro ⟨bs, h, rfl⟩
      obtain ⟨others, rfl, rest⟩ := (spells_cons_cons_iff first second).mp h
      refine ⟨others, rest, ?_⟩
      rw [List.reverse_cons, List.append_assoc, List.singleton_append]

/-- Digits are characters of one byte each. -/
theorem utf8Length_of_digits (digit : ∀ c ∈ s, c ∈ Text.hexDigits) : utf8Length s = s.length := by
  have all : Text.hexDigits.all (·.utf8Size = 1) = true := by decide
  have single (c : Char) (inside : c ∈ Text.hexDigits) : c.utf8Size = 1 := by
    simpa using List.all_eq_true.mp all c inside
  have counted (start : Nat) : s.foldl (fun n c ↦ n + c.utf8Size) start = start + s.length := by
    induction s generalizing start with
    | nil => rfl
    | cons c s ih =>
      rw [List.forall_mem_cons] at digit
      rw [List.foldl_cons, ih digit.2, single c digit.1, List.length_cons]
      omega
  exact (counted 0).trans (Nat.zero_add _)

/-- A text is read as a byte string exactly if it spells it. -/
theorem decode_ok_iff : decode s = .ok bs ↔ Spells s bs := by
  have pairs : decodePairs 0 [] s = .ok bs ↔ Spells s bs := by simp [decodePairs_ok_iff]
  unfold decode
  split
  next odd =>
    refine ⟨fun h ↦ absurd h (by simp), fun h ↦ ?_⟩
    rw [utf8Length_of_digits h.1, h.length] at odd
    omega
  next => exact pairs

/-! ## Marks -/

theorem marked_zero (s : List Char) : marked 0 s = s :=
  rfl

theorem marked_succ (marks : Nat) (s : List Char) :
    marked (marks + 1) s = '0' :: 'x' :: marked marks s :=
  rfl

/-- A text with a mark in front spells nothing, as a mark is not made of digits. -/
theorem not_spells_marked : ¬ Spells ('0' :: 'x' :: s) bs := fun h ↦
  absurd (h.1 'x' (List.mem_cons_of_mem _ List.mem_cons_self)) (by decide)

/-- A byte string is read from a text without its mark exactly if the text spells it behind at most
one mark. -/
theorem decode_dropMark_ok_iff : decode (dropMark s) = .ok bs ↔
    ∃ marks digits, marks ≤ 1 ∧ s = marked marks digits ∧ Spells digits bs := by
  rw [decode_ok_iff]
  unfold dropMark
  split
  next rest =>
    constructor
    · exact fun h ↦ ⟨1, rest, Nat.le_refl 1, rfl, h⟩
    · rintro ⟨_ | _ | marks, digits, few, split, h⟩
      · rw [marked_zero] at split
        exact absurd (split ▸ h) not_spells_marked
      · rw [marked_succ, marked_zero] at split
        rw [(List.cons.inj (List.cons.inj split).2).2]
        exact h
      · omega
  next plain =>
    constructor
    · exact fun h ↦ ⟨0, s, Nat.zero_le 1, rfl, h⟩
    · rintro ⟨_ | marks, digits, -, split, h⟩
      · exact split ▸ h
      · exact absurd split (plain _)

/-- A byte string is read from a text without its marks exactly if the text spells it behind any
number of marks. -/
theorem decode_dropMarks_ok_iff : decode (dropMarks s) = .ok bs ↔
    ∃ marks digits, s = marked marks digits ∧ Spells digits bs := by
  rw [decode_ok_iff]
  fun_induction dropMarks s with
  | case1 rest ih =>
    rw [ih]
    constructor
    · rintro ⟨marks, digits, rfl, h⟩
      exact ⟨marks + 1, digits, rfl, h⟩
    · rintro ⟨_ | marks, digits, split, h⟩
      · rw [marked_zero] at split
        exact absurd (split ▸ h) not_spells_marked
      · rw [marked_succ] at split
        exact ⟨marks, digits, (List.cons.inj (List.cons.inj split).2).2, h⟩
  | case2 s plain =>
    constructor
    · exact fun h ↦ ⟨0, s, rfl, h⟩
    · rintro ⟨_ | marks, digits, split, h⟩
      · exact split ▸ h
      · exact absurd split (plain _)

/-- Without two marks in front there is only one to take off. -/
theorem dropMarks_eq_dropMark (once : ¬ ['0', 'x', '0', 'x'] <+: s) : dropMarks s = dropMark s := by
  have still (plain : ∀ rest, s ≠ '0' :: 'x' :: rest) : dropMarks s = s := by
    rw [dropMarks]
    exact plain
  unfold dropMark
  split
  next rest =>
    rw [dropMarks, dropMarks]
    rintro rest rfl
    exact once ⟨rest, rfl⟩
  next plain => exact still plain

/-- A text with two marks in front spells nothing when only one is taken off. -/
theorem decode_dropMark_of_twice (twice : ['0', 'x', '0', 'x'] <+: s) (bs : Bytes) :
    decode (dropMark s) ≠ .ok bs := by
  obtain ⟨rest, rfl⟩ := twice
  rw [Ne, decode_ok_iff]
  exact not_spells_marked

end Signatory.Hex
