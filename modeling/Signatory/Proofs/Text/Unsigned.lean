import Mathlib.Data.Nat.Digits.Defs
import Signatory.Bytes
import Signatory.Text.Unsigned

/-!
# Which texts are unsigned numbers

A text is read as an unsigned number exactly if it consists of one or more digits, perhaps after one
plus sign, and the number that the digits spell is not too large. Every number is read back from its
digits, whatever the radix.
-/

namespace Signatory.Text

/-- The hexadecimal digits, in either case. -/
def hexDigits : List Char :=
  "0123456789abcdefABCDEF".toList

/-- Whether all characters of a text are digits of a radix. -/
def AreDigits (radix : Nat) (s : List Char) : Prop :=
  ∀ c ∈ s, (digitIn radix c).isSome

/-- The number that digits spell, the first one counting most. -/
def spelled (radix : Nat) (s : List Char) : Nat :=
  Nat.ofDigits radix (s.reverse.map fun c ↦ (digitIn radix c).getD 0)

/-- A text spells a number if it consists of digits, at least one, that do, perhaps after a plus
sign. -/
def Spells (radix : Nat) (s : List Char) (n : Nat) : Prop :=
  ∃ sign digits, s = sign ++ digits ∧ (sign = [] ∨ sign = ['+']) ∧ digits ≠ [] ∧
    AreDigits radix digits ∧ spelled radix digits = n

variable {radix bits value n : Nat} {s : List Char} {c : Char}

/-! ## Digits -/

/-- A hexadecimal digit is a character below the letter g. -/
theorem toNat_lt_of_digitValue {d : Nat} (digit : digitValue c = some d) : c.toNat < 103 := by
  have nine : c ≤ '9' → c.toNat ≤ 57 := fun le ↦ UInt32.le_iff_toNat_le.mp le
  have small : c ≤ 'f' → c.toNat ≤ 102 := fun le ↦ UInt32.le_iff_toNat_le.mp le
  have capital : c ≤ 'F' → c.toNat ≤ 70 := fun le ↦ UInt32.le_iff_toNat_le.mp le
  unfold digitValue at digit
  split at digit
  next range =>
    have := nine range.2
    omega
  next =>
    split at digit
    next range =>
      have := small range.2
      omega
    next =>
      split at digit
      next range =>
        have := capital range.2
        omega
      next => exact absurd digit (by simp)

/-- The value of a digit is below sixteen, and the digit is one of those that are listed. -/
theorem of_digitValue {d : Nat} (digit : digitValue c = some d) : d < 16 ∧ c ∈ hexDigits := by
  have all : ∀ k : Fin 103, ∀ d ∈ digitValue (Char.ofNat k.val),
      d < 16 ∧ Char.ofNat k.val ∈ hexDigits := by decide
  have here := all ⟨c.toNat, toNat_lt_of_digitValue digit⟩ d
  rw [Char.ofNat_toNat] at here
  exact here digit

/-- In radix sixteen any digit counts. -/
theorem digitIn_sixteen (c : Char) : digitIn 16 c = digitValue c := by
  unfold digitIn
  cases digit : digitValue c with
  | none => rfl
  | some d => simp [(of_digitValue digit).1]

/-- The digits of radix sixteen are those that are listed. -/
theorem isSome_digitValue_iff : (digitValue c).isSome ↔ c ∈ hexDigits := by
  constructor
  · intro digit
    obtain ⟨d, digit⟩ := Option.isSome_iff_exists.mp digit
    exact (of_digitValue digit).2
  · have all : ∀ c ∈ hexDigits, (digitValue c).isSome := List.all_eq_true.mp (by decide)
    exact all c

theorem areDigits_sixteen_iff : AreDigits 16 s ↔ ∀ c ∈ s, c ∈ hexDigits := by
  simp only [AreDigits, digitIn_sixteen, isSome_digitValue_iff]

/-- A plus sign is no digit. -/
theorem digitIn_plus (radix : Nat) : digitIn radix '+' = none :=
  rfl

theorem spelled_nil (radix : Nat) : spelled radix [] = 0 :=
  rfl

/-- The first digit counts most. -/
theorem spelled_cons (radix : Nat) (c : Char) (s : List Char) :
    spelled radix (c :: s) =
      (digitIn radix c).getD 0 * radix ^ s.length + spelled radix s := by
  rw [spelled, List.reverse_cons, List.map_append, Nat.ofDigits_append, List.length_map,
    List.length_reverse, List.map_singleton, Nat.ofDigits_singleton, Nat.add_comm, Nat.mul_comm]
  rfl

/-- A digit at the end makes room for itself. -/
theorem spelled_concat (radix : Nat) (s : List Char) (c : Char) :
    spelled radix (s ++ [c]) = spelled radix s * radix + (digitIn radix c).getD 0 := by
  rw [spelled, List.reverse_append, List.reverse_singleton, List.singleton_append, List.map_cons,
    Nat.ofDigits_cons, Nat.add_comm, Nat.mul_comm]
  rfl

/-! ## Reading -/

/-- Further digits are read exactly if they are digits and the number stays below the bound. -/
theorem readDigits_ok_iff (positive : 0 < radix) (bound : value < 2 ^ bits) :
    readDigits radix bits value s = .ok n ↔
      AreDigits radix s ∧ value * radix ^ s.length + spelled radix s = n ∧ n < 2 ^ bits := by
  induction s generalizing value with
  | nil =>
    rw [readDigits, List.length_nil, Nat.pow_zero, Nat.mul_one, spelled_nil, Nat.add_zero,
      Except.ok.injEq]
    constructor
    · rintro rfl
      exact ⟨fun c mem ↦ absurd mem List.not_mem_nil, rfl, bound⟩
    · exact fun h ↦ h.2.1
  | cons c rest ih =>
    rw [readDigits, spelled_cons, AreDigits, List.forall_mem_cons]
    cases digit : digitIn radix c with
    | none => simp
    | some d =>
      have moved : value * radix ^ (c :: rest).length + (d * radix ^ rest.length +
          spelled radix rest) =
          (value * radix + d) * radix ^ rest.length + spelled radix rest := by
        rw [List.length_cons, Nat.pow_succ, Nat.add_mul, Nat.mul_assoc, Nat.mul_comm radix,
          Nat.add_assoc]
      dsimp only [Option.getD_some]
      rw [moved]
      split
      next small =>
        rw [ih small]
        simp [AreDigits]
      next large =>
        have grown : value * radix + d ≤ (value * radix + d) * radix ^ rest.length :=
          Nat.le_mul_of_pos_right _ (Nat.pow_pos positive)
        constructor
        · exact fun h ↦ absurd h (by simp)
        · rintro ⟨-, rfl, less⟩
          omega

/-- A text is read as a number exactly if it spells the number, which is below the bound. -/
theorem readUnsigned_ok_iff (positive : 0 < radix) :
    readUnsigned radix bits s = .ok n ↔ Spells radix s n ∧ n < 2 ^ bits := by
  have read (digits : List Char) (some_digits : digits ≠ []) :
      readDigits radix bits 0 digits = .ok n ↔
        (AreDigits radix digits ∧ spelled radix digits = n) ∧ n < 2 ^ bits := by
    rw [readDigits_ok_iff positive (Nat.two_pow_pos bits), Nat.zero_mul, Nat.zero_add, and_assoc]
  -- A plus sign is never a digit, so the text tells whether there is a sign.
  have signed (digits : List Char) : Spells radix ('+' :: digits) n ↔
      digits ≠ [] ∧ AreDigits radix digits ∧ spelled radix digits = n := by
    constructor
    · rintro ⟨sign, rest, split, rfl | rfl, some_digits, digit, value⟩
      · rw [List.nil_append] at split
        have first := digit '+' (split ▸ List.mem_cons_self)
        exact absurd first (by simp [digitIn_plus])
      · obtain rfl := (List.cons.inj split).2
        exact ⟨some_digits, digit, value⟩
    · rintro ⟨some_digits, digit, value⟩
      exact ⟨['+'], digits, rfl, .inr rfl, some_digits, digit, value⟩
  have unsigned (some_digits : s ≠ []) (plain : ∀ rest, s ≠ '+' :: rest) :
      Spells radix s n ↔ AreDigits radix s ∧ spelled radix s = n := by
    constructor
    · rintro ⟨sign, digits, split, rfl | rfl, -, digit, value⟩
      · exact split ▸ ⟨digit, value⟩
      · exact absurd split (plain digits)
    · rintro ⟨digit, value⟩
      exact ⟨[], s, rfl, .inl rfl, some_digits, digit, value⟩
  unfold readUnsigned
  split
  next =>
    constructor
    · exact fun h ↦ absurd h (by simp)
    · rintro ⟨⟨sign, digits, split, -, some_digits, -⟩, -⟩
      exact absurd (List.append_eq_nil_iff.mp split.symm).2 some_digits
  next =>
    rw [signed]
    simp
  next digits other =>
    have some_digits : digits ≠ [] := fun none ↦ other none
    rw [read digits some_digits, signed]
    simp [some_digits]
  next blank signed_blank plain =>
    rw [read s blank, unsigned blank plain]

/-! ## Writing -/

/-- The digits of a number are digits and spell it. -/
theorem toDigits_spells {radix : Nat} (wide : 1 < radix) (narrow : radix ≤ 16) (n : Nat) :
    AreDigits radix (Nat.toDigits radix n) ∧ spelled radix (Nat.toDigits radix n) = n := by
  have digit {d : Nat} (small : d < radix) : digitIn radix d.digitChar = some d := by
    have all : ∀ d : Fin 16, digitValue (Nat.digitChar d.val) = some d.val := by decide
    rw [digitIn, all ⟨d, by omega⟩]
    simp [small]
  induction n using Nat.strongRecOn with
  | _ n ih =>
    by_cases small : n < radix
    · rw [Nat.toDigits_of_lt_base small]
      refine ⟨fun c mem ↦ ?_, ?_⟩
      · rw [List.mem_singleton.mp mem, digit small]
        rfl
      · rw [spelled_cons, digit small]
        simp [spelled_nil]
    · have last : n % radix < radix := Nat.mod_lt _ (by omega)
      obtain ⟨digits, value⟩ := ih (n / radix) (Nat.div_lt_self (by omega) wide)
      rw [Nat.toDigits_of_base_le wide (by omega)]
      refine ⟨fun c mem ↦ ?_, ?_⟩
      · rcases List.mem_append.mp mem with earlier | new
        · exact digits c earlier
        · rw [List.mem_singleton.mp new, digit last]
          rfl
      · rw [spelled_concat, value, digit last]
        exact Nat.div_add_mod' n radix

/-- A number below the bound is read back from its digits. -/
theorem readUnsigned_toDigits {radix : Nat} (wide : 1 < radix) (narrow : radix ≤ 16)
    (small : n < 2 ^ bits) : readUnsigned radix bits (Nat.toDigits radix n) = .ok n := by
  obtain ⟨digits, value⟩ := toDigits_spells wide narrow n
  have spells : Spells radix (Nat.toDigits radix n) n :=
    ⟨[], _, rfl, .inl rfl, Nat.toDigits_ne_nil, digits, value⟩
  exact (readUnsigned_ok_iff (by omega)).mpr ⟨spells, small⟩

end Signatory.Text
