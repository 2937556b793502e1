import Mathlib
import Signatory.Ledger.Remote
import Signatory.Proofs.Text.Unsigned

/-!
# Which answers are quantities

A ledger's answer is understood if it is an unsigned number of 64 bits, or a text of 0x and
hexadecimal digits that spell one. The reader of digits lets a plus sign stand before them, so a
text that is marked but is no run of digits is understood too; it is the only one. Whatever else a
ledger answers is reported as an answer that cannot be understood.
-/

namespace Signatory.Ledger

open Json (Value)

/-- An answer denotes a number if it is the number itself, or 0x and hexadecimal digits that spell
it, with at most one plus sign before the digits. -/
inductive Denotes : Value → UInt64 → Prop
  | number (n : UInt64) : Denotes (.nat n.toNat) n
  | text {n : UInt64} {sign digits : List Char} (optional : sign = [] ∨ sign = ['+'])
    (some_digits : digits ≠ []) (digit : ∀ c ∈ digits, c ∈ Text.hexDigits)
    (value : Text.spelled 16 digits = n.toNat) :
    Denotes (.string (String.ofList ('0' :: 'x' :: (sign ++ digits)))) n

variable {v : Value} {n : UInt64} {text : String} {digits : List Char}

/-- What is understood of a text behind its mark is what the rest spells. -/
theorem quantity_marked (marked : text.toList = '0' :: 'x' :: digits) :
    quantity (.string text) = .ok n ↔ Text.Spells 16 digits n.toNat := by
  have bound : n.toNat < 2 ^ 64 := n.toNat_lt
  rw [← and_iff_left (a := Text.Spells 16 digits n.toNat) bound,
    ← Text.readUnsigned_ok_iff (by decide), quantity, marked]
  cases read : Text.readUnsigned 16 64 digits with
  | error fault => simp [read]
  | ok m =>
    have small : m < 2 ^ 64 := ((Text.readUnsigned_ok_iff (by decide)).mp read).2
    simp only [read, Except.ok.injEq]
    constructor
    · rintro rfl
      exact (UInt64.toNat_ofNat_of_lt' small).symm
    · rintro rfl
      exact UInt64.ofNat_toNat

/-- A ledger's answer is understood as a number exactly if it denotes the number. -/
theorem quantity_ok_iff : quantity v = .ok n ↔ Denotes v n := by
  constructor
  · intro understood
    unfold quantity at understood
    split at understood
    next i =>
      split at understood
      next range =>
        obtain rfl := Except.ok.inj understood
        have small : i.toNat < 2 ^ 64 := by omega
        have same : Value.number (.int i) = .nat (UInt64.ofNat i.toNat).toNat := by
          rw [UInt64.toNat_ofNat_of_lt' small, Value.nat, Int.toNat_of_nonneg range.1]
        rw [same]
        exact .number _
      next => exact absurd understood (by simp)
    next => exact absurd understood (by simp)
    next text =>
      split at understood
      next digits marked =>
        have whole : quantity (.string text) = .ok n := by
          rw [quantity, marked]
          exact understood
        obtain ⟨sign, digits, split, optional, some_digits, digit, value⟩ :=
          (quantity_marked marked).mp whole
        rw [← String.ofList_toList (s := text), marked, split]
        exact .text optional some_digits (Text.areDigits_sixteen_iff.mp digit) value
      next => exact absurd understood (by simp)
    next => exact absurd understood (by simp)
  · rintro (_ | ⟨optional, some_digits, digit, value⟩)
    · have range : (0 : Int) ≤ n.toNat ∧ (n.toNat : Int) < 2 ^ 64 := by
        have := n.toNat_lt
        omega
      rw [Value.nat, quantity, if_pos range, Int.toNat_natCast, UInt64.ofNat_toNat]
    · refine (quantity_marked String.toList_ofList).mpr ?_
      exact ⟨_, _, rfl, optional, some_digits, Text.areDigits_sixteen_iff.mpr digit, value⟩

/-- The sequence number in a response is the one that its result denotes; a result that denotes none
is an answer that cannot be understood. -/
theorem Remote.Response.nonce_of_result {r : Remote.Response} (answered : r.result = .ok v) :
    (∃ n, Denotes v n ∧ r.nonce = .ok n) ∨
      (∀ n, ¬ Denotes v n) ∧ ∃ fault, r.nonce = .error (.invalidResponse fault) := by
  have nonce : r.nonce = (quantity v).mapError .invalidResponse := by
    simp only [Response.nonce, answered, bind, Except.bind]
    cases quantity v <;> rfl
  rw [nonce]
  cases understood : quantity v with
  | ok n => exact .inl ⟨n, quantity_ok_iff.mp understood, rfl⟩
  | error fault =>
    refine .inr ⟨fun n denotes ↦ ?_, fault, rfl⟩
    exact absurd (understood.symm.trans (quantity_ok_iff.mpr denotes)) (by simp)

/-- An answer is understood as a number exactly if it denotes the number: if it is the number, or 0x
and hexadecimal digits that spell it, perhaps with a plus sign before them. Every other answer to a
lookup is reported as one that cannot be understood. So each number is understood as it is and by
its digits behind the mark. -/
theorem quantity_understood (v : Value) :
    (∀ n, quantity v = .ok n ↔ Denotes v n) ∧
      (∀ r : Remote.Response, r.result = .ok v →
        (∃ n, Denotes v n ∧ r.nonce = .ok n) ∨
          (∀ n, ¬ Denotes v n) ∧ ∃ fault, r.nonce = .error (.invalidResponse fault)) ∧
      ∀ n : UInt64, quantity (.nat n.toNat) = .ok n ∧
        quantity (.string (String.ofList ('0' :: 'x' :: Nat.toDigits 16 n.toNat))) = .ok n := by
  refine ⟨fun n ↦ quantity_ok_iff, fun r ↦ Remote.Response.nonce_of_result, fun n ↦ ⟨?_, ?_⟩⟩
  · exact quantity_ok_iff.mpr (.number n)
  · obtain ⟨digits, value⟩ := @Text.toDigits_spells 16 (by decide) (by decide) n.toNat
    exact quantity_ok_iff.mpr (@Denotes.text n [] _ (.inl rfl) Nat.toDigits_ne_nil
      (Text.areDigits_sixteen_iff.mp digits) value)

/-- A response whose result has leading zeros and capital letters. -/
theorem quantity_understood_padded :
    let r : Remote.Response := ⟨200, Bytes.ofText "\x7b\"result\":\"0x001F\"\x7d"⟩
    r.result = .ok (.string "0x001F") ∧ Denotes (.string "0x001F") 31 ∧ r.nonce = .ok 31 := by
  intro r
  have answered : r.result = .ok (.string "0x001F") := by cbv
  obtain ⟨understood, responds, -⟩ := quantity_understood (.string "0x001F")
  have denotes : Denotes (.string "0x001F") 31 := (understood 31).mp rfl
  refine ⟨answered, denotes, ?_⟩
  rcases responds r answered with ⟨n, also, nonce⟩ | ⟨none, -⟩
  · have same := (understood n).mpr also
    rw [(understood 31).mpr denotes] at same
    rw [nonce, ← Except.ok.inj same]
  · exact absurd denotes (none 31)

/-- A text with a plus sign is understood, although what follows its mark is no run of digits. -/
theorem quantity_signed :
    quantity (.string "0x+1") = .ok 1 ∧
      ¬ ∃ digits, "0x+1".toList = '0' :: 'x' :: digits ∧ ∀ c ∈ digits, c ∈ Text.hexDigits := by
  refine ⟨rfl, ?_⟩
  rintro ⟨digits, split, digit⟩
  obtain rfl := (List.cons.inj (List.cons.inj split).2).2
  exact absurd (digit '+' List.mem_cons_self) (by decide)

end Signatory.Ledger
