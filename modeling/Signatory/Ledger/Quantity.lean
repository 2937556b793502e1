import Signatory.Ledger.Fault

/-!
# Quantities

A ledger answers with a number, or with a text of 0x and hexadecimal digits.
-/

namespace Signatory.Ledger

/-- The number that a ledger's answer stands for. -/
def quantity : Json.Value → Except ResponseFault UInt64
  | .number (.int n) =>
    if 0 ≤ n ∧ n < 2 ^ 64 then .ok (UInt64.ofNat n.toNat) else .error (.notUnsigned (.int n))
  | .number n => .error (.notUnsigned n)
  | .string text =>
    match text.toList with
    | '0' :: 'x' :: digits =>
      match Text.readUnsigned 16 64 digits with
      | .ok n => .ok (UInt64.ofNat n)
      | .error fault => .error (.badQuantity text fault)
    | _ => .error (.unmarkedQuantity text)
  | v => .error (.notQuantity v)

end Signatory.Ledger
