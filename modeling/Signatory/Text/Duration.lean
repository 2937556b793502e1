import Signatory.Text.Unsigned

/-!
# Durations in summaries

A number of milliseconds is shown in seconds, with as many places as are needed, or in milliseconds
if it is less than a second.
-/

namespace Signatory.Text

/-- Three digits without the zeros at their end. -/
def thousandths (n : Nat) : List Char :=
  ([n / 100, n / 10 % 10, n % 10].map digit).reverse.dropWhile (· = '0') |>.reverse

/-- A number of milliseconds as it stands in summaries. -/
def duration (ms : Nat) : String :=
  let seconds := String.ofList (decimal (ms / 1000))
  if ms = 0 then "0ns"
  else if ms < 1000 then s!"{ms}ms"
  else if ms % 1000 = 0 then s!"{seconds}s"
  else s!"{seconds}.{String.ofList (thousandths (ms % 1000))}s"

end Signatory.Text
