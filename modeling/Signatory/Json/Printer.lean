import Signatory.Json.Value

/-!
# Compact JSON text

A value is written without blanks, the members of an object in their order. In a string, quotation
marks, backslashes and control characters are escaped and everything else stands for itself.
-/

namespace Signatory.Json

/-- One character as it stands in a string literal. -/
def escape (c : Char) : List Char :=
  if c = '\x22' then ['\\', '\x22']
  else if c = '\\' then ['\\', '\\']
  else if c = '\x08' then ['\\', 'b']
  else if c = '\t' then ['\\', 't']
  else if c = '\n' then ['\\', 'n']
  else if c = '\x0c' then ['\\', 'f']
  else if c = '\r' then ['\\', 'r']
  else if c < ' ' then ['\\', 'u', '0', '0', Text.digit (c.toNat / 16), Text.digit (c.toNat % 16)]
  else [c]

/-- Append characters to a text. -/
def append (out : String) (cs : List Char) : String :=
  cs.foldl String.push out

/-- Append a string literal to a text. -/
def writeString (out : String) (s : String) : String :=
  (s.foldl (fun out c ↦ append out (escape c)) (out.push '\x22')).push '\x22'

mutual

/-- Append a value to a text. -/
def write (out : String) : Value → String
  | .null => append out ['n', 'u', 'l', 'l']
  | .bool true => append out ['t', 'r', 'u', 'e']
  | .bool false => append out ['f', 'a', 'l', 's', 'e']
  | .number n => append out n.text
  | .string s => writeString out s
  | .array [] => append out ['[', ']']
  | .array (v :: rest) => (writeElements (write (out.push '[') v) rest).push ']'
  | .object [] => append out ['\x7b', '\x7d']
  | .object ((key, v) :: rest) =>
    (writeMembers (write ((writeString (out.push '\x7b') key).push ':') v) rest).push '\x7d'

/-- Append the elements after the first one. -/
def writeElements (out : String) : List Value → String
  | [] => out
  | v :: rest => writeElements (write (out.push ',') v) rest

/-- Append the members after the first one. -/
def writeMembers (out : String) : List (String × Value) → String
  | [] => out
  | (key, v) :: rest =>
    writeMembers (write ((writeString (out.push ',') key).push ':') v) rest

end

/-- The text of a value. -/
def Value.render (v : Value) : String :=
  write "" v

end Signatory.Json
