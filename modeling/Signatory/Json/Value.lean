import Signatory.Json.Number
import Signatory.Json.Tree

/-!
# JSON values

What a tree means: numerals become numbers, and of the members of an object with one key the last
one counts. The members of a value are kept in the order of their keys. A tree means something only
if its numerals are in range, its strings spell texts, and it is not nested too deeply.
-/

namespace Signatory.Json

/-- A JSON value. -/
inductive Value
  | null
  | bool (b : Bool)
  | number (n : Number)
  | string (s : String)
  | array (elements : List Value)
  | object (members : List (String × Value))
  deriving Inhabited

namespace Value

/-- Put a member into members that are in the order of their keys; it replaces one with its key. -/
def insertMember (key : String) (v : Value) : List (String × Value) → List (String × Value)
  | [] => [(key, v)]
  | (k, w) :: rest =>
    if key < k then (key, v) :: (k, w) :: rest
    else if key = k then (key, v) :: rest
    else (k, w) :: insertMember key v rest

/-- The members of a list in the order of their keys, the last one with each key. -/
def orderMembers (members : List (String × Value)) : List (String × Value) :=
  members.foldl (fun done m ↦ insertMember m.1 m.2 done) []

/-- The object with the given members, the last one with each key. -/
def record (members : List (String × Value)) : Value :=
  .object (orderMembers members)

/-- An integer. -/
def int (n : Int) : Value := .number (.int n)

/-- A number that is not negative. -/
def nat (n : Nat) : Value := .number (.int n)

/-- A value, or null. -/
def optional {α : Type} (f : α → Value) : Option α → Value
  | none => .null
  | some a => f a

/-- The member of an object with a key. -/
def get? (v : Value) (key : String) : Option Value :=
  match v with
  | .object members => (members.find? (·.1 = key)).map (·.2)
  | _ => none

/-- The object with one member put in; other values are left alone. -/
def set (v : Value) (key : String) (w : Value) : Value :=
  match v with
  | .object members => .object (insertMember key w members)
  | v => v

end Value

/-- How many levels of arrays and objects a meaningful text may have. -/
def nestingLimit : Nat := 127

mutual

/-- What a tree means, if it has at most `room` levels. -/
def Tree.value? (room : Nat) : Tree → Option Value
  | .null => some .null
  | .bool b => some (.bool b)
  | .numeral text => (Number.Numeral.ofText text).number?.map .number
  | .string text => text.map .string
  | .array elements =>
    if room = 0 then none
    else (Tree.values? (room - 1) elements []).map fun done ↦ .array done.reverse
  | .object members =>
    if room = 0 then none
    else (Tree.members? (room - 1) members []).map fun done ↦ .record done.reverse

/-- What the elements of an array mean, in front of those done, last first. -/
def Tree.values? (room : Nat) : List Tree → List Value → Option (List Value)
  | [], done => some done
  | t :: rest, done =>
    match Tree.value? room t with
    | none => none
    | some v => Tree.values? room rest (v :: done)

/-- What the members of an object mean, in front of those done, last first. -/
def Tree.members? (room : Nat) :
    List (Option String × Tree) → List (String × Value) → Option (List (String × Value))
  | [], done => some done
  | (key, t) :: rest, done =>
    match key, Tree.value? room t with
    | some key, some v => Tree.members? room rest ((key, v) :: done)
    | _, _ => none

end

/-- The value of a text. -/
def Value.ofText? (text : String) : Option Value :=
  (Tree.ofText? text).bind (Tree.value? nestingLimit)

end Signatory.Json
