import Signatory.Json.Tree
import Signatory.Json.Value

/-!
# Records in JSON

A record is written as an object with a member for each field, or as an array of the fields in
order. Members that are no field are passed over, and a field may be written only once; an array may
leave out fields at its end but have no more elements than there are fields. Each field is read from
the tree that was written for it, or from `none` if it was left out.
-/

namespace Signatory.Json

namespace Tree

/-- Put the tree of a field among those found so far; a field that is there already is refused. -/
def enter (name : String) (t : Tree) (found : List (String × Tree)) :
    Option (List (String × Tree)) :=
  if found.any (·.1 = name) then none else some ((name, t) :: found)

/-- The trees of the members that are fields. -/
def collect (fields : List String) :
    List (Option String × Tree) → List (String × Tree) → Option (List (String × Tree))
  | [], found => some found
  | (none, _) :: _, _ => none
  | (some key, t) :: rest, found =>
    if key ∈ fields then
      match enter key t found with
      | none => none
      | some found => collect fields rest found
    else collect fields rest found

/-- The trees of the fields of a record, in the order of the fields. -/
def fields? (fields : List String) : Tree → Option (List (Option Tree))
  | .object members =>
    (collect fields members []).map fun found ↦
      fields.map fun name ↦ (found.find? (·.1 = name)).map (·.2)
  | .array elements =>
    if elements.length ≤ fields.length then
      some (elements.map some ++ List.replicate (fields.length - elements.length) none)
    else none
  | _ => none

/-- The integer that a tree spells. -/
def int? : Tree → Option Int
  | .numeral text => (Number.Numeral.ofText text).int?
  | _ => none

/-- The unsigned number of 64 bits that a tree spells. -/
def uint64? (t : Tree) : Option UInt64 :=
  match t.int? with
  | some (.ofNat n) => if n < 2 ^ 64 then some (UInt64.ofNat n) else none
  | _ => none

/-- The signed number of 64 bits that a tree spells. -/
def int64? (t : Tree) : Option Int :=
  t.int?.filter fun n ↦ -2 ^ 63 ≤ n && n < 2 ^ 63

/-- The text that a tree spells. -/
def text? : Tree → Option String
  | .string text => text
  | _ => none

/-- A field that may be left out or null. -/
def optional? {α : Type} (read : Tree → Option α) : Option Tree → Option (Option α)
  | none | some .null => some none
  | some t => (read t).map some

/-- A field that may be left out but not null. -/
def orElse? {α : Type} (absent : α) (read : Tree → Option α) : Option Tree → Option α
  | none => some absent
  | some t => read t

end Tree

end Signatory.Json
