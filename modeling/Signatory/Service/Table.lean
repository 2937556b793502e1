/-!
# Tables

Entries that are numbered in the order in which they are added. An entry is changed in place and
never taken out, so a number names the same entry for ever.
-/

namespace Signatory.Service

/-- Numbered entries. -/
structure Table (α : Type) where
  entries : Array α

namespace Table

variable {α : Type}

/-- No entries. -/
def empty : Table α := ⟨#[]⟩

instance : Inhabited (Table α) := ⟨empty⟩

/-- How many entries there are; also the number of the next one. -/
def size (t : Table α) : Nat := t.entries.size

/-- The entry with a number. -/
def get? (t : Table α) (i : Nat) : Option α := t.entries[i]?

/-- Add an entry. -/
def push (t : Table α) (a : α) : Table α := ⟨t.entries.push a⟩

/-- Change the entry with a number. -/
def update (t : Table α) (i : Nat) (f : α → α) : Table α := ⟨t.entries.modify i f⟩

/-- The entries in order, with their numbers. -/
def toList (t : Table α) : List (Nat × α) :=
  t.entries.toList.zipIdx.map fun (a, i) ↦ (i, a)

/-- Nothing is in an empty table. -/
@[simp] theorem get?_empty (i : Nat) : (empty : Table α).get? i = none := by
  simp [empty, get?]

/-- Adding an entry leaves the others alone. -/
theorem get?_push (t : Table α) (a : α) (i : Nat) :
    (t.push a).get? i = if i = t.size then some a else t.get? i := by
  simp only [get?, push, size, Array.getElem?_push]
  rfl

/-- Changing an entry leaves the others alone. -/
theorem get?_update (t : Table α) (i j : Nat) (f : α → α) :
    (t.update i f).get? j = if i = j then (t.get? j).map f else t.get? j := by
  simp only [get?, update, Array.getElem?_modify]

/-- Adding an entry makes a table one longer. -/
@[simp] theorem size_push (t : Table α) (a : α) : (t.push a).size = t.size + 1 := by
  simp [size, push]

/-- Changing an entry keeps the size. -/
@[simp] theorem size_update (t : Table α) (i : Nat) (f : α → α) : (t.update i f).size = t.size := by
  simp [size, update]

end Table

end Signatory.Service
