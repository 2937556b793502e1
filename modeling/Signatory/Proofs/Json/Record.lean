import Signatory.Json.Record
import Signatory.Proofs.Json.Text
import Mathlib.Data.List.Nodup
import Mathlib.Data.List.TakeWhile

/-!
# The fields of a written record are read back

A record has its members under different keys, and nobody who reads it sees in which order they are
written. So a record is taken here as an object with the given members in any order; one that is
written in the order of the keys, or of the fields, is among these.
-/

namespace Signatory.Json

namespace Value

/-- An object with the given members in some order. -/
def Lists (v : Value) (members : List (String × Value)) : Prop :=
  ∃ ms : List (String × Value), ms.Perm members ∧ v = .object ms

variable {v : Value} {members : List (String × Value)}

/-- A member with a new key is put among the others. -/
theorem insertMember_perm {key : String} (v : Value) (fresh : key ∉ members.map (·.1)) :
    (insertMember key v members).Perm ((key, v) :: members) := by
  induction members with
  | nil => exact .refl _
  | cons m rest ih =>
    obtain ⟨k, w⟩ := m
    rw [List.map_cons, List.mem_cons, not_or] at fresh
    rw [insertMember, if_neg fresh.1]
    split
    next => exact .refl _
    next => exact ((ih fresh.2).cons _).trans (.swap ..)

/-- Members with different keys are all kept when they are put in order. -/
theorem orderMembers_perm (distinct : (members.map (·.1)).Nodup) :
    (orderMembers members).Perm members := by
  suffices behind : ∀ done : List (String × Value), ((done ++ members).map (·.1)).Nodup →
      (members.foldl (fun done m ↦ insertMember m.1 m.2 done) done).Perm (done ++ members) from
    behind [] distinct
  clear distinct
  induction members with
  | nil =>
    intro done _
    rw [List.append_nil]
    exact .refl _
  | cons m rest ih =>
    intro done distinct
    have moved : (done ++ m :: rest).Perm ((m :: done) ++ rest) := List.perm_middle
    have apart := (moved.map (·.1)).nodup_iff.mp distinct
    have fresh : m.1 ∉ done.map (·.1) := by
      have first : m.1 ∉ (done ++ rest).map (·.1) := (List.nodup_cons.mp apart).1
      rw [List.map_append, List.mem_append, not_or] at first
      exact first.1
    have entered := insertMember_perm m.2 fresh
    refine (ih _ ?_).trans ((entered.append_right rest).trans moved.symm)
    exact ((entered.append_right rest).map (·.1)).nodup_iff.mpr apart

/-- A record is an object with its members, if these have different keys. -/
theorem record_lists (distinct : (members.map (·.1)).Nodup) : (record members).Lists members :=
  ⟨_, orderMembers_perm distinct, rfl⟩

/-- An object is integral if its members are. -/
theorem Lists.integral (h : v.Lists members) (parts : ∀ m ∈ members, m.2.Integral) :
    v.Integral := by
  obtain ⟨ms, order, rfl⟩ := h
  exact .object fun m mem ↦ parts m (order.mem_iff.mp mem)

theorem Integral.nat (n : Nat) : (Value.nat n).Integral := .int n

theorem Integral.optional {α : Type} {f : α → Value} (parts : ∀ a, (f a).Integral) (o : Option α) :
    (Value.optional f o).Integral := by
  cases o with
  | none => exact .null
  | some a => exact parts a

/-- The tree of an object has the trees of its members, in some order. -/
theorem Lists.tree (h : v.Lists members) :
    ∃ trees : List (String × Tree), trees.Perm (members.map fun m ↦ (m.1, m.2.tree)) ∧
      v.tree = .object (trees.map fun m ↦ (some m.1, m.2)) := by
  obtain ⟨ms, order, rfl⟩ := h
  refine ⟨ms.map fun m ↦ (m.1, m.2.tree), order.map _, ?_⟩
  rw [Value.tree, memberTrees_eq_map, List.map_map]
  rfl

end Value

namespace Tree

/-! ## Fields -/

/-- With different keys, a member is found under its key. -/
theorem find?_of_mem {members : List (String × Tree)} (distinct : (members.map (·.1)).Nodup)
    {m : String × Tree} (mem : m ∈ members) : members.find? (·.1 = m.1) = some m := by
  cases found : members.find? (·.1 = m.1) with
  | none => exact absurd (List.find?_eq_none.mp found m mem) (by simp)
  | some other =>
    have same : other.1 = m.1 := by simpa using List.find?_some found
    rw [List.inj_on_of_nodup_map distinct (List.mem_of_find?_eq_some found) mem same]

/-- Fields with different names are all collected. -/
theorem collect_eq {fields : List String} {members : List (String × Tree)}
    (known : ∀ m ∈ members, m.1 ∈ fields) {found : List (String × Tree)}
    (distinct : ((members ++ found).map (·.1)).Nodup) :
    collect fields (members.map fun m ↦ (some m.1, m.2)) found =
      some (members.reverse ++ found) := by
  induction members generalizing found with
  | nil => rfl
  | cons m rest ih =>
    have moved : (m :: rest ++ found).Perm (rest ++ m :: found) := List.perm_middle.symm
    have fresh : found.any (·.1 = m.1) = false := by
      refine Bool.eq_false_iff.mpr fun twice ↦ ?_
      obtain ⟨other, mem, same⟩ := List.any_eq_true.mp twice
      have first : m.1 ∉ (rest ++ found).map (·.1) := (List.nodup_cons.mp distinct).1
      refine first ?_
      rw [← of_decide_eq_true same]
      exact List.mem_map_of_mem (List.mem_append_right _ mem)
    rw [List.map_cons, collect, if_pos (known m List.mem_cons_self), enter, fresh]
    simp only [Bool.false_eq_true, if_false]
    rw [ih (fun m mem ↦ known m (List.mem_cons_of_mem _ mem))
      ((moved.map (·.1)).nodup_iff.mp distinct), List.reverse_cons, List.append_assoc,
      List.singleton_append]

/-- Every field of a record is found, whatever the order of its members. -/
theorem fields?_tree {v : Value} {members : List (String × Value)} (h : v.Lists members)
    (distinct : (members.map (·.1)).Nodup) :
    v.tree.fields? (members.map (·.1)) = some (members.map fun m ↦ some m.2.tree) := by
  obtain ⟨trees, order, written⟩ := h.tree
  have keys : (trees.map (·.1)).Perm (members.map (·.1)) := by
    have mapped := order.map (·.1)
    rwa [List.map_map] at mapped
  have apart : (trees.map (·.1)).Nodup := keys.nodup_iff.mpr distinct
  have known : ∀ m ∈ trees, m.1 ∈ members.map (·.1) := fun m mem ↦
    keys.mem_iff.mp (List.mem_map_of_mem mem)
  rw [written, fields?, collect_eq known (by rwa [List.append_nil]), List.append_nil,
    Option.map_some, List.map_map]
  refine congrArg some (List.map_congr_left fun m mem ↦ ?_)
  have found := find?_of_mem (m := (m.1, m.2.tree))
    ((trees.reverse_perm.map (·.1)).nodup_iff.mpr apart)
    (List.mem_reverse.mpr (order.mem_iff.mpr (List.mem_map_of_mem mem)))
  exact congrArg (Option.map (·.2)) found

/-! ## What fields hold -/

/-- The digits of a number spell it. -/
theorem value_decimal (n : Nat) : Number.value (Text.decimal n) = n := by
  have read := Nat.ofDigitChars_ten_toDigits (n := n)
  rw [Nat.ofDigitChars_eq_foldl] at read
  have step : (fun (n : Nat) (c : Char) ↦ n * 10 + Number.ofDigit c) =
      fun sofar c ↦ 10 * sofar + (c.toNat - '0'.toNat) := by
    funext n c
    rw [Nat.mul_comm]
    rfl
  rw [Number.value, step]
  exact read

/-- The parts of a decimal number: its digits and nothing else. -/
theorem ofText_decimal (n : Nat) :
    Number.Numeral.ofText (Text.decimal n) = ⟨false, Text.decimal n, none, none⟩ := by
  obtain ⟨c, rest, spelled, digit, digits, -⟩ := Text.decimal_eq_cons n
  have all : ∀ d ∈ c :: rest, d.isDigit := by
    simpa using ⟨digit, digits⟩
  have taken : (c :: rest).takeWhile Char.isDigit = c :: rest := List.takeWhile_eq_self_iff.mpr all
  have dropped : (c :: rest).dropWhile Char.isDigit = [] := List.dropWhile_eq_nil_iff.mpr all
  have unsigned : c ≠ '-' := by
    rintro rfl
    exact absurd digit (by decide)
  rw [spelled, Number.Numeral.ofText]
  · rw [taken, dropped]
    rfl
  · exact fun tail minus ↦ unsigned (List.cons.inj minus).1

/-- An unsigned number of 64 bits is an integer again. -/
theorem int?_nat {n : Nat} (bound : n < 2 ^ 64) :
    (Number.Numeral.ofText (Number.int n).text).int? = some (n : Int) := by
  have unsigned : ¬ (n : Int) < 0 := by omega
  rw [Number.text, if_neg unsigned, Int.natAbs_natCast, ofText_decimal]
  simpa [Number.Numeral.int?, Number.Numeral.isWhole, value_decimal] using bound

/-- An unsigned number is read back. -/
theorem uint64?_nat (n : UInt64) : (Value.nat n.toNat).tree.uint64? = some n := by
  have bound : n.toNat < 2 ^ 64 := n.toNat_lt
  rw [Value.nat, Value.tree, uint64?, int?, int?_nat bound]
  simpa using bound

/-- A field that may be null is read back, if what stands in it is never written as null. -/
theorem optional?_tree {α : Type} {read : Tree → Option α} {write : α → Value}
    (reads : ∀ a, read (write a).tree = some a) (written : ∀ a, (write a).tree ≠ .null)
    (o : Option α) : optional? read (some (Value.optional write o).tree) = some o := by
  cases o with
  | none => rfl
  | some a =>
    rw [Value.optional, optional?]
    · rw [reads]
      rfl
    · exact written a

/-! ## Meaning -/

/-- The numeral of an unsigned number means it. -/
theorem value?_nat (room : Nat) (n : UInt64) :
    (Value.nat n.toNat).tree.value? room = some (.nat n.toNat) := by
  rw [Value.nat, Value.tree, value?, Number.Numeral.number?, int?_nat n.toNat_lt]
  rfl

/-- Members that mean something do so together. -/
theorem members?_isSome {room : Nat} {members : List (Option String × Tree)}
    (parts : ∀ m ∈ members, m.1.isSome ∧ (m.2.value? room).isSome)
    (done : List (String × Value)) : (members? room members done).isSome := by
  induction members generalizing done with
  | nil => rfl
  | cons m rest ih =>
    obtain ⟨name, t⟩ := m
    obtain ⟨named, means⟩ := parts (name, t) List.mem_cons_self
    obtain ⟨key, rfl⟩ := Option.isSome_iff_exists.mp named
    obtain ⟨v, means⟩ := Option.isSome_iff_exists.mp means
    simp only [members?, means]
    exact ih (fun m mem ↦ parts m (List.mem_cons_of_mem _ mem)) _

/-- An object means something if there is room for its members and they do. -/
theorem value?_isSome_of_lists {room : Nat} {v : Value} {members : List (String × Value)}
    (h : v.Lists members) (parts : ∀ m ∈ members, (m.2.tree.value? room).isSome) :
    (v.tree.value? (room + 1)).isSome := by
  obtain ⟨trees, order, written⟩ := h.tree
  rw [written, value?, if_neg (Nat.succ_ne_zero room), Option.isSome_map]
  refine members?_isSome (fun m mem ↦ ?_) []
  obtain ⟨entry, written, rfl⟩ := List.mem_map.mp mem
  obtain ⟨original, listed, rfl⟩ := List.mem_map.mp (order.mem_iff.mp written)
  exact ⟨rfl, parts original listed⟩

end Tree

end Signatory.Json
