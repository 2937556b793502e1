import Signatory.Command
import Signatory.Proofs.Text.Hexadecimal
import Signatory.Proofs.Text.Words
import Signatory.Proofs.Transaction.Document

/-!
# The data of a transaction in a command and in a document

The data of a transaction is written in hexadecimal, as a word of a sign command and as a field of
a draft in JSON. Both are read as the byte string that the digits spell, with or without a mark in
front of them. They are read alike unless there are two marks: a document with these is refused,
but a command is not.
-/

namespace Signatory

open Json

namespace Draft

variable {d : Draft} {text : String} {bs : Bytes}

/-- The members of the JSON form of a draft, with a text in place of the data. -/
def membersWithData (d : Draft) (text : String) : List (String × Value) :=
  d.members.map fun m ↦ if m.1 = "data" then ("data", .string text) else m

/-- The text in place of the data does not change the names of the fields. -/
theorem membersWithData_names (d : Draft) (text : String) :
    (d.membersWithData text).map (·.1) = fieldNames := by
  simp [membersWithData, members, fieldNames]

theorem integral_membersWithData : ∀ m ∈ d.membersWithData text, m.2.Integral := by
  intro m mem
  obtain ⟨field, listed, rfl⟩ := List.mem_map.mp mem
  split
  next => exact .string text
  next => exact d.integral_of_mem field listed

/-- A draft with a text in place of its data is read with the data that the text spells, if it
spells any. -/
theorem ofFields?_membersWithData (d : Draft) (text : String) :
    ofFields? ((d.membersWithData text).map fun m ↦ some m.2.tree) =
      (Hex.decode (Hex.dropMark text.toList)).toOption.map fun data ↦ { d with data } := by
  have account := Tree.optional?_tree Address.ofJson?_toJson (fun _ ↦ Tree.noConfusion) d.recipient
  have chain : Tree.optional? Tree.uint64?
      (some (Value.optional (fun c ↦ .nat c.toNat) d.chainId).tree) = some d.chainId :=
    Tree.optional?_tree Tree.uint64?_nat (fun _ ↦ Tree.noConfusion) d.chainId
  have data : Bytes.ofJson? (Value.string text).tree =
    (Hex.decode (Hex.dropMark text.toList)).toOption := rfl
  simp only [membersWithData, members, List.map_cons, List.map_nil]
  simp [ofFields?, account, chain, Tree.uint64?_nat, Tree.orElse?, data, Option.map_eq_bind]

/-- What is read from the text of a draft with a text in place of its data. -/
theorem parse?_membersWithData {v : Value} (written : v.Lists (d.membersWithData text)) :
    Tree.parse? ofJson? v.render =
      (Hex.decode (Hex.dropMark text.toList)).toOption.map fun data ↦ { d with data } := by
  have distinct : ((d.membersWithData text).map (·.1)).Nodup := by
    rw [membersWithData_names]
    exact (by decide : fieldNames.Nodup)
  have found := Tree.fields?_tree written distinct
  rw [membersWithData_names] at found
  rw [Tree.parse?_render _ (written.integral integral_membersWithData), ofJson?, found,
    Option.bind_some, ofFields?_membersWithData]

end Draft

namespace Command

variable {endpoint line key account value d : String} {a : Address} {n : UInt64}

/-- A line that is made of words spells the command that the words spell. -/
theorem ofLine_of_madeOf {ws : List String}
    (made : Text.MadeOf (ws.map String.toList) line.toList) :
    ofLine endpoint line = ofWords endpoint ws := by
  have back : (ws.map String.toList).map String.ofList = ws := by simp
  rw [ofLine, made.words, back]

/-- A sign command with data is one with the data that the last word spells, if it spells any. -/
theorem ofLine_sign
    (made : Text.MadeOf (["sign", key, account, value, d].map String.toList) line.toList)
    (recipient : Address.ofText account = .ok a)
    (amount : Text.readUInt64 value.toList = .ok n) :
    ofLine endpoint line =
      (data [d]).map fun data ↦ .sign key { Draft.transfer a n with data } := by
  rw [ofLine_of_madeOf made]
  simp only [ofWords, signOf, recipient, amount]
  cases data [d] <;> rfl

/-- The data of a transaction is read alike from a sign command and from a document: from a word of
an even number of hexadecimal digits, in either case and with or without a mark in front, and the
bytes that are read are those that the digits spell. Only two marks in front are read differently:
a command may have any number of them, and a document with more than one is refused. -/
theorem data_read_alike {draft : Draft} {v : Value}
    (made : Text.MadeOf (["sign", key, account, value, d].map String.toList) line.toList)
    (recipient : Address.ofText account = .ok a)
    (amount : Text.readUInt64 value.toList = .ok n)
    (written : v.Lists (draft.membersWithData d)) :
    (∀ c, ofLine endpoint line = .ok c ↔ ∃ data, c = .sign key { Draft.transfer a n with data } ∧
      ∃ marks digits, d.toList = Hex.marked marks digits ∧ Hex.Spells digits data) ∧
    (∀ read, Tree.parse? Draft.ofJson? v.render = some read ↔
      ∃ data, read = { draft with data } ∧
        ∃ marks digits, marks ≤ 1 ∧ d.toList = Hex.marked marks digits ∧ Hex.Spells digits data) ∧
    (¬ ['0', 'x', '0', 'x'] <+: d.toList →
      ∀ data, ofLine endpoint line = .ok (.sign key { Draft.transfer a n with data }) ↔
        Tree.parse? Draft.ofJson? v.render = some { draft with data }) ∧
    (['0', 'x', '0', 'x'] <+: d.toList → Tree.parse? Draft.ofJson? v.render = none) ∧
    ∀ digits, (∃ data, Hex.Spells digits data) ↔
      (∀ c ∈ digits, c ∈ Text.hexDigits) ∧ digits.length % 2 = 0 := by
  have command (c : Command) : ofLine endpoint line = .ok c ↔
      ∃ data, c = .sign key { Draft.transfer a n with data } ∧
        Hex.decode (Hex.dropMarks d.toList) = .ok data := by
    rw [ofLine_sign made recipient amount, data]
    cases Hex.decode (Hex.dropMarks d.toList) <;> simp [Except.mapError, Except.map, eq_comm]
  have document (read : Draft) : Tree.parse? Draft.ofJson? v.render = some read ↔
      ∃ data, read = { draft with data } ∧ Hex.decode (Hex.dropMark d.toList) = .ok data := by
    rw [Draft.parse?_membersWithData written]
    cases Hex.decode (Hex.dropMark d.toList) <;> simp [Except.toOption, eq_comm]
  refine ⟨fun c ↦ ?_, fun read ↦ ?_, fun once data ↦ ?_, fun twice ↦ ?_,
    fun digits ↦ Hex.exists_spells_iff⟩
  · simp only [command, Hex.decode_dropMarks_ok_iff]
  · simp only [document, Hex.decode_dropMark_ok_iff]
  · rw [command, document, Hex.dropMarks_eq_dropMark once]
    simp
  · refine Option.eq_none_iff_forall_ne_some.mpr fun read found ↦ ?_
    obtain ⟨data, -, decoded⟩ := (document read).mp found
    exact Hex.decode_dropMark_of_twice twice data decoded

/-- A draft and a command whose data has a mark and digits in both cases. -/
theorem data_read_alike_marked :
    let a : Address := ⟨List.replicate 19 0 ++ [0xaa], rfl⟩
    let draft : Draft := ⟨none, 0, 1, [], some 7⟩
    let v : Value := .object (draft.membersWithData "0xAb0c")
    ofLine "" "  sign key 0x00000000000000000000000000000000000000aa\t+5  0xAb0c\r" =
        .ok (.sign "key" { Draft.transfer a 5 with data := [0xab, 0x0c] }) ∧
      Tree.parse? Draft.ofJson? v.render = some { draft with data := [0xab, 0x0c] } := by
  intro a draft v
  have made : Text.MadeOf (["sign", "key", "0x00000000000000000000000000000000000000aa", "+5",
        "0xAb0c"].map String.toList)
      "  sign key 0x00000000000000000000000000000000000000aa\t+5  0xAb0c\r".toList :=
    .word "  ".toList (by decide) (by decide) (by decide) (by decide)
      (.word " ".toList (by decide) (by decide) (by decide) (by decide)
        (.word " ".toList (by decide) (by decide) (by decide) (by decide)
          (.word "\t".toList (by decide) (by decide) (by decide) (by decide)
            (.word "  ".toList (by decide) (by decide) (by decide) (by decide)
              (.blanks "\r".toList (by decide))))))
  obtain ⟨command, -, alike, -⟩ :=
    @data_read_alike "" _ _ _ _ _ a 5 draft v made rfl rfl ⟨_, .refl _, rfl⟩
  have subset : "Ab0c".toList ⊆ Text.hexDigits := by decide
  have accepted : ofLine "" "  sign key 0x00000000000000000000000000000000000000aa\t+5  0xAb0c\r" =
      .ok (.sign "key" { Draft.transfer a 5 with data := [0xab, 0x0c] }) :=
    (command _).mpr ⟨_, rfl, 1, "Ab0c".toList, rfl, fun _ ↦ @subset _, rfl⟩
  exact ⟨accepted, (alike (by decide) _).mp accepted⟩

/-- With two marks in front the data is read from a command, but not from a document. -/
theorem data_marked_twice :
    let a : Address := ⟨List.replicate 19 0 ++ [0xaa], rfl⟩
    let draft : Draft := Draft.transfer a 5
    let v : Value := .object (draft.membersWithData "0x0xab")
    ofLine "" "sign k 0x00000000000000000000000000000000000000aa 5 0x0xab" =
        .ok (.sign "k" { draft with data := [0xab] }) ∧
      Tree.parse? Draft.ofJson? v.render = none :=
  ⟨rfl, Draft.parse?_membersWithData ⟨_, .refl _, rfl⟩⟩

end Command

end Signatory
