import Mathlib.Data.List.Forall2
import Signatory.Proofs.Transaction.Canonical

/-!
# The spellings of a transaction

A transaction is read back from its canonical bytes. It is also read from other spellings: its
numbers may be written in wider forms than they need, its data as an array of numbers, and a chain
that is not named may be left out at the end, together with data that is empty.
-/

namespace Signatory

namespace MessagePack

/-- An item of an unsigned number of 64 bits spells it. -/
theorem Item.uint64?_unsigned (n : UInt64) : (Item.unsigned n.toNat).uint64? = some n := by
  have bound : n.toNat < 2 ^ 64 := n.toNat_lt
  simp [Item.uint64?, Item.nat?, bound]

/-- An item of a byte spells it. -/
theorem Item.byte?_unsigned (b : UInt8) : (Item.unsigned b.toNat).byte? = some b := by
  have bound : b.toNat < 2 ^ 8 := b.toNat_lt
  simp [Item.byte?, Item.nat?, bound]

/-- Bytes are collected from their items, behind those collected before. -/
theorem collectBytes_unsigned (bs done : Bytes) :
    collectBytes (bs.map fun b ↦ .unsigned b.toNat) done = some (done.reverse ++ bs) := by
  induction bs generalizing done with
  | nil => simp [collectBytes]
  | cons b bs ih =>
    rw [List.map_cons, collectBytes, Item.byte?_unsigned]
    dsimp only
    rw [ih, List.reverse_cons, List.append_assoc, List.singleton_append]

/-- How a byte string is written: as it is, or as an array of numbers in some forms. -/
inductive BytesForm
  | binary
  | array (form : ArrayForm) (elements : List NumberForm)
  deriving DecidableEq, Repr

namespace BytesForm

/-- A byte string in a form. -/
def write : BytesForm → Bytes → Bytes
  | .binary, bs => writeBinary bs
  | .array form elements, bs =>
    form.header bs.length ++ (List.zipWith (fun e b ↦ e.write b.toNat) elements bs).flatten

/-- Whether a form suits a byte string: the length fits, and each byte fits its own form. -/
def Suits : BytesForm → Bytes → Prop
  | .binary, bs => bs.length < 2 ^ 32
  | .array form elements, bs =>
    bs.length < form.bound ∧ List.Forall₂ (fun e b ↦ b.toNat < e.bound) elements bs

/-- The item that is read from a byte string in a form. -/
def item : BytesForm → Bytes → Item
  | .binary, bs => .binary bs
  | .array .., bs => .array (bs.map fun b ↦ .unsigned b.toNat)

variable {form : BytesForm} {bs : Bytes}

/-- The item of a byte string spells it, whatever the form. -/
theorem bytes?_item (form : BytesForm) (bs : Bytes) : (form.item bs).bytes? = some bs := by
  cases form with
  | binary => rfl
  | array => exact collectBytes_unsigned bs []

/-- A byte string is read back in every form that suits it. -/
theorem read_write (room : Nat) (suits : form.Suits bs) (rest : Bytes) :
    read (room + 1) (form.write bs ++ rest) = some (form.item bs, rest) := by
  cases form with
  | binary => exact read_writeBinary (room + 1) bs rest suits
  | array form elements =>
    obtain ⟨fits, each⟩ := suits
    have parts : List.Forall₂ (fun part a ↦ ∀ rest, read room (part ++ rest) = some (a, rest))
        (List.zipWith (fun e b ↦ e.write b.toNat) elements bs)
        (bs.map fun b ↦ .unsigned b.toNat) := by
      clear fits
      induction each with
      | nil => exact .nil
      | cons first others ih => exact .cons (read_number room _ _ · first) ih
    have elements := readMany_flatten parts [] rest
    rw [List.length_map] at elements
    rw [write, List.append_assoc, read_array room _ form _ fits, elements]
    rfl

end BytesForm

end MessagePack

namespace Transaction

open MessagePack

/-- How a transaction is written: the forms of its numbers and of its data, and how many fields are
left out at the end. -/
structure Spelling where
  nonce : NumberForm
  value : NumberForm
  gasLimit : NumberForm
  data : BytesForm
  chainId : NumberForm
  omitted : Nat
  deriving DecidableEq, Repr

namespace Spelling

/-- Whether a spelling suits a transaction: every number fits its form, and what is left out is a
chain that is not named, or also data that is empty. -/
structure Suits (sp : Spelling) (t : Transaction) : Prop where
  nonce : t.nonce.toNat < sp.nonce.bound
  value : t.value.toNat < sp.value.bound
  gasLimit : t.gasLimit.toNat < sp.gasLimit.bound
  data : sp.data.Suits t.data
  chainId : ∀ c ∈ t.chainId, c.toNat < sp.chainId.bound
  omitted : sp.omitted = 0 ∨ sp.omitted = 1 ∧ t.chainId = none ∨
    sp.omitted = 2 ∧ t.chainId = none ∧ t.data = []

/-- The fields of a transaction as they are written. -/
def fields (sp : Spelling) (t : Transaction) : List Bytes :=
  [sp.nonce.write t.nonce.toNat, writeOptional (fun a ↦ writeText (Bytes.ofText a.text)) t.recipient,
    sp.value.write t.value.toNat, sp.gasLimit.write t.gasLimit.toNat, sp.data.write t.data,
    writeOptional (fun c ↦ sp.chainId.write c.toNat) t.chainId]

/-- A transaction in a spelling. -/
def write (sp : Spelling) (t : Transaction) : Bytes :=
  arrayHeader (6 - sp.omitted) ++ ((sp.fields t).take (6 - sp.omitted)).flatten

/-- The items of the fields of a transaction. -/
def items (sp : Spelling) (t : Transaction) : List Item :=
  [.unsigned t.nonce.toNat, accountItem t.recipient, .unsigned t.value.toNat,
    .unsigned t.gasLimit.toNat, sp.data.item t.data, chainItem t.chainId]

/-- The shortest spelling of a transaction. -/
def shortest (t : Transaction) : Spelling where
  nonce := .narrowest t.nonce.toNat
  value := .narrowest t.value.toNat
  gasLimit := .narrowest t.gasLimit.toNat
  data := .binary
  chainId := .narrowest (t.chainId.getD 0).toNat
  omitted := 0

variable {sp : Spelling} {t : Transaction}

/-- The shortest spelling suits a transaction whose data is not too long. -/
theorem shortest_suits (short : t.data.length < 2 ^ 32) : (shortest t).Suits t where
  nonce := NumberForm.lt_bound_narrowest t.nonce.toNat_lt
  value := NumberForm.lt_bound_narrowest t.value.toNat_lt
  gasLimit := NumberForm.lt_bound_narrowest t.gasLimit.toNat_lt
  data := short
  chainId := by
    intro c named
    have form : (shortest t).chainId = .narrowest c.toNat := by
      rw [shortest, Option.mem_def.mp named, Option.getD_some]
    rw [form]
    exact NumberForm.lt_bound_narrowest c.toNat_lt
  omitted := .inl rfl

/-- The canonical bytes are the shortest spelling. -/
theorem write_shortest (t : Transaction) : (shortest t).write t = t.canonical := by
  have chain : writeOptional (fun c ↦ (shortest t).chainId.write c.toNat) t.chainId =
      writeOptional (fun c ↦ writeUnsigned c.toNat) t.chainId := by
    cases named : t.chainId with
    | none => rfl
    | some c =>
      rw [writeOptional, writeOptional, shortest, named]
      exact NumberForm.write_narrowest _
  rw [canonical, ← chain, ← NumberForm.write_narrowest, ← NumberForm.write_narrowest,
    ← NumberForm.write_narrowest]
  simp only [List.append_assoc]
  simp [write, fields, shortest, BytesForm.write]

/-- The fields of a transaction are read back as their items. -/
theorem read_fields (room : Nat) (suits : sp.Suits t) :
    List.Forall₂ (fun part item ↦ ∀ rest, read (room + 1) (part ++ rest) = some (item, rest))
      (sp.fields t) (sp.items t) := by
  have chain (rest : Bytes) :
      read (room + 1) (writeOptional (fun c ↦ sp.chainId.write c.toNat) t.chainId ++ rest) =
        some (chainItem t.chainId, rest) := by
    cases named : t.chainId with
    | none => exact read_writeNil (room + 1) rest
    | some c => exact read_number (room + 1) _ _ rest (suits.chainId c named)
  exact .cons (read_number (room + 1) _ _ · suits.nonce) <|
    .cons (read_account (room + 1) t.recipient) <|
    .cons (read_number (room + 1) _ _ · suits.value) <|
    .cons (read_number (room + 1) _ _ · suits.gasLimit) <|
    .cons (BytesForm.read_write room suits.data) <| .cons chain .nil

/-- A transaction in a spelling is read as the array of its items, but for those left out. -/
theorem read_write (room : Nat) (suits : sp.Suits t) (rest : Bytes) :
    read (room + 2) (sp.write t ++ rest) =
      some (.array ((sp.items t).take (6 - sp.omitted)), rest) := by
  have parts := List.forall₂_take (6 - sp.omitted) (read_fields room suits)
  have count : ((sp.items t).take (6 - sp.omitted)).length = 6 - sp.omitted := by
    rw [List.length_take]
    exact Nat.min_eq_left (Nat.sub_le 6 _)
  have read := readMany_flatten parts [] rest
  rw [count] at read
  rw [write, List.append_assoc, read_arrayHeader (room + 1) _ _ (by omega), read]
  rfl

/-- The item of an account spells it. -/
theorem account_item (account : Option Address) :
    (accountItem account).optional? address? = some account := by
  cases account with
  | none => rfl
  | some a =>
    have text : address? (.text (Bytes.ofText a.text)) = some a := by
      rw [address?, Item.string?, Bytes.toText?_ofText, Option.bind_some, a.ofText_text]
      rfl
    rw [accountItem, Item.optional?, text]
    · rfl
    · exact Item.noConfusion

/-- The item of a chain spells it. -/
theorem chain_item (chain : Option UInt64) :
    (chainItem chain).optional? Item.uint64? = some chain := by
  cases chain with
  | none => rfl
  | some c =>
    rw [chainItem, Item.optional?, Item.uint64?_unsigned]
    · rfl
    · exact Item.noConfusion

/-- The items of the fields spell the transaction, even without those that may be left out. -/
theorem ofItem?_items (suits : sp.Suits t) :
    ofItem? (.array ((sp.items t).take (6 - sp.omitted))) = some t := by
  have read (data chain : Option Item) (dataRead : (data.getD (.binary [])).bytes? = some t.data)
      (chainRead : (chain.getD .nil).optional? Item.uint64? = some t.chainId)
      (given : Item.fields? fieldNames (.array ((sp.items t).take (6 - sp.omitted))) =
        some [some (.unsigned t.nonce.toNat), some (accountItem t.recipient),
          some (.unsigned t.value.toNat), some (.unsigned t.gasLimit.toNat), data, chain]) :
      ofItem? (.array ((sp.items t).take (6 - sp.omitted))) = some t := by
    simp only [ofItem?, given, dataRead, chainRead, Option.bind_some, Option.getD_some,
      Item.uint64?_unsigned, account_item, Option.bind_eq_bind, Option.pure_def]
  rcases suits.omitted with all | ⟨one, unnamed⟩ | ⟨two, unnamed, empty⟩
  · refine read (some (sp.data.item t.data)) (some (chainItem t.chainId))
      (sp.data.bytes?_item t.data) (chain_item t.chainId) ?_
    rw [all]
    rfl
  · refine read (some (sp.data.item t.data)) none (sp.data.bytes?_item t.data) ?_ ?_
    · rw [unnamed]
      rfl
    · rw [one]
      rfl
  · refine read none none ?_ ?_ ?_
    · rw [empty]
      rfl
    · rw [unnamed]
      rfl
    · rw [two]
      rfl

/-- A transaction is read from every spelling that suits it, whatever comes after. -/
theorem decode?_write (suits : sp.Suits t) (rest : Bytes) :
    decode? (sp.write t ++ rest) = some t := by
  rw [decode?, MessagePack.decode?, nestingLimit, read_write 1021 suits rest, Option.map_some,
    Option.bind_some]
  exact ofItem?_items suits

end Spelling

/-- A transaction is read back from its canonical bytes, which are its shortest spelling, and from
every other spelling that suits it. -/
theorem decodes (t : Transaction) (short : t.data.length < 2 ^ 32) (rest : Bytes) :
    decode? (t.canonical ++ rest) = some t ∧ (Spelling.shortest t).write t = t.canonical ∧
      ∀ sp : Spelling, sp.Suits t → decode? (sp.write t ++ rest) = some t := by
  refine ⟨?_, Spelling.write_shortest t, fun sp suits ↦ Spelling.decode?_write suits rest⟩
  rw [← Spelling.write_shortest t]
  exact Spelling.decode?_write (Spelling.shortest_suits short) rest

/-- A call with two bytes of data, its numbers and its data written wider than they need to be, and
without the field for the chain. -/
theorem decodes_wide :
    let t : Transaction := ⟨{ Draft.transfer (Address.tail []) 300 with data := [1, 200] }, 5⟩
    let sp : Spelling := ⟨.eight, .two, .four, .array .two [.four, .one], .bare, 1⟩
    t.data.length < 2 ^ 32 ∧ sp.Suits t ∧ decode? t.canonical = some t ∧
      decode? (sp.write t) = some t := by
  intro t sp
  have short : t.data.length < 2 ^ 32 := by decide
  have suits : sp.Suits t :=
    { nonce := by decide
      value := by decide
      gasLimit := by decide
      data := ⟨by decide, .cons (by decide) (.cons (by decide) .nil)⟩
      chainId := fun c named ↦ absurd named (Option.not_mem_none c)
      omitted := .inr (.inl ⟨rfl, rfl⟩) }
  obtain ⟨canonical, -, spelled⟩ := decodes t short []
  have wide := spelled sp suits
  rw [List.append_nil] at canonical wide
  exact ⟨short, suits, canonical, wide⟩

end Transaction

end Signatory
