import Signatory.Proofs.Json.Record
import Signatory.Transaction.Signed

/-!
# Documents are read back

Drafts, transactions, algorithms and signed transactions are read back from the text of their JSON
forms, the members of each record in any order: in the order of the keys, which `toJson` has, or in
that of the fields. Nothing is asked of what stands in the fields; numbers come back exactly, byte
strings of any length by their digits, and a hash by the characters of a string that need not be a
digest.
-/

namespace Signatory

open Json

/-- What is read from a text. -/
def Json.Tree.parse? {α : Type} (read : Tree → Option α) (text : String) : Option α :=
  (ofText? text).bind read

/-- What is read from the tree of a value is read from its text. -/
theorem Json.Tree.parse?_render {α : Type} (read : Tree → Option α) {v : Value} (h : v.Integral) :
    parse? read v.render = read v.tree := by
  rw [parse?, ofText?_render h]
  rfl

/-- An address is read back from its JSON form. -/
theorem Address.ofJson?_toJson (a : Address) : Address.ofJson? a.toJson.tree = some a := by
  rw [Address.toJson, Value.tree, Address.ofJson?, Tree.text?, Option.bind_some, ofText_text]
  rfl

/-- A byte string is read back from its JSON form. -/
theorem Bytes.ofJson?_toJson (bs : Bytes) : Bytes.ofJson? bs.toJson.tree = some bs := by
  rw [Bytes.toJson, Value.tree, Bytes.ofJson?, Tree.text?, Option.bind_some, Hex.decode_encodeMarked]
  rfl

/-! ## Drafts and transactions -/

namespace Draft

/-- The JSON forms of a draft. -/
def Form (d : Draft) (v : Value) : Prop :=
  v.Lists d.members

theorem form_toJson (d : Draft) : d.Form d.toJson :=
  Value.record_lists (by decide : fieldNames.Nodup)

theorem integral_of_mem (d : Draft) : ∀ m ∈ d.members, m.2.Integral := by
  simp only [members, List.forall_mem_cons, List.not_mem_nil, false_implies, implies_true, and_true]
  exact ⟨.optional (fun _ ↦ .string _) _, .nat _, .nat _, .string _, .optional (fun _ ↦ .nat _) _⟩

/-- A draft is read back from the trees of its fields. -/
theorem ofFields?_members (d : Draft) :
    ofFields? (d.members.map fun m ↦ some m.2.tree) = some d := by
  have account := Tree.optional?_tree Address.ofJson?_toJson (fun _ ↦ Tree.noConfusion) d.recipient
  have chain : Tree.optional? Tree.uint64?
      (some (Value.optional (fun c ↦ .nat c.toNat) d.chainId).tree) = some d.chainId :=
    Tree.optional?_tree Tree.uint64?_nat (fun _ ↦ Tree.noConfusion) d.chainId
  simp [members, ofFields?, account, chain, Tree.uint64?_nat, Tree.orElse?, Bytes.ofJson?_toJson]

/-- A draft is read back from the tree of a JSON form. -/
theorem ofJson?_tree {d : Draft} {v : Value} (h : d.Form v) : ofJson? v.tree = some d := by
  have found := Tree.fields?_tree h (by decide : fieldNames.Nodup)
  rw [ofJson?, show fieldNames = d.members.map (·.1) from rfl, found, Option.bind_some,
    ofFields?_members]

end Draft

namespace Transaction

/-- The JSON forms of a transaction. -/
def Form (t : Transaction) (v : Value) : Prop :=
  v.Lists (("nonce", .nat t.nonce.toNat) :: t.members)

theorem form_toJson (t : Transaction) : t.Form t.toJson :=
  Value.record_lists (by decide : fieldNames.Nodup)

theorem Form.integral {t : Transaction} {v : Value} (h : t.Form v) : v.Integral :=
  Value.Lists.integral h (List.forall_mem_cons.mpr ⟨.nat _, t.integral_of_mem⟩)

/-- A transaction is read back from the tree of a JSON form. -/
theorem ofJson?_tree {t : Transaction} {v : Value} (h : t.Form v) : ofJson? v.tree = some t := by
  have found := Tree.fields?_tree h (by decide : fieldNames.Nodup)
  rw [List.map_cons, List.map_cons] at found
  rw [ofJson?, show fieldNames = "nonce" :: t.members.map (·.1) from rfl, found]
  simp [Tree.uint64?_nat, Draft.ofFields?_members]

end Transaction

/-! ## Algorithms -/

namespace Algorithm

/-- The members of the JSON form of an algorithm. -/
def members : Algorithm → List (String × Value)
  | .plain => [("kind", .string "plain")]
  | .chainBound chain => [("kind", .string "chain_bound"), ("chain_id", .nat chain.toNat)]

/-- The JSON forms of an algorithm. -/
def Form (a : Algorithm) (v : Value) : Prop :=
  v.Lists a.members

theorem form_toJson (a : Algorithm) : a.Form a.toJson := by
  have distinct : (a.members.map (·.1)).Nodup := by
    cases a with
    | plain => exact (by decide : ["kind"].Nodup)
    | chainBound => exact (by decide : ["kind", "chain_id"].Nodup)
  have same : a.toJson = .record a.members := by cases a <;> rfl
  rw [same]
  exact Value.record_lists distinct

theorem Form.integral {a : Algorithm} {v : Value} (h : a.Form v) : v.Integral := by
  refine Value.Lists.integral h ?_
  cases a <;> simp [members, Value.Integral.string, Value.Integral.nat]

/-- The members of an object are found under a key, whatever their order. -/
theorem occurrences_perm {v : Value} {members : List (String × Value)} (h : v.Lists members) :
    ∃ trees, v.tree = .object trees ∧ ∀ key, (occurrences key trees).Perm
      ((members.filter (·.1 = key)).map (·.2.tree)) := by
  obtain ⟨trees, order, written⟩ := h.tree
  refine ⟨_, written, fun key ↦ ?_⟩
  have found := ((order.map fun m ↦ (some m.1, m.2)).filter (·.1 = some key)).map (·.2)
  have same : ((members.map fun m ↦ (m.1, m.2.tree)).map fun m ↦ (some m.1, m.2)).filter
        (·.1 = some key) =
      (members.filter (·.1 = key)).map fun m ↦ (some m.1, m.2.tree) := by
    rw [List.map_map, List.filter_map]
    congr 2
    funext m
    simp
  rw [same, List.map_map] at found
  exact found

/-- An algorithm is read back from the tree of a JSON form, if there is room for one object. -/
theorem ofJson?_tree {a : Algorithm} {v : Value} (h : a.Form v) (room : Nat) :
    ofJson? (room + 1) v.tree = some a := by
  have means : (v.tree.value? (room + 1)).isSome := by
    refine Tree.value?_isSome_of_lists h fun m mem ↦ ?_
    cases a with
    | plain =>
      obtain rfl := List.mem_singleton.mp mem
      rfl
    | chainBound chain =>
      obtain rfl | mem := List.mem_cons.mp mem
      · rfl
      · obtain rfl := List.mem_singleton.mp mem
        exact Option.isSome_of_eq_some (Tree.value?_nat room chain)
  obtain ⟨trees, written, found⟩ := occurrences_perm h
  rw [written] at means ⊢
  rw [ofJson?, if_neg (by simpa using Option.isSome_iff_ne_none.mp means)]
  cases a with
  | plain =>
    have kind := List.perm_singleton.mp (found "kind")
    simp only [kind]
    rfl
  | chainBound chain =>
    have kind := List.perm_singleton.mp (found "kind")
    have chains := List.perm_singleton.mp (found "chain_id")
    simp only [kind, chains]
    simp [Value.tree, Tree.text?, ofKind?, Tree.uint64?_nat]

end Algorithm

/-! ## Signed transactions -/

namespace SignedTransaction

/-- The members of a JSON form of a signed transaction, in which the transaction and the algorithm
have the given forms. -/
def members (s : SignedTransaction) (transaction algorithm : Value) : List (String × Value) :=
  [("transaction", transaction), ("algorithm", algorithm), ("signer", s.signer.toJson),
    ("public_key", s.publicKey.toJson), ("signature", s.signature.toJson), ("hash", .string s.hash)]

/-- The JSON forms of a signed transaction. -/
def Form (s : SignedTransaction) (v : Value) : Prop :=
  ∃ transaction algorithm, s.transaction.Form transaction ∧ s.algorithm.Form algorithm ∧
    v.Lists (s.members transaction algorithm)

theorem form_toJson (s : SignedTransaction) : s.Form s.toJson :=
  ⟨_, _, s.transaction.form_toJson, s.algorithm.form_toJson,
    Value.record_lists (by decide : fieldNames.Nodup)⟩

theorem Form.integral {s : SignedTransaction} {v : Value} (h : s.Form v) : v.Integral := by
  obtain ⟨transaction, algorithm, t, a, lists⟩ := h
  refine lists.integral ?_
  simp only [members, List.forall_mem_cons, List.not_mem_nil, false_implies, implies_true, and_true]
  exact ⟨t.integral, a.integral, .string _, .string _, .string _, .string _⟩

/-- A signed transaction is read back from the tree of a JSON form, if there is room for an object
within an object. -/
theorem ofJson?_tree {s : SignedTransaction} {v : Value} (h : s.Form v) (room : Nat) :
    ofJson? (room + 2) v.tree = some s := by
  obtain ⟨transaction, algorithm, t, a, lists⟩ := h
  have found := Tree.fields?_tree lists (by decide : fieldNames.Nodup)
  rw [ofJson?, show fieldNames = (s.members transaction algorithm).map (·.1) from rfl, found]
  have hash : (Value.string s.hash).tree.text? = some s.hash := rfl
  simp [members, Transaction.ofJson?_tree t, Algorithm.ofJson?_tree a room, Address.ofJson?_toJson,
    Bytes.ofJson?_toJson, hash]

/-- Drafts, transactions, algorithms and signed transactions are read back from the text that is
written for them, whatever their fields hold and in whatever order the members of their records are
written. So what is read for a signed transaction verifies exactly if the original does. -/
theorem parses :
    (∀ d : Draft, d.Form d.toJson ∧
      ∀ v, d.Form v → Tree.parse? Draft.ofJson? v.render = some d) ∧
    (∀ t : Transaction, t.Form t.toJson ∧
      ∀ v, t.Form v → Tree.parse? Transaction.ofJson? v.render = some t) ∧
    (∀ a : Algorithm, a.Form a.toJson ∧
      ∀ v, a.Form v → Tree.parse? (Algorithm.ofJson? nestingLimit) v.render = some a) ∧
    (∀ s : SignedTransaction, s.Form s.toJson ∧
      ∀ v, s.Form v → Tree.parse? (ofJson? nestingLimit) v.render = some s ∧
        ∀ read, Tree.parse? (ofJson? nestingLimit) v.render = some read →
          read.verify = s.verify) := by
  refine ⟨fun d ↦ ⟨d.form_toJson, fun v h ↦ ?_⟩, fun t ↦ ⟨t.form_toJson, fun v h ↦ ?_⟩,
    fun a ↦ ⟨a.form_toJson, fun v h ↦ ?_⟩, fun s ↦ ⟨s.form_toJson, fun v h ↦ ?_⟩⟩
  · rw [Tree.parse?_render _ (Value.Lists.integral h d.integral_of_mem), Draft.ofJson?_tree h]
  · rw [Tree.parse?_render _ h.integral, Transaction.ofJson?_tree h]
  · rw [Tree.parse?_render _ h.integral, nestingLimit, Algorithm.ofJson?_tree h 126]
  · have back : Tree.parse? (ofJson? nestingLimit) v.render = some s := by
      rw [Tree.parse?_render _ h.integral, nestingLimit, ofJson?_tree h 125]
    refine ⟨back, fun read found ↦ ?_⟩
    rw [Option.some.inj (found.symm.trans back)]

/-- Records that are written backwards are read back, with the greatest numbers, without bytes, and
with a hash that has to be escaped. -/
theorem parses_backwards :
    let s : SignedTransaction := ⟨⟨⟨none, 0, 18446744073709551615, [], some 1⟩, 0⟩, .chainBound 1,
      .tail [], [], [255], "\"\\\n\x01é"⟩
    let draft : Value := .object s.transaction.members.reverse
    let transaction : Value :=
      .object (("nonce", .nat s.transaction.nonce.toNat) :: s.transaction.members).reverse
    let algorithm : Value := .object s.algorithm.members.reverse
    let signed : Value := .object (s.members transaction algorithm).reverse
    (s.transaction.toDraft.Form draft ∧
      Tree.parse? Draft.ofJson? draft.render = some s.transaction.toDraft) ∧
    (s.transaction.Form transaction ∧
      Tree.parse? Transaction.ofJson? transaction.render = some s.transaction) ∧
    (s.algorithm.Form algorithm ∧
      Tree.parse? (Algorithm.ofJson? nestingLimit) algorithm.render = some s.algorithm) ∧
    s.Form signed ∧ Tree.parse? (ofJson? nestingLimit) signed.render = some s := by
  intro s draft transaction algorithm signed
  have d : s.transaction.toDraft.Form draft := ⟨_, List.reverse_perm _, rfl⟩
  have t : s.transaction.Form transaction := ⟨_, List.reverse_perm _, rfl⟩
  have a : s.algorithm.Form algorithm := ⟨_, List.reverse_perm _, rfl⟩
  have whole : s.Form signed := ⟨transaction, algorithm, t, a, _, List.reverse_perm _, rfl⟩
  exact ⟨⟨d, (parses.1 _).2 _ d⟩, ⟨t, (parses.2.1 _).2 _ t⟩, ⟨a, (parses.2.2.1 _).2 _ a⟩,
    whole, ((parses.2.2.2 _).2 _ whole).1⟩

end SignedTransaction

end Signatory
