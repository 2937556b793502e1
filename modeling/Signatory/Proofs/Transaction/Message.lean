import Signatory.Proofs.Transaction.Canonical

/-!
# What a signature is made for

The bytes that are hashed tell the algorithm and the transaction, except that the eight bytes of a
chain can pass for the beginning of a transaction: the message of one transaction for no chain in
particular is then the message of another for that chain. The first byte of such a chain is the
header of an array of six items. If the transaction for no chain has a recipient, its sequence
number spells the rest of the chain, another header and the other sequence number.
-/

namespace Signatory

namespace Bytes

/-- The bytes of marked digits are small. -/
theorem lt_of_mem_ofText_encodeMarked {bs : Bytes} {b : UInt8}
    (h : b ∈ ofText (Hex.encodeMarked bs)) : b.toNat < 128 := by
  have mark : ∀ b ∈ ['0', 'x'].flatMap String.utf8EncodeChar, b.toNat < 128 := by
    decide +kernel
  have digit : ∀ n : Fin 16, ∀ b ∈ String.utf8EncodeChar (Text.digit n.val), b.toNat < 128 := by
    decide +kernel
  have spelled : ofText (Hex.encodeMarked bs) =
      ['0', 'x'].flatMap String.utf8EncodeChar ++
        (Hex.digits bs).flatMap String.utf8EncodeChar := by
    rw [Hex.encodeMarked, ofText_ofList, ← List.flatMap_append]
    rfl
  rw [spelled, List.mem_append] at h
  rcases h with marked | byte
  · exact mark b marked
  · obtain ⟨c, written, byte⟩ := List.mem_flatMap.mp byte
    obtain ⟨d, -, pair⟩ := List.mem_flatMap.mp written
    have small := d.toNat_lt
    simp only [Hex.pair, List.mem_cons, List.not_mem_nil, or_false] at pair
    rcases pair with rfl | rfl
    · exact digit ⟨d.toNat / 16, by omega⟩ b byte
    · exact digit ⟨d.toNat % 16, by omega⟩ b byte

end Bytes

namespace Transaction

open MessagePack

/-- A number takes one byte if it is small and nine if it is great. -/
theorem writeUnsigned_cases (n : Nat) :
    (n < 2 ^ 7 ∧ writeUnsigned n = [UInt8.ofNat n]) ∨
      (2 ≤ (writeUnsigned n).length ∧ (writeUnsigned n).length ≤ 5) ∨
      (2 ^ 32 ≤ n ∧ writeUnsigned n = 0xCF :: Bytes.bigEndian 8 n) := by
  unfold writeUnsigned
  split
  next small => exact Or.inl ⟨small, rfl⟩
  next =>
    split
    next => exact Or.inr (Or.inl (by simp))
    next =>
      split
      next => exact Or.inr (Or.inl (by simp))
      next =>
        split
        next => exact Or.inr (Or.inl (by simp))
        next great => exact Or.inr (Or.inr ⟨Nat.le_of_not_lt great, rfl⟩)

/-- The canonical bytes behind the sequence number. -/
def particulars (t : Transaction) : Bytes :=
  writeOptional (fun a ↦ writeText (Bytes.ofText a.text)) t.recipient ++
    (writeUnsigned t.value.toNat ++ (writeUnsigned t.gasLimit.toNat ++ (writeBinary t.data ++
      writeOptional (fun c ↦ writeUnsigned c.toNat) t.chainId)))

/-- The canonical bytes are a header, the sequence number and the rest. -/
theorem canonical_eq (t : Transaction) :
    t.canonical = 0x96 :: (writeUnsigned t.nonce.toNat ++ t.particulars) := by
  simp only [canonical, particulars, List.append_assoc]
  rfl

/-- An account is written as a mark and small bytes. -/
theorem writeText_text (a : Address) :
    writeText (Bytes.ofText a.text) = 0xD9 :: 42 :: Bytes.ofText a.text := by
  rw [writeText, a.length_ofText_text]
  rfl

/-- What stands behind a sequence number begins with a great byte. -/
theorem particulars_head (t : Transaction) :
    ∃ b : UInt8, t.particulars[0]? = some b ∧ 128 ≤ b.toNat := by
  unfold particulars
  cases t.recipient with
  | none => exact ⟨0xC0, rfl, by decide⟩
  | some a =>
    rw [writeOptional, writeText_text]
    exact ⟨0xD9, rfl, by decide⟩

/-- If there is a recipient, small bytes follow. -/
theorem particulars_small {t : Transaction} {a : Address} (h : t.recipient = some a) (i : Nat)
    (first : 1 ≤ i) (last : i < 44) :
    ∃ b : UInt8, t.particulars[i]? = some b ∧ b.toNat < 128 := by
  obtain ⟨i, rfl⟩ := Nat.exists_eq_add_of_le' first
  rw [particulars, h, writeOptional, writeText_text, List.cons_append, List.getElem?_cons_succ]
  cases i with
  | zero => exact ⟨42, rfl, by decide⟩
  | succ i =>
    have inside : i < (Bytes.ofText a.text).length := by
      rw [a.length_ofText_text]
      omega
    rw [List.cons_append, List.getElem?_cons_succ, List.getElem?_append_left inside,
      List.getElem?_eq_getElem inside]
    exact ⟨_, rfl, Bytes.lt_of_mem_ofText_encodeMarked (List.getElem_mem inside)⟩

/-- Behind the eight bytes of a chain, one transaction is spelled like another without a chain. -/
def Shadows (t : Transaction) (chain : UInt64) (u : Transaction) : Prop :=
  Bytes.bigEndian 8 chain.toNat ++ t.canonical = u.canonical

/-- The chain that a long sequence number begins to spell. -/
def shadowChain (nonce : Nat) : Nat :=
  0x96CF * 256 ^ 6 + nonce / 256 ^ 2

/-- Such a chain is written as the beginning of a transaction. -/
theorem bigEndian_shadowChain {nonce : Nat} (h : nonce < 2 ^ 64) :
    Bytes.bigEndian 8 (shadowChain nonce) =
      0x96 :: 0xCF :: Bytes.bigEndian 6 (nonce / 256 ^ 2) := by
  have high : shadowChain nonce / 256 ^ 6 = 0x96CF := by
    rw [shadowChain]
    omega
  rw [Bytes.bigEndian_add 2 6, high, shadowChain, Bytes.bigEndian_mul_add]
  rfl

namespace Shadows

variable {t u : Transaction} {chain : UInt64}

/-- A chain that passes for the beginning of a transaction begins like one. -/
theorem lead (h : t.Shadows chain u) : chain.toNat / 2 ^ 56 = 0x96 := by
  have first : UInt8.ofNat (chain.toNat / 256 ^ 7) = UInt8.ofNat (0x90 + 6) :=
    (List.cons.inj h).1
  have fits := chain.toNat_lt
  have number := congrArg UInt8.toNat first
  rw [UInt8.toNat_ofNat', UInt8.toNat_ofNat'] at number
  omega

/-- The sequence number of a transaction with a recipient that is spelled so takes nine bytes. -/
theorem great {a : Address} (h : t.Shadows chain u) (account : u.recipient = some a) :
    2 ^ 32 ≤ u.nonce.toNat ∧
      writeUnsigned u.nonce.toNat = 0xCF :: Bytes.bigEndian 8 u.nonce.toNat := by
  have header : (writeUnsigned u.nonce.toNat ++ u.particulars)[7]? = some 0x96 := by
    have ninth := congrArg (fun bs : Bytes ↦ bs[8]?) h
    rw [canonical_eq, canonical_eq] at ninth
    exact ninth.symm
  have short : (writeUnsigned u.nonce.toNat).length ≤ 5 → False := by
    intro short
    rw [List.getElem?_append_right (by omega)] at header
    obtain ⟨b, found, small⟩ :=
      particulars_small account (7 - (writeUnsigned u.nonce.toNat).length) (by omega) (by omega)
    rw [found] at header
    rw [Option.some.inj header] at small
    exact absurd small (by decide)
  rcases writeUnsigned_cases u.nonce.toNat with ⟨-, written⟩ | ⟨-, few⟩ | great
  · exact absurd (by rw [written, List.length_singleton]; omega) short
  · exact absurd few short
  · exact great

/-- The sequence number spells the chain, a header and the beginning of the rest. -/
theorem split {a : Address} (h : t.Shadows chain u) (account : u.recipient = some a) :
    chain.toNat = shadowChain u.nonce.toNat ∧
      (0x96 : UInt8) = UInt8.ofNat (u.nonce.toNat / 256) ∧
      writeUnsigned t.nonce.toNat ++ t.particulars =
        UInt8.ofNat u.nonce.toNat :: u.particulars := by
  have fits := u.nonce.toNat_lt
  have within : shadowChain u.nonce.toNat < 256 ^ 8 := by
    rw [shadowChain]
    omega
  have spelled : Bytes.bigEndian 8 chain.toNat ++
        0x96 :: (writeUnsigned t.nonce.toNat ++ t.particulars) =
      Bytes.bigEndian 8 (shadowChain u.nonce.toNat) ++
        (UInt8.ofNat (u.nonce.toNat / 256) :: UInt8.ofNat u.nonce.toNat :: u.particulars) := by
    rw [← canonical_eq, h, canonical_eq, (h.great account).2, bigEndian_shadowChain fits,
      Bytes.bigEndian_add 6 2]
    simp [Bytes.bigEndian]
  obtain ⟨front, back⟩ := List.append_inj spelled (by simp)
  obtain ⟨header, rest⟩ := List.cons.inj back
  exact ⟨Bytes.bigEndian_inj chain.toNat_lt within front, header, rest⟩

/-- The sequence number behind the chain takes one byte, and the rest is spelled alike. -/
theorem small {a : Address} (h : t.Shadows chain u) (account : u.recipient = some a) :
    t.nonce.toNat < 2 ^ 7 ∧ UInt8.ofNat t.nonce.toNat = UInt8.ofNat u.nonce.toNat ∧
      t.particulars = u.particulars := by
  have spelled := (h.split account).2.2
  have long : 2 ≤ (writeUnsigned t.nonce.toNat).length →
      (writeUnsigned t.nonce.toNat).length ≤ 9 → False := by
    intro many few
    have next := congrArg (fun bs : Bytes ↦ bs[(writeUnsigned t.nonce.toNat).length]?) spelled
    rw [List.getElem?_append_right (Nat.le_refl _), Nat.sub_self] at next
    obtain ⟨b, found, great⟩ := particulars_head t
    obtain ⟨i, size⟩ := Nat.exists_eq_add_of_le' many
    obtain ⟨c, found', small⟩ := particulars_small account (i + 1) (by omega) (by omega)
    rw [size, List.getElem?_cons_succ, found, found'] at next
    rw [Option.some.inj next] at great
    omega
  rcases writeUnsigned_cases t.nonce.toNat with ⟨small, written⟩ | ⟨many, few⟩ | ⟨-, written⟩
  · rw [written, List.singleton_append] at spelled
    exact ⟨small, List.cons.inj spelled⟩
  · exact absurd (by omega) (long many)
  · rw [written, List.length_cons, Bytes.length_bigEndian] at long
    exact absurd (Nat.le_refl _) (long (by decide))

end Shadows

/-- A transaction with a recipient and without a chain is spelled like a chain and another
transaction exactly if the two differ in their sequence numbers only, and the greater one spells the
chain, a header and the smaller one. -/
theorem shadows_iff {t u : Transaction} {chain : UInt64} {a : Address}
    (ht : t.data.length < 2 ^ 32) (hu : u.data.length < 2 ^ 32) (account : u.recipient = some a) :
    t.Shadows chain u ↔
      2 ^ 32 ≤ u.nonce.toNat ∧ chain.toNat = shadowChain u.nonce.toNat ∧
        u.nonce.toNat / 256 % 256 = 0x96 ∧ u.nonce.toNat % 256 = t.nonce.toNat ∧
        t.nonce.toNat < 2 ^ 7 ∧ t.toDraft = u.toDraft := by
  constructor
  · intro h
    obtain ⟨spelled, header, -⟩ := h.split account
    obtain ⟨small, last, rest⟩ := h.small account
    have alike : t = u.toDraft.withNonce t.nonce := by
      apply canonical_inj (u := u.toDraft.withNonce t.nonce) ht hu
      rw [canonical_eq, canonical_eq, rest]
      rfl
    have draft := congrArg toDraft alike
    refine ⟨(h.great account).1, spelled, ?_, ?_, small, draft⟩
    · have number := congrArg UInt8.toNat header
      rw [UInt8.toNat_ofNat'] at number
      exact number.symm
    · have number := congrArg UInt8.toNat last
      rw [UInt8.toNat_ofNat', UInt8.toNat_ofNat'] at number
      omega
  · rintro ⟨great, spelled, header, last, small, draft⟩
    have long : writeUnsigned u.nonce.toNat = 0xCF :: Bytes.bigEndian 8 u.nonce.toNat := by
      simp only [writeUnsigned]
      rw [if_neg (by omega), if_neg (by omega), if_neg (by omega), if_neg (by omega)]
    have short : writeUnsigned t.nonce.toNat = [UInt8.ofNat u.nonce.toNat] := by
      rw [writeUnsigned, if_pos small, ← last]
      congr 1
      rw [← UInt8.toNat_inj, UInt8.toNat_ofNat', UInt8.toNat_ofNat']
      omega
    have middle : UInt8.ofNat (u.nonce.toNat / 256) = 0x96 := by
      rw [← UInt8.toNat_inj, UInt8.toNat_ofNat']
      exact header
    have rest : t.particulars = u.particulars := by
      rw [particulars, draft, particulars]
    rw [Shadows, canonical_eq, canonical_eq, long, short, spelled,
      bigEndian_shadowChain u.nonce.toNat_lt, Bytes.bigEndian_add 6 2, rest]
    simp [Bytes.bigEndian, middle]

end Transaction

namespace Algorithm

/-- Chains and what follows them are told apart. -/
theorem tag_append_inj {c d : UInt64} {p q : Bytes}
    (h : (chainBound c).tag ++ p = (chainBound d).tag ++ q) : c = d ∧ p = q := by
  obtain ⟨chain, rest⟩ := List.append_inj h (by simp [tag])
  exact ⟨UInt64.toNat_inj.mp (Bytes.bigEndian_inj c.toNat_lt d.toNat_lt chain), rest⟩

/-- The bytes that are hashed for two acceptable transactions are the same exactly if the algorithms
and the transactions are, or if one algorithm is plain, the other is bound to a chain, and the
transaction of the plain one is spelled like the chain and the other transaction. Only chains with
one first byte can be spelled so, and only by certain sequence numbers if there is a recipient. -/
theorem digestInput_eq_iff {a b : Algorithm} {t u : Transaction} (ht : t.validate = .ok ())
    (hu : u.validate = .ok ()) :
    (a.digestInput t.canonical = b.digestInput u.canonical ↔
      (a = b ∧ t = u) ∨ (∃ chain, a = .chainBound chain ∧ b = .plain ∧ t.Shadows chain u) ∨
        (∃ chain, a = .plain ∧ b = .chainBound chain ∧ u.Shadows chain t)) ∧
    (∀ chain, t.Shadows chain u → chain.toNat / 2 ^ 56 = 0x96 ∧
      (u.recipient ≠ none → 2 ^ 32 ≤ u.nonce.toNat ∧
        chain.toNat = 0x96CF * 256 ^ 6 + u.nonce.toNat / 256 ^ 2 ∧
        u.nonce.toNat / 256 % 256 = 0x96 ∧ u.nonce.toNat % 256 = t.nonce.toNat ∧
        t.nonce.toNat < 2 ^ 7 ∧ t.toDraft = u.toDraft)) := by
  have fits := Nat.lt_of_le_of_lt (Transaction.length_data_of_validate ht)
    (by decide : Transaction.dataLimit < 2 ^ 32)
  have fits' := Nat.lt_of_le_of_lt (Transaction.length_data_of_validate hu)
    (by decide : Transaction.dataLimit < 2 ^ 32)
  refine ⟨⟨fun h ↦ ?_, ?_⟩, fun chain h ↦ ⟨h.lead, fun account ↦ ?_⟩⟩
  · cases a with
    | plain =>
      cases b with
      | plain => exact Or.inl ⟨rfl, Transaction.canonical_inj fits fits' h⟩
      | chainBound d => exact Or.inr (Or.inr ⟨d, rfl, rfl, h.symm⟩)
    | chainBound c =>
      cases b with
      | plain => exact Or.inr (Or.inl ⟨c, rfl, rfl, h⟩)
      | chainBound d =>
        obtain ⟨rfl, rest⟩ := tag_append_inj h
        exact Or.inl ⟨rfl, Transaction.canonical_inj fits fits' rest⟩
  · rintro (⟨rfl, rfl⟩ | ⟨chain, rfl, rfl, h⟩ | ⟨chain, rfl, rfl, h⟩)
    · rfl
    · exact h
    · exact Eq.symm h
  · obtain ⟨r, account⟩ := Option.ne_none_iff_exists'.mp account
    exact (Transaction.shadows_iff fits fits' account).mp h

/-- A creation for no chain in particular and one for a chain are hashed alike. -/
theorem digestInput_coincides :
    let t : Transaction := ⟨⟨none, 1, 21000, [0], none⟩, 0⟩
    let u : Transaction := ⟨⟨none, 1, 21000, [0], none⟩, 0x100009600⟩
    let a := chainBound 0x96CF000000010000
    t.validate = .ok () ∧ u.validate = .ok () ∧ a.checkChain t.chainId = .ok () ∧
      plain.checkChain u.chainId = .ok () ∧
      a.digestInput t.canonical = plain.digestInput u.canonical ∧ a ≠ plain ∧ t ≠ u := by
  refine ⟨rfl, rfl, rfl, rfl, ?_, ?_, ?_⟩ <;> decide

/-- The bytes that are hashed for a creation tell it apart from others of a plain signer. -/
theorem digestInput_eq_iff_creation :
    let t : Transaction := ⟨⟨none, 1, 21000, [0], none⟩, 0⟩
    let u : Transaction := ⟨⟨none, 1, 21000, [0], none⟩, 1⟩
    t.validate = .ok () ∧ u.validate = .ok () ∧
      plain.digestInput t.canonical ≠ plain.digestInput u.canonical := by
  intro t u
  have ht : t.validate = .ok () := rfl
  have hu : u.validate = .ok () := rfl
  refine ⟨ht, hu, fun h ↦ ?_⟩
  rcases (digestInput_eq_iff ht hu).1.mp h with ⟨-, same⟩ | ⟨_, bound, -⟩ | ⟨_, -, bound, -⟩
  · exact absurd (congrArg Transaction.nonce same) (by decide)
  · cases bound
  · cases bound

end Algorithm

end Signatory
