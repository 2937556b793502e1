import Signatory.Proofs.Command
import Signatory.Proofs.Text.Keys

/-!
# Command lines

A line that sets out the words of a command is read as this command, with the values that the words
spell: a private key and an address in hexadecimal, numbers in decimal, data in hexadecimal behind a
mark. What is left out has its usual value: the default endpoint, a plain signer, no data.
-/

namespace Signatory

namespace Text

variable {radix n : Nat} {s : List Char}

/-- A text that spells a number is a word. -/
theorem Spells.isWord (h : Spells radix s n) : IsWord s := by
  obtain ⟨sign, digits, rfl, optional, some_digits, digit, -⟩ := h
  have all : ('+' :: hexDigits).all (!isBlank ·) = true := by decide
  have bare (c : Char) (inside : c ∈ '+' :: hexDigits) : ¬ isBlank c = true := by
    simpa using List.all_eq_true.mp all c inside
  refine ⟨fun none ↦ some_digits (List.append_eq_nil_iff.mp none).2,
    List.any_eq_false.mpr fun c inside ↦ bare c ?_⟩
  rcases List.mem_append.mp inside with inside | inside
  · rcases optional with rfl | rfl
    · exact absurd inside List.not_mem_nil
    · exact List.mem_singleton.mp inside ▸ List.mem_cons_self
  · obtain ⟨d, found⟩ := Option.isSome_iff_exists.mp (digit c inside)
    have value : digitValue c = some d := (Option.filter_eq_some_iff.mp found).1
    exact List.mem_cons_of_mem _ (of_digitValue value).2

/-- A number of 64 bits is read from a text that spells it. -/
theorem Spells.readUInt64 {n : UInt64} (h : Spells 10 s n.toNat) : readUInt64 s = .ok n := by
  rw [Text.readUInt64, (readUnsigned_ok_iff (by decide)).mpr ⟨h, n.toNat_lt⟩]
  exact congrArg Except.ok UInt64.ofNat_toNat

end Text

/-- A text that holds some digits is a word. -/
theorem Hex.Holds.isWord {width : Nat} {s digits : List Char} (h : Holds (width + 1) s digits) :
    Text.IsWord s := by
  refine ⟨?_, h.solid⟩
  rintro rfl
  have length := h.length
  rcases h.form with rfl | form
  · exact absurd length (by simp)
  · exact absurd form (by simp)

namespace Hex

variable {bs : Bytes} {n : Nat}

/-- The digits of a byte string spell it. -/
theorem spells_digits (bs : Bytes) : Spells (digits bs) bs :=
  decode_ok_iff.mp (decode_digits bs)

/-- A byte string in hexadecimal holds its digits. -/
theorem holds_encode (width : bs.length = n) : Holds (2 * n) (encode bs).toList (digits bs) :=
  ⟨.inl String.toList_ofList, width ▸ length_digits bs, (spells_digits bs).1⟩

theorem holds_encodeMarked (width : bs.length = n) :
    Holds (2 * n) (encodeMarked bs).toList (digits bs) :=
  ⟨.inr String.toList_ofList, width ▸ length_digits bs, (spells_digits bs).1⟩

end Hex

/-- A word for a private key: its digits, perhaps behind a mark. -/
def PrivateKey.IsWord (k : PrivateKey) (word : String) : Prop :=
  ∃ digits, Hex.Holds 64 word.toList digits ∧ Hex.Spells digits k.bytes

/-- A word for an address: its digits, perhaps behind a mark. -/
def Address.IsWord (a : Address) (word : String) : Prop :=
  ∃ digits, Hex.Holds 40 word.toList digits ∧ Hex.Spells digits a.bytes

/-- A word for data: a mark and its digits, of which there may be none. -/
def Bytes.IsWord (data : Bytes) (word : String) : Prop :=
  ∃ digits, word.toList = '0' :: 'x' :: digits ∧ Hex.Spells digits data

/-- A word for a number: its digits in decimal. -/
def IsNumber (n : UInt64) (word : String) : Prop :=
  Text.Spells 10 word.toList n.toNat

variable {word : String}

theorem PrivateKey.IsWord.isWord {k : PrivateKey} (h : k.IsWord word) : Text.IsWord word.toList :=
  let ⟨_, holds, _⟩ := h
  holds.isWord

theorem Address.IsWord.isWord {a : Address} (h : a.IsWord word) : Text.IsWord word.toList :=
  let ⟨_, holds, _⟩ := h
  holds.isWord

theorem Bytes.IsWord.isWord {data : Bytes} (h : data.IsWord word) : Text.IsWord word.toList := by
  obtain ⟨digits, marked, spells⟩ := h
  have holds : Hex.Holds digits.length word.toList digits := ⟨.inr marked, rfl, spells.1⟩
  refine ⟨?_, holds.solid⟩
  rw [marked]
  exact List.cons_ne_nil _ _

/-- A private key is read from its word. -/
theorem PrivateKey.IsWord.ofText {k : PrivateKey} (h : k.IsWord word) : ofText word = .ok k := by
  obtain ⟨digits, holds, spells⟩ := h
  have around : Text.Surrounds word.toList word.toList := ⟨[], [], by simp, rfl, rfl⟩
  exact (reads_ofText.exact word k).mpr ⟨digits, ⟨_, around, holds⟩, spells⟩

/-- Data are read from their word. -/
theorem Command.data_of_isWord {data : Bytes} (h : data.IsWord word) :
    Command.data [word] = .ok data := by
  obtain ⟨digits, marked, spells⟩ := h
  have read : Hex.decode (Hex.dropMarks word.toList) = .ok data :=
    Hex.decode_dropMarks_ok_iff.mpr ⟨1, digits, marked, spells⟩
  rw [Command.data, read]
  rfl

namespace Command

/-- The commands that only need a key, by name. -/
inductive Keyed : String → (String → Command) → Prop
  | sync : Keyed "sync" .sync
  | address : Keyed "address" (.query · .address)
  | nonce : Keyed "nonce" (.query · .nonce)
  | status : Keyed "status" (.query · .status)
  | remove : Keyed "remove" .remove

/-- The words of a line and the command that they spell, if identities are generated on the given
endpoint unless another is named. -/
inductive Spells (endpoint : String) : List String → Command → Prop
  | generate {key secret : String} {k : PrivateKey} (named : Text.IsWord key.toList)
    (written : k.IsWord secret) :
    Spells endpoint ["generate", key, secret]
      (.generate key
        { endpoint, privateKey := k, algorithm := .plain, sequenceNumber := 0 })
  | generateAt {key secret place : String} {k : PrivateKey} (named : Text.IsWord key.toList)
    (written : k.IsWord secret) (placed : Text.IsWord place.toList) :
    Spells endpoint ["generate", key, secret, place]
      (.generate key
        { endpoint := place, privateKey := k, algorithm := .plain, sequenceNumber := 0 })
  | generateFor {key secret place chain : String} {k : PrivateKey} {id : UInt64}
    (named : Text.IsWord key.toList) (written : k.IsWord secret)
    (placed : Text.IsWord place.toList) (numbered : IsNumber id chain) :
    Spells endpoint ["generate", key, secret, place, chain]
      (.generate key
        { endpoint := place, privateKey := k, algorithm := .chainBound id, sequenceNumber := 0 })
  | sign {key account amount : String} {a : Address} {n : UInt64} (named : Text.IsWord key.toList)
    (written : a.IsWord account) (numbered : IsNumber n amount) :
    Spells endpoint ["sign", key, account, amount]
      (.sign key { recipient := some a, value := n, gasLimit := 21000, data := [], chainId := none })
  | signWith {key account amount word : String} {a : Address} {n : UInt64} {data : Bytes}
    (named : Text.IsWord key.toList) (written : a.IsWord account) (numbered : IsNumber n amount)
    (spelled : data.IsWord word) :
    Spells endpoint ["sign", key, account, amount, word]
      (.sign key { recipient := some a, value := n, gasLimit := 21000, data, chainId := none })
  | keyed {name key : String} {make : String → Command} (known : Keyed name make)
    (named : Text.IsWord key.toList) : Spells endpoint [name, key] (make key)

variable {endpoint line : String} {ws : List String} {c : Command}

/-- The words of a command are words. -/
theorem Spells.isWord (h : Spells endpoint ws c) : ∀ w ∈ ws, Text.IsWord w.toList := by
  have name {w : String} (listed : w ∈ ["generate", "sign", "sync", "address", "nonce", "status",
      "remove"]) : Text.IsWord w.toList := by
    have all : ∀ w ∈ ["generate", "sign", "sync", "address", "nonce", "status", "remove"],
        w.toList ≠ [] ∧ w.toList.any Text.isBlank = false := by decide
    exact ⟨(all w listed).1, (all w listed).2⟩
  cases h with
  | generate named written =>
    simp only [List.forall_mem_cons]
    exact ⟨name (by decide), named, written.isWord, List.forall_mem_nil _⟩
  | generateAt named written placed =>
    simp only [List.forall_mem_cons]
    exact ⟨name (by decide), named, written.isWord, placed, List.forall_mem_nil _⟩
  | generateFor named written placed numbered =>
    simp only [List.forall_mem_cons]
    exact ⟨name (by decide), named, written.isWord, placed, numbered.isWord, List.forall_mem_nil _⟩
  | sign named written numbered =>
    simp only [List.forall_mem_cons]
    exact ⟨name (by decide), named, written.isWord, numbered.isWord, List.forall_mem_nil _⟩
  | signWith named written numbered spelled =>
    simp only [List.forall_mem_cons]
    exact ⟨name (by decide), named, written.isWord, numbered.isWord, spelled.isWord,
      List.forall_mem_nil _⟩
  | keyed known named =>
    simp only [List.forall_mem_cons]
    refine ⟨?_, named, List.forall_mem_nil _⟩
    cases known <;> exact name (by decide)

/-- The command that words spell is read from them. -/
theorem Spells.ofWords (h : Spells endpoint ws c) : Command.ofWords endpoint ws = .ok c := by
  cases h with
  | generate named written =>
    simp only [Command.ofWords, generateOf, written.ofText]
    rfl
  | generateAt named written placed =>
    simp only [Command.ofWords, generateOf, written.ofText]
    rfl
  | generateFor named written placed numbered =>
    simp only [Command.ofWords, generateOf, written.ofText, List.drop_succ_cons, List.drop_zero,
      algorithm, numbered.readUInt64]
    rfl
  | sign named written numbered =>
    simp only [Command.ofWords, signOf, (Address.reads_ofText.exact _ _).mpr written,
      numbered.readUInt64]
    rfl
  | signWith named written numbered spelled =>
    simp only [Command.ofWords, signOf, (Address.reads_ofText.exact _ _).mpr written,
      numbered.readUInt64, data_of_isWord spelled]
    rfl
  | keyed known named => cases known <;> rfl

/-- A line that sets out the words of a command, with any blanks between them and around them, is
read as this command. Every private key and every address has a word, with a mark and without one;
every byte string has a word, and every number has one in decimal. -/
theorem lines_read_back :
    (∀ endpoint ws c line, Spells endpoint ws c →
      Text.SetsOut (ws.map String.toList) line.toList → ofLine endpoint line = .ok c) ∧
    (∀ k : PrivateKey, k.IsWord (Hex.encode k.bytes) ∧ k.IsWord (Hex.encodeMarked k.bytes)) ∧
    (∀ a : Address, a.IsWord (Hex.encode a.bytes) ∧ a.IsWord a.text) ∧
    (∀ data : Bytes, data.IsWord (Hex.encodeMarked data)) ∧
    ∀ n : UInt64, IsNumber n (String.ofList (Text.decimal n.toNat)) := by
  refine ⟨fun endpoint ws c line spells out ↦ ?_, fun k ↦ ?_, fun a ↦ ?_, fun data ↦ ?_, fun n ↦ ?_⟩
  · have words : ∀ w ∈ ws.map String.toList, Text.IsWord w :=
      List.forall_mem_map.mpr spells.isWord
    rw [ofLine_of_madeOf (out.madeOf words), spells.ofWords]
  · exact ⟨⟨_, Hex.holds_encode k.length_eq, Hex.spells_digits _⟩,
      _, Hex.holds_encodeMarked k.length_eq, Hex.spells_digits _⟩
  · exact ⟨⟨_, Hex.holds_encode a.length_eq, Hex.spells_digits _⟩,
      _, Hex.holds_encodeMarked a.length_eq, Hex.spells_digits _⟩
  · exact ⟨Hex.digits data, String.toList_ofList, Hex.spells_digits data⟩
  · obtain ⟨digits, value⟩ := @Text.toDigits_spells 10 (by decide) (by decide) n.toNat
    exact ⟨[], _, String.toList_ofList, .inl rfl, Nat.toDigits_ne_nil, digits, value⟩

/-- A line with various blanks that names the greatest chain. -/
theorem lines_read_back_greatest :
    let k : PrivateKey := ⟨List.replicate 32 0x11, rfl⟩
    let words := ["generate", "treasury", Hex.encodeMarked k.bytes, "memory://main",
      String.ofList (Text.decimal (0xffffffffffffffff : UInt64).toNat)]
    let line := String.ofList
      (['\u2003'] ++ (words.map String.toList).flatMap fun w ↦ w ++ ['\t', '\u00a0'])
    ofLine "" line = .ok (.generate "treasury"
      { endpoint := "memory://main", privateKey := k
        algorithm := .chainBound 0xffffffffffffffff }) := by
  intro k words line
  obtain ⟨read, keys, -, -, numbers⟩ := lines_read_back
  have spells : Spells "" words _ := .generateFor ⟨by decide, by decide⟩ (keys k).2
    ⟨by decide, by decide⟩ (numbers 0xffffffffffffffff)
  refine read "" words _ line spells ?_
  rw [String.toList_ofList]
  exact .of_gap rfl rfl rfl

end Command

end Signatory
