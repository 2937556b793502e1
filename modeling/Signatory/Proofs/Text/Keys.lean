import Signatory.PrivateKey
import Signatory.Proofs.Text.Blank
import Signatory.Proofs.Text.Hexadecimal

/-!
# Which texts are private keys and addresses

Private keys and addresses are read from a fixed number of hexadecimal digits in either case, with
at most one mark in front. There may be blanks around a private key, but none around an address. The
digits are those of the bytes that are read, so two texts mean the same exactly if their digits are
the same up to case; and every other text is refused as no key, or as no address.
-/

namespace Signatory

namespace Hex

/-- A text holds so many digits behind at most one mark, and nothing else. -/
structure Holds (width : Nat) (s digits : List Char) : Prop where
  form : s = digits ∨ s = '0' :: 'x' :: digits
  length : digits.length = width
  digit : ∀ c ∈ digits, c ∈ Text.hexDigits

/-- Values with bytes are read from texts exactly as these write digits: a value has the bytes that
the digits spell, every text that writes digits is accepted, two such texts mean the same exactly if
their digits are the same up to case, and every other text is refused. -/
structure Reads {α : Type} (read : String → Except Failure α) (bytes : α → Bytes)
    (writes : String → List Char → Prop) (refusal : Failure → Prop) : Prop where
  exact : ∀ text a, read text = .ok a ↔ ∃ digits, writes text digits ∧ Spells digits (bytes a)
  accepts : ∀ text, (∃ a, read text = .ok a) ↔ ∃ digits, writes text digits
  alike : ∀ text other digits digits' a b, writes text digits → writes other digits' →
    read text = .ok a → read other = .ok b →
      (a = b ↔ digits.map Char.toLower = digits'.map Char.toLower)
  refuses : ∀ text, (¬ ∃ digits, writes text digits) → ∃ e, read text = .error e ∧ refusal e

variable {s digits digits' : List Char} {bs : Bytes} {n : Nat}

/-- A text holds one run of digits of a given length at most. -/
theorem Holds.unique (h : Holds n s digits) (also : Holds n s digits') : digits = digits' := by
  have same := h.length.trans also.length.symm
  rcases h.form with rfl | rfl <;> rcases also.form with form | form
  · exact form
  · rw [form, List.length_cons, List.length_cons] at same
    omega
  · rw [← form, List.length_cons, List.length_cons] at same
    omega
  · exact (List.cons.inj (List.cons.inj form).2).2

/-- The digits of byte strings of a given length are those that a text can hold. -/
theorem Holds.spells (h : Holds (2 * n) s digits) : ∃ bs, Spells digits bs ∧ bs.length = n := by
  have even : digits.length % 2 = 0 := by
    rw [h.length]
    omega
  obtain ⟨bs, spells⟩ := exists_spells_iff.mpr ⟨h.digit, even⟩
  have length := spells.length
  rw [h.length] at length
  exact ⟨bs, spells, by omega⟩

/-- A byte string of a given length is read from a text without its mark exactly if the text holds
its digits. -/
theorem decode_dropMark_iff_holds (width : bs.length = n) :
    decode (dropMark s) = .ok bs ↔ ∃ digits, Holds (2 * n) s digits ∧ Spells digits bs := by
  rw [decode_dropMark_ok_iff]
  constructor
  · rintro ⟨marks, digits, few, rfl, spells⟩
    have length : digits.length = 2 * n := spells.length.trans (by rw [width])
    refine ⟨digits, ⟨?_, length, spells.1⟩, spells⟩
    match marks, few with
    | 0, _ => exact .inl rfl
    | 1, _ => exact .inr rfl
  · rintro ⟨digits, ⟨rfl | rfl, -, -⟩, spells⟩
    · exact ⟨0, _, Nat.zero_le 1, rfl, spells⟩
    · exact ⟨1, digits, Nat.le_refl 1, rfl, spells⟩

/-- A text that holds digits has no blanks. -/
theorem Holds.solid (h : Holds n s digits) : s.any Text.isBlank = false := by
  have all : ('x' :: Text.hexDigits).all (!Text.isBlank ·) = true := by decide
  have none (c : Char) (inside : c ∈ 'x' :: Text.hexDigits) : ¬ Text.isBlank c = true := by
    simpa using List.all_eq_true.mp all c inside
  refine List.any_eq_false.mpr fun c inside ↦ none c ?_
  rcases h.form with rfl | rfl
  · exact List.mem_cons_of_mem _ (h.digit c inside)
  · rcases List.mem_cons.mp inside with rfl | inside
    · exact List.mem_cons_of_mem _ (by decide)
    · rcases List.mem_cons.mp inside with rfl | inside
      · exact List.mem_cons_self
      · exact List.mem_cons_of_mem _ (h.digit c inside)

section Reading

variable {α : Type} {read : String → Except Failure α} {bytes : α → Bytes}
  {writes : String → List Char → Prop} {refusal : Failure → Prop}

/-- Values are read exactly if they are told by their bytes and those are what the text writes. -/
theorem Reads.of_exact (inj : Function.Injective bytes)
    (exact : ∀ text a, read text = .ok a ↔ ∃ digits, writes text digits ∧ Spells digits (bytes a))
    (unique : ∀ {text digits digits'}, writes text digits → writes text digits' →
      digits = digits')
    (meant : ∀ {text digits}, writes text digits → ∃ a, Spells digits (bytes a))
    (refused : ∀ {text e}, read text = .error e → refusal e) : Reads read bytes writes refusal where
  exact := exact
  accepts := by
    intro text
    constructor
    · rintro ⟨a, found⟩
      obtain ⟨digits, written, -⟩ := (exact text a).mp found
      exact ⟨digits, written⟩
    · rintro ⟨digits, written⟩
      obtain ⟨a, spells⟩ := meant written
      exact ⟨a, (exact text a).mpr ⟨digits, written, spells⟩⟩
  alike := by
    intro text other digits digits' a b written written' found found'
    have lower {text digits a} (written : writes text digits) (found : read text = .ok a) :
        digits.map Char.toLower = Hex.digits (bytes a) := by
      obtain ⟨_, also, spells⟩ := (exact text a).mp found
      exact unique written also ▸ spells.2
    rw [lower written found, lower written' found']
    exact ⟨fun same ↦ same ▸ rfl, fun same ↦ inj (digits_inj same)⟩
  refuses := by
    intro text unwritten
    cases found : read text with
    | error e => exact ⟨e, rfl, refused found⟩
    | ok a =>
      obtain ⟨digits, written, -⟩ := (exact text a).mp found
      exact absurd ⟨digits, written⟩ unwritten

end Reading

end Hex

namespace PrivateKey

variable {text : String} {key : PrivateKey}

/-- A text writes the digits of a private key, perhaps between blanks. -/
def Writes (text : String) (digits : List Char) : Prop :=
  ∃ s, Text.Surrounds text.toList s ∧ Hex.Holds 64 s digits

/-- A private key is told by its bytes. -/
theorem bytes_injective : Function.Injective bytes := by
  rintro ⟨_, _⟩ ⟨_, _⟩ rfl
  rfl

/-- The bytes of a private key are what its text says without blanks and mark. -/
theorem ofText_ok_iff : ofText text = .ok key ↔
    Hex.decode (Hex.dropMark (Text.trim text.toList)) = .ok key.bytes := by
  unfold ofText
  cases decoded : Hex.decode (Hex.dropMark (Text.trim text.toList)) with
  | error fault => simp
  | ok bytes =>
    unfold ofBytes?
    by_cases width : bytes.length = Ed25519.keyLength
    · simp [width, ← bytes_injective.eq_iff]
    · simp only [dif_neg width, reduceCtorEq, Except.ok.injEq, false_iff]
      exact fun same ↦ width (same ▸ key.length_eq)

/-- A text that is no private key is refused as such. -/
theorem refusal_of_ofText {e : Failure} (refused : ofText text = .error e) :
    ∃ fault, e = .invalidKey fault := by
  unfold ofText at refused
  split at refused
  next fault _ => exact ⟨_, (Except.error.inj refused).symm⟩
  next =>
    split at refused
    next => exact absurd refused (by simp)
    next => exact ⟨_, (Except.error.inj refused).symm⟩

/-- What is left between the blanks around digits is what trimming leaves. -/
theorem trim_of_holds {s t digits : List Char} (around : Text.Surrounds t s)
    (holds : Hex.Holds 64 s digits) : Text.trim t = s :=
  Text.trim_eq_iff.mpr ⟨around, .of_solid holds.solid⟩

/-- Private keys are read exactly. -/
theorem reads_ofText : Hex.Reads ofText bytes Writes (∃ fault, · = .invalidKey fault) := by
  refine .of_exact bytes_injective (fun text key ↦ ?_) ?_ ?_ refusal_of_ofText
  · rw [ofText_ok_iff, Hex.decode_dropMark_iff_holds key.length_eq]
    constructor
    · rintro ⟨digits, holds, spells⟩
      exact ⟨digits, ⟨_, Text.surrounds_trim _, holds⟩, spells⟩
    · rintro ⟨digits, ⟨s, around, holds⟩, spells⟩
      rw [trim_of_holds around holds]
      exact ⟨digits, holds, spells⟩
  · rintro text digits digits' ⟨s, around, holds⟩ ⟨s', around', holds'⟩
    have same := (trim_of_holds around holds).symm.trans (trim_of_holds around' holds')
    exact holds.unique (same ▸ holds')
  · rintro text digits ⟨s, -, holds⟩
    obtain ⟨bs, spells, width⟩ := Hex.Holds.spells (n := 32) holds
    exact ⟨⟨bs, width⟩, spells⟩

end PrivateKey

namespace Address

variable {text : String} {a : Address}

/-- A text writes the digits of an address. -/
def Writes (text : String) (digits : List Char) : Prop :=
  Hex.Holds 40 text.toList digits

/-- An address is told by its bytes. -/
theorem bytes_injective : Function.Injective bytes := by
  rintro ⟨_, _⟩ ⟨_, _⟩ rfl
  rfl

/-- The bytes of an address are what its text says without the mark. -/
theorem ofText_ok_iff : ofText text = .ok a ↔
    Hex.decode (Hex.dropMark text.toList) = .ok a.bytes := by
  unfold ofText
  cases decoded : Hex.decode (Hex.dropMark text.toList) with
  | error fault => simp
  | ok bytes =>
    unfold ofBytes?
    by_cases width : bytes.length = 20
    · simp [width, ← bytes_injective.eq_iff]
    · simp only [dif_neg width, reduceCtorEq, Except.ok.injEq, false_iff]
      exact fun same ↦ width (same ▸ a.length_eq)

/-- A text that is no address is refused as such. -/
theorem refusal_of_ofText {e : Failure} (refused : ofText text = .error e) :
    ∃ fault, e = .config fault := by
  unfold ofText at refused
  split at refused
  next => exact ⟨_, (Except.error.inj refused).symm⟩
  next =>
    split at refused
    next => exact absurd refused (by simp)
    next => exact ⟨_, (Except.error.inj refused).symm⟩

/-- Addresses are read exactly. -/
theorem reads_ofText : Hex.Reads ofText bytes Writes (∃ fault, · = .config fault) := by
  refine .of_exact bytes_injective (fun text a ↦ ?_) (fun h ↦ h.unique) ?_
    refusal_of_ofText
  · rw [ofText_ok_iff, Hex.decode_dropMark_iff_holds a.length_eq]
    rfl
  · intro text digits holds
    obtain ⟨bs, spells, width⟩ := Hex.Holds.spells (n := 20) holds
    exact ⟨⟨bs, width⟩, spells⟩

end Address

/-- A text is read as a private key exactly if, between any blanks, it consists of 64 hexadecimal
digits in either case behind at most one mark; it is read as an address exactly if it consists of 40
such digits behind at most one mark, without any blanks. The bytes are those that the digits spell,
so two texts mean the same exactly if their digits are the same up to case, and an address is read
back from its own text. Whatever is not read is refused as no key, or as no address. -/
theorem keys_and_addresses_read :
    Hex.Reads PrivateKey.ofText PrivateKey.bytes PrivateKey.Writes (∃ fault, · = .invalidKey fault) ∧
      Hex.Reads Address.ofText Address.bytes Address.Writes (∃ fault, · = .config fault) ∧
      ∀ a : Address, Address.ofText a.text = .ok a :=
  ⟨PrivateKey.reads_ofText, Address.reads_ofText, Address.ofText_text⟩

/-- A key with blanks around it, and an address with blanks around it, which is none. -/
theorem keys_and_addresses_read_padded :
    let blanks (digits : List Char) := '\t' :: '0' :: 'x' :: digits ++ ['\u3000']
    PrivateKey.ofText (String.ofList (blanks (List.replicate 64 'B'))) =
        .ok ⟨List.replicate 32 0xbb, rfl⟩ ∧
      ∃ e, Address.ofText (String.ofList (blanks (List.replicate 40 'B'))) = .error e ∧
        ∃ fault, e = .config fault := by
  intro blanks
  obtain ⟨keys, addresses, -⟩ := keys_and_addresses_read
  have digit (n : Nat) : ∀ c ∈ List.replicate n 'B', c ∈ Text.hexDigits := fun c inside ↦
    List.eq_of_mem_replicate inside ▸ by decide
  refine ⟨(keys.exact _ _).mpr ⟨List.replicate 64 'B', ⟨'0' :: 'x' :: List.replicate 64 'B',
    ⟨['\t'], ['\u3000'], String.toList_ofList, rfl, rfl⟩, .inr rfl, rfl, digit 64⟩, digit 64, rfl⟩,
    addresses.refuses _ ?_⟩
  rintro ⟨digits, holds⟩
  exact absurd (holds.solid) (by rw [String.toList_ofList]; decide)

end Signatory
