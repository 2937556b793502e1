import Signatory.Proofs.Service.Answering
import Signatory.Proofs.Service.Sessions
import Signatory.Proofs.Transaction.Signature

/-!
# When a request to sign succeeds

An identity may sign a draft if it has a number left, if the draft has gas, not too much data and a
purpose, and if it names no chain but the one that the identity is bound to. Then the worker answers
the draft with the current number, signed by its own key; what it answers verifies if the key
attests the message. Otherwise the worker answers why it does not sign, and keeps its identity.
-/

namespace Signatory

namespace Identity

variable {i : Identity} {d : Draft} {signed : SignedTransaction} {next : Identity}

/-- What it takes for an identity to sign a draft. -/
structure MaySign (i : Identity) (d : Draft) : Prop where
  early : i.sequenceNumber.toNat < 2 ^ 64 - 1
  gas : 0 < d.gasLimit
  short : d.data.length ≤ 131072
  purpose : d.recipient.isSome ∨ d.data ≠ []
  chain : d.chainId = none ∨ ∃ n, d.chainId = some n ∧ i.algorithm = .chainBound n

/-- There is a number left if the current one is not the greatest. -/
theorem early_iff : i.sequenceNumber.toNat < 2 ^ 64 - 1 ↔ i.sequenceNumber ≠ lastNumber := by
  have bound := i.sequenceNumber.toNat_lt
  have last : lastNumber.toNat = 2 ^ 64 - 1 := rfl
  rw [ne_eq, ← UInt64.toNat_inj, last]
  omega

/-- What an identity signs, it may sign. -/
theorem MaySign.of_signNext (made : i.signNext d = .ok (signed, next)) : i.MaySign d := by
  obtain ⟨early, accepted, -⟩ := signNext_ok made
  obtain ⟨valid, chain, -⟩ := sign_ok accepted
  obtain ⟨gas, short, purpose⟩ := Transaction.validate_ok_iff.mp valid
  exact ⟨early_iff.mpr early, gas, short, purpose, Algorithm.checkChain_ok_iff.mp chain⟩

/-- An identity signs what it may, with its own key and the current number, and moves on to the
next. -/
theorem MaySign.signNext_eq (may : i.MaySign d) :
    i.signNext d =
      .ok (.make i.key i.address i.algorithm (d.withNonce i.sequenceNumber),
        { i with sequenceNumber := i.sequenceNumber + 1 }) := by
  have available : i.checkAvailable = .ok () := by
    rcases checkAvailable_eq i with ⟨available, -⟩ | ⟨-, last⟩
    · exact available
    · exact absurd last (early_iff.mp may.early)
  have valid : (d.withNonce i.sequenceNumber).validate = .ok () :=
    Transaction.validate_ok_iff.mpr ⟨may.gas, may.short, may.purpose⟩
  have chain : i.algorithm.checkChain (d.withNonce i.sequenceNumber).chainId = .ok () :=
    Algorithm.checkChain_ok_iff.mpr may.chain
  have made : i.sign (d.withNonce i.sequenceNumber) =
      .ok (.make i.key i.address i.algorithm (d.withNonce i.sequenceNumber)) := by
    rw [sign, valid]
    dsimp only
    rw [chain]
  rw [signNext, available]
  dsimp only
  rw [made]
  dsimp only
  rw [takeNumber, available]
  rfl

end Identity

namespace Service

/-- What a worker with an identity answers to a request to sign a draft, and how that leaves the
identity. The assumption on signatures is that the key attests the message. -/
structure Signs (i : Identity) (d : Draft) (r : Result) (identity : Option Identity) : Prop where
  succeeds : (∃ signed, r = .ok (.signed signed)) ↔ i.MaySign d
  content : ∀ signed, r = .ok (.signed signed) →
    signed.transaction = d.withNonce i.sequenceNumber ∧ signed.algorithm = i.algorithm ∧
      signed.signer = i.address ∧ signed.signer = Address.ofPublicKey signed.publicKey ∧
      signed.hash =
        Hex.encodeMarked (Hash.sha256 (signed.transaction.canonical ++ signed.signature)) ∧
      identity = some { i with sequenceNumber := i.sequenceNumber + 1 }
  verifies : ∀ signed, r = .ok (.signed signed) →
    i.key.Attests (i.algorithm.digest signed.transaction.canonical) → signed.verify = true
  refuses : ¬ i.MaySign d → (∃ fault, r = .error (.signing fault)) ∧ identity = some i

/-- A worker with an identity signs what the identity may sign, and nothing else. -/
theorem signs_handleSign (key : String) (i : Identity) (d : Draft) :
    Signs i d (handleSign key (some i) d).1 (handleSign key (some i) d).2 := by
  by_cases may : i.MaySign d
  · have made := may.signNext_eq
    have answer : handleSign key (some i) d =
        (.ok (.signed (.make i.key i.address i.algorithm (d.withNonce i.sequenceNumber))),
          some { i with sequenceNumber := i.sequenceNumber + 1 }) := by
      unfold handleSign
      dsimp only
      rw [made]
    rw [answer]
    refine ⟨iff_of_true ⟨_, rfl⟩ may, ?_, ?_, fun not ↦ absurd may not⟩
    · rintro signed ⟨⟩
      exact ⟨rfl, rfl, rfl, i.address_eq, rfl, rfl⟩
    · rintro signed ⟨⟩ attests
      rw [i.address_eq]
      exact SignedTransaction.verify_make attests
  · obtain ⟨fault, refused⟩ : ∃ fault, i.signNext d = .error (.signing fault) := by
      cases made : i.signNext d with
      | error e =>
        obtain ⟨fault, rfl⟩ := Identity.signNext_error made
        exact ⟨fault, rfl⟩
      | ok done => exact absurd (.of_signNext made) may
    have answer : handleSign key (some i) d = (.error (.signing fault), some i) := by
      unfold handleSign
      dsimp only
      rw [refused]
    rw [answer]
    refine ⟨iff_of_false (fun ⟨_, same⟩ ↦ by simp at same) may, ?_, ?_, fun _ ↦ ⟨⟨_, rfl⟩, rfl⟩⟩
    · exact fun _ same ↦ by simp at same
    · exact fun _ same ↦ by simp at same

namespace State

variable {s t : State} {w : WorkerId} {c : CallerId} {x : Caller} {e : Envelope} {i : Identity}
  {d : Draft} {r : Result}

/-- A worker that begins to work on a request to sign answers it at once. -/
theorem handle_sign (y : Worker) (request : e.request = .sign d) (w : WorkerId) :
    (s.handle w y e).history w =
        s.history w ++ [(e.caller, (handleSign y.key y.identity d).1)] ∧
      ∀ z, (s.handle w y e).workers.get? w = some z →
        z.identity = (handleSign y.key y.identity d).2 := by
  have goes : s.handle w y e =
      (s.log (.accepted e.caller w)).complete w e (handleSign y.key y.identity d) := by
    rw [handle, request]
  have effect := bare_complete (s := s.log (.accepted e.caller w)) (w := w) e
    (handleSign y.key y.identity d)
  rw [goes]
  generalize (s.log (.accepted e.caller w)).complete w e (handleSign y.key y.identity d) = t
    at effect
  constructor
  · change t.bare.history w = _
    rw [effect]
    exact history_answered.trans (congrArg _ (if_pos rfl))
  · intro z there
    have there : t.bare.workers.get? w = some z := there
    rw [effect] at there
    dsimp only at there
    obtain ⟨y', -, rfl⟩ := Table.of_update_self there
    rfl

/-- What a worker answers to a request to sign is what it does with the draft. -/
theorem Reachable.signs (h : s.Reachable) (taken : s.step = some t)
    (history : t.history w = s.history w ++ [(c, r)]) (asks : s.callers.get? c = some x)
    (request : x.request = .sign d) (known : s.identity? w = some i) :
    Signs i d r (t.identity? w) := by
  obtain ⟨y, found, identity⟩ := Option.bind_eq_some_iff.mp known
  obtain ⟨e, z, rfl, answered⟩ :=
    answered_of_step found (fun _ ↦ h.ordered.filed.matched found) taken history
  obtain ⟨x', known', same⟩ := asker_of_carried h.ordered.owned found answered.inside
  obtain rfl := Option.some.inj (asks.symm.trans known')
  have draft : e.request = .sign d := same.symm.trans request
  have after : t.identity? w = z.identity := by
    have here : t.workers.get? w = some z := answered.here
    rw [identity?, here, Option.bind_some]
  rw [after]
  have asked := h.numbered.asked
  -- Whoever connects or synchronises was not asked to sign.
  have neither {p : Prop} (other : ∀ d, e.request ≠ .sign d) : p := absurd draft (other d)
  have answers := answered.answers
  generalize done : (r, z.identity) = result at answers
  cases answers with
  | misrouted foreign => exact absurd (h.ordered.filed.matched found answered.inside) foreign
  | served serves =>
    rw [draft] at serves
    cases serves with
    | sign =>
      rw [identity] at done
      obtain ⟨rfl, same⟩ := Prod.mk.inj done
      rw [same]
      exact signs_handleSign y.key i d
  | finished finishes =>
    cases finishes with
    | refused connecting => exact neither fun _ ↦ by simp [(asked.connects found connecting).1]
    | connected connecting => exact neither fun _ ↦ by simp [(asked.connects found connecting).1]
    | unknown syncing => exact neither fun _ ↦ by simp [asked.syncs found syncing]
    | synced syncing => exact neither fun _ ↦ by simp [asked.syncs found syncing]

/-- A worker with an identity signs what the identity may sign, and nothing else. It answers every
request to sign as soon as it begins to work on it; and whatever happens in a service, whoever asks
for a signature is answered so. -/
theorem signs_what_it_may :
    (∀ (s : State) (w : WorkerId) (y : Worker) (e : Envelope) (i : Identity) (d : Draft),
      y.identity = some i → e.request = .sign d →
        ∃ r identity, (s.handle w y e).history w = s.history w ++ [(e.caller, r)] ∧
          (∀ z, (s.handle w y e).workers.get? w = some z → z.identity = identity) ∧
          Signs i d r identity) ∧
      ∀ (s t : State) (w : WorkerId) (c : CallerId) (x : Caller) (i : Identity) (d : Draft)
        (r : Result), s.Reachable → s.step = some t → t.history w = s.history w ++ [(c, r)] →
          s.callers.get? c = some x → x.request = .sign d → s.identity? w = some i →
            Signs i d r (t.identity? w) := by
  refine ⟨fun s w y e i d known request ↦ ?_, fun s t w c x i d r h taken history asks request ↦
    h.signs taken history asks request⟩
  obtain ⟨history, identity⟩ := handle_sign (s := s) y request w
  rw [known] at history identity
  exact ⟨_, _, history, identity, signs_handleSign y.key i d⟩

/-- Requests for an identity and for a payment. -/
def trialPayment : List Request :=
  [trialGenerate "main", .sign Draft.trifle]

/-- A worker whose identity has come to the number five signs a payment, and the payment verifies;
where a payment is called for after an identity, it is answered with the first number. -/
theorem signs_what_it_may_trifle :
    let i := Identity.make ⟨List.replicate Ed25519.keyLength 2, rfl⟩ .plain (.memory "main")
      "memory://main" 5
    let y : Worker := { key := "treasury", identity := some i, mailbox := { capacity := 1 },
                        idle := ⟨600, 0⟩ }
    (∃ signed, ((start {} Ledger.Connector.direct).handle 0 y
        ⟨"treasury", .sign Draft.trifle, 0⟩).history 0 = [(0, .ok (.signed signed))] ∧
      signed.transaction = Draft.trifle.withNonce 5 ∧ signed.verify = true) ∧
    ∃ i r, i.sequenceNumber = 0 ∧
      (trialCalls 12 trialPayment).history 0 = (trialCalls 11 trialPayment).history 0 ++ [(1, r)] ∧
      Signs i Draft.trifle r ((trialCalls 12 trialPayment).identity? 0) := by
  intro i y
  constructor
  · obtain ⟨r, identity, history, -, signs⟩ :=
      signs_what_it_may.1 (start {} Ledger.Connector.direct) 0 y ⟨"treasury", .sign Draft.trifle, 0⟩
        i Draft.trifle rfl rfl
    have may : i.MaySign Draft.trifle := ⟨by decide, by decide, by decide, .inl rfl, .inl rfl⟩
    obtain ⟨signed, rfl⟩ := signs.succeeds.mpr may
    have content := (signs.content signed rfl).1
    refine ⟨signed, history, content, signs.verifies signed rfl ?_⟩
    rw [content]
    exact SigningKey.uniform_attests
  · have reachable : (trialCalls 11 trialPayment).Reachable := ⟨_, _, run_trialCalls _ _⟩
    refine ⟨_, _, ?_, rfl, signs_what_it_may.2 _ _ 0 1 _ _ _ _ reachable rfl rfl rfl rfl rfl⟩
    rfl

end State

end Service

end Signatory
