import Signatory.Proofs.Service.Parts
import Signatory.Proofs.Service.Views

/-!
# Erasing the deeds for a key

What is left of a run when the deeds for the keys on one side are kept and those for the others are
erased is an extract of what the whole run comes to, as long as no ledger is used by identities of
keys on both sides. So two runs that do the same for the keys on one side give those keys the same
answers at the same times, whatever they do for the others.
-/

namespace Signatory.Service

namespace State

variable {policy : Policy} {connector : Ledger.Connector} {s t r : State} {φ : Renaming}
  {side : String → Bool} {own : String → Prop} {d : Deed} {ds es : List Deed} {key name : String}

/-- The deeds that are done for the keys on one side or for no key. -/
def only (side : String → Bool) (ds : List Deed) : List Deed :=
  ds.filter (·.key?.all side)

/-- The ledgers that identities are on at any time, with the keys of their workers. -/
def lodgingsIn (policy : Policy) (connector : Ledger.Connector) (ds : List Deed) :
    List (String × Ledger.Place) :=
  ds.inits.flatMap fun es ↦ (play policy connector es).lodgings

/-- No ledger is ever used by identities of keys on both sides. -/
def Parted (policy : Policy) (connector : Ledger.Connector) (side : String → Bool)
    (ds : List Deed) : Prop :=
  ∀ a ∈ lodgingsIn policy connector ds, ∀ b ∈ lodgingsIn policy connector ds,
    side a.1 = true → side b.1 = false → a.2 ≠ b.2

instance : DecidablePred (Parted policy connector side) :=
  fun _ ↦ List.decidableBAll _ _

/-- A worker or a caller that comes about has a key that something is done for. -/
theorem Reachable.key_of_next (h : s.Reachable) (inside : d.key?.all side = true) :
    (∀ y, (s.perform d).workers.get? s.workers.size = some y → side y.key = true) ∧
      ∀ x, (s.perform d).callers.get? s.callers.size = some x → side x.key = true := by
  have beyond {α : Type} {table : Table α} {a : α} : table.get? table.size ≠ some a :=
    fun there ↦ Nat.lt_irrefl _ (Table.lt_size there)
  cases concerns : d.key? with
  | none =>
    have same : (s.perform d).workers = s.workers ∧ (s.perform d).callers = s.callers := by
      cases d with
      | ledger name use => exact ⟨rfl, rfl⟩
      | clock time => exact ⟨rfl, rfl⟩
      | _ => exact absurd concerns (by simp [Deed.key?])
    rw [same.1, same.2]
    exact ⟨fun y there ↦ absurd there beyond, fun x there ↦ absurd there beyond⟩
  | some key =>
    rw [concerns, Option.all_some] at inside
    have apart := h.undisturbed_perform concerns
    refine ⟨fun y there ↦ ?_, fun x there ↦ ?_⟩
    · by_cases own : y.key = key
      · exact own ▸ inside
      · exact absurd ((apart.workers _ y own).mp there) beyond
    · by_cases own : x.key = key
      · exact own ▸ inside
      · exact absurd ((apart.callers _ x own).mp there) beyond

namespace Extract

/-- Nothing is left of a service that nobody has used. -/
theorem start (side : String → Bool) (own : String → Prop) (policy : Policy)
    (connector : Ledger.Connector) (workers : Function.Injective φ.worker)
    (callers : Function.Injective φ.caller) :
    Extract φ side own (State.start policy connector) (State.start policy connector) where
  policy := rfl
  connector := rfl
  now := rfl
  shut := rfl
  find? := fun _ ↦ rfl
  workers := .empty workers
  callers := .empty callers
  ledgers := fun _ ↦ rfl

/-- What is done for a key on the other side leaves the extract as it is. -/
theorem leave_off (h : Extract φ side own s r) (apart : Undisturbed key s t)
    (outside : side key = false) (uses : ∀ {name}, own name → (key, .memory name) ∉ s.lodgings)
    (later : s.Later t)
    (workers : ∀ i y, t.workers.get? (φ.worker i) = some y → side y.key = true)
    (callers : ∀ i x, t.callers.get? (φ.caller i) = some x → side x.key = true) :
    Extract φ side own t r := by
  have other {k : String} (inside : side k = true) : k ≠ key := by
    rintro rfl
    exact absurd (inside.symm.trans outside) (by simp)
  exact {
    policy := apart.policy.trans h.policy
    connector := apart.connector.trans h.connector
    now := apart.now.trans h.now
    shut := apart.shut.trans h.shut
    find? := fun inside ↦ (apart.find? (other inside)).trans (h.find? inside)
    workers := h.workers.leave Worker.Like.key later.workers.size_le
      (fun i y inside ↦ apart.workers i y (other inside)) workers
    callers := h.callers.leave Caller.Like.key later.callers.size_le
      (fun i x inside ↦ apart.callers i x (other inside)) callers
    ledgers := fun inside ↦ (apart.ledgers (uses inside)).trans (h.ledgers inside) }

/-- If workers and callers are numbered as those on this side are at the end, and those that come
next are on this side, they have the numbers that they stand for. -/
theorem numbered (h : Extract (u.numbering side) side own s r) (since : s.Later t)
    (later : t.Later u)
    (workers : ∀ y, t.workers.get? s.workers.size = some y → side y.key = true)
    (callers : ∀ x, t.callers.get? s.callers.size = some x → side x.key = true) :
    Numbered (u.numbering side) r s t where
  worker := by
    intro grows
    obtain ⟨y, there⟩ := Option.isSome_iff_exists.mp (Table.get?_isSome.mpr grows)
    obtain ⟨z, last, same⟩ := later.workers _ y there
    refine h.workers.next (fun i a found ↦ ?_) last (same.key ▸ workers y there)
    exact ((since.trans later).workers i a found).imp fun _ ↦ .imp_right (·.key)
  caller := by
    intro grows
    obtain ⟨x, there⟩ := Option.isSome_iff_exists.mp (Table.get?_isSome.mpr grows)
    obtain ⟨z, last, same⟩ := later.callers _ x there
    refine h.callers.next (fun i a found ↦ ?_) last (same.key ▸ callers x there)
    exact ((since.trans later).callers i a found).imp fun _ ↦ .imp_right (·.key)

end Extract

/-- Whoever has a number of those on this side has a key on this side. -/
theorem Later.key_of_numbering (later : s.Later t) (side : String → Bool) :
    (∀ i y, s.workers.get? ((t.numbering side).worker i) = some y → side y.key = true) ∧
      ∀ i x, s.callers.get? ((t.numbering side).caller i) = some x → side x.key = true := by
  refine ⟨fun i y there ↦ ?_, fun i x there ↦ ?_⟩
  · obtain ⟨z, last, since⟩ := later.workers _ y there
    have inside := Table.of_place last
    exact since.key ▸ inside
  · obtain ⟨z, last, since⟩ := later.callers _ x there
    have inside := Table.of_place last
    exact since.key ▸ inside

theorem only_concat_inside (inside : d.key?.all side = true) :
    only side (es ++ [d]) = only side es ++ [d] := by
  unfold only
  rw [List.filter_append, List.filter_singleton, inside]
  rfl

theorem only_concat_outside (outside : d.key?.all side = false) :
    only side (es ++ [d]) = only side es := by
  unfold only
  rw [List.filter_append, List.filter_singleton, outside]
  exact List.append_nil _

/-- What is left of a run when the deeds for the keys on the other side are erased is an extract of
what the run comes to. -/
theorem extract_play (parted : Parted policy connector side ds) (part : es <+: ds) :
    Extract ((play policy connector ds).numbering side) side
      (fun name ↦ ∃ k, side k = true ∧ (k, .memory name) ∈ lodgingsIn policy connector ds)
      (play policy connector es) (play policy connector (only side es)) := by
  induction es using List.reverseRecOn with
  | nil => exact .start _ _ _ _ (Table.place_injective _ _) (Table.place_injective _ _)
  | append_singleton es d ih =>
    have before : es <+: ds := (List.prefix_append es [d]).trans part
    have h := ih before
    have reached : (play policy connector es).Reachable := reachable_play es
    have later : (play policy connector (es ++ [d])).Later (play policy connector ds) :=
      later_play part
    have since : (play policy connector es).Later (play policy connector (es ++ [d])) :=
      later_play (List.prefix_append es [d])
    have lodges {k name : String}
        (here : (k, .memory name) ∈ (play policy connector es).lodgings) :
        (k, .memory name) ∈ lodgingsIn policy connector ds :=
      List.mem_flatMap.mpr ⟨es, (List.mem_inits es ds).mpr before, here⟩
    have done : play policy connector (es ++ [d]) = (play policy connector es).perform d := by
      rw [play_append]
      rfl
    rw [done] at since later ⊢
    cases inside : d.key?.all side with
    | true =>
      rw [only_concat_inside inside, play_append]
      have news := reached.key_of_next inside
      refine h.perform d (fun key concerns ↦ ?_) (fun w y i name found known place ↦ ?_)
        (h.numbered since later news.1 news.2)
      · rw [concerns, Option.all_some] at inside
        exact inside
      · obtain ⟨z, there, like, inside⟩ := h.workers.found found
        exact ⟨y.key, inside, lodges (mem_lodgings.mpr
          ⟨_, z, i, there, like.identity.trans known, like.key, place⟩)⟩
    | false =>
      rw [only_concat_outside inside]
      obtain ⟨k, concerns, outside⟩ : ∃ k, d.key? = some k ∧ side k = false := by
        cases concerns : d.key? with
        | none => exact absurd inside (by simp [concerns])
        | some k => exact ⟨k, rfl, by rwa [concerns] at inside⟩
      obtain ⟨workers, callers⟩ := later.key_of_numbering side
      refine h.leave_off (reached.undisturbed_perform concerns) outside (fun own here ↦ ?_) since
        workers callers
      -- A key on each side would lodge at the ledger.
      obtain ⟨l, inside, there⟩ := own
      exact parted _ there _ (lodges here) inside outside rfl

/-- What is done for the keys on one side is told by the part of the state that belongs to them. -/
theorem Reachable.extract_perform (h : s.Reachable)
    (inside : ∀ key, d.key? = some key → side key = true) :
    Extract (s.numbering side) side (s.lodges side · = true) (s.perform d)
      ((s.part side).perform d) := by
  have part := h.extract_part side
  refine part.perform d inside (fun w y i name found known place ↦ ?_)
    ⟨fun _ ↦ ?_, fun _ ↦ ?_⟩
  · obtain ⟨z, there, like, own⟩ := part.workers.found found
    refine List.any_eq_true.mpr ⟨(z.key, i.ledger), mem_lodgings.mpr
      ⟨_, z, i, there, like.identity.trans known, rfl, rfl⟩, ?_⟩
    rw [like.key, own, place]
    exact decide_eq_true rfl
  · exact (congrArg _ (Table.size_select ..)).trans (Table.place_length ..)
  · exact (congrArg _ (Table.size_select ..)).trans (Table.place_length ..)

section Telling

/-- A worker that is there is one of those of its key. -/
theorem exists_workersOf {w : WorkerId} {y : Worker} (found : s.workers.get? w = some y) :
    ∃ n : Nat, (s.workersOf y.key)[n]? = some w :=
  List.mem_iff_getElem?.mp (Table.mem_numbers.mpr ⟨y, found, decide_eq_true rfl⟩)

/-- A caller that is there is one of those of its key. -/
theorem exists_callersOf {c : CallerId} {x : Caller} (known : s.callers.get? c = some x) :
    ∃ n : Nat, (s.callersOf x.key)[n]? = some c :=
  List.mem_iff_getElem?.mp (Table.mem_numbers.mpr ⟨x, known, decide_eq_true rfl⟩)

/-- Whoever has a turn, there is a deed for it, if it is there. -/
theorem turn_told (s : State) (τ : Task) :
    ∃ ds : List Deed, (ds.foldl perform s).bare = (s.turn τ).bare := by
  cases τ with
  | worker w =>
    cases found : s.workers.get? w with
    | none =>
      refine ⟨[], ?_⟩
      rw [turn_worker, stepWorker, found]
      rfl
    | some y =>
      obtain ⟨n, listed⟩ := exists_workersOf found
      refine ⟨[.worker y.key n], ?_⟩
      rw [List.foldl_cons, List.foldl_nil, perform, listed]
  | caller c =>
    cases known : s.callers.get? c with
    | none =>
      refine ⟨[], ?_⟩
      rw [turn_caller, stepCaller, known]
      rfl
    | some x =>
      obtain ⟨n, listed⟩ := exists_callersOf known
      refine ⟨[.caller x.key n], ?_⟩
      rw [List.foldl_cons, List.foldl_nil, perform, listed]

/-- Whoever is dropped, there is a deed for it, if it is there. -/
theorem drop_told (s : State) (c : CallerId) :
    ∃ ds : List Deed, (ds.foldl perform s).bare = (s.dropCaller c).bare := by
  cases known : s.callers.get? c with
  | none =>
    refine ⟨[], ?_⟩
    unfold State.dropCaller
    split
    next => rfl
    next =>
      rw [bare_wake, bare_updateCaller, Table.update_self fun x there ↦ ?_]
      · rfl
      · exact absurd (known.symm.trans there) (by simp)
  | some x =>
    obtain ⟨n, listed⟩ := exists_callersOf known
    refine ⟨[.drop x.key n], ?_⟩
    rw [List.foldl_cons, List.foldl_nil, perform, listed]

theorem shut_shutdown (s : State) : s.shutdown.isShutDown = true := by
  unfold State.shutdown
  split
  next shut => exact shut
  next =>
    obtain ⟨workers, same, -⟩ := bare_cancelAll (List.range s.workers.size)
      ({ s with isShutDown := true }.log .shutDown)
    exact (congrArg State.isShutDown same :)

/-- Every run of a service that is not shut down is told by deeds. -/
theorem Run.told (run : Run (start policy connector) s) (serving : s.isShutDown = false) :
    ∃ ds, Extract .same (fun _ ↦ true) (fun _ ↦ True) s (play policy connector ds) := by
  induction run with
  | refl => exact ⟨[], .start _ _ _ _ Function.injective_id Function.injective_id⟩
  | @tail s t _ next ih =>
    obtain ⟨ds, h⟩ := ih ((Run.later (.single next)).serving serving)
    have more {u : State} (es : List Deed) (i : Extract .same (fun _ ↦ true) (fun _ ↦ True) t u)
        (same : (es.foldl perform (play policy connector ds)).bare = u.bare) :
        ∃ ds, Extract .same (fun _ ↦ true) (fun _ ↦ True) t (play policy connector ds) := by
      refine ⟨ds ++ es, ?_⟩
      rw [play_append]
      exact i.congr rfl same
    cases next with
    | step taken =>
      cases running : s.running with
      | none =>
        rcases step_changes taken with ⟨τ, running', -⟩ | same
        · exact absurd (running.symm.trans running') (by simp)
        · exact ⟨ds, h.congr same rfl⟩
      | some τ =>
        obtain ⟨es, same⟩ := turn_told (play policy connector ds) τ
        refine more es ?_ same
        have called : Extract .same (fun _ ↦ true) (fun _ ↦ True) s
            { play policy connector ds with running := some τ } := { h with }
        unfold State.step at taken
        rw [running] at taken
        cases τ with
        | worker w =>
          obtain rfl := Option.some.inj taken
          exact called.stepWorker w fun _ _ _ _ _ _ ↦ trivial
        | caller c =>
          obtain rfl := Option.some.inj taken
          exact called.stepCaller c fun _ ↦ h.workers.size_eq.symm
    | dispatch key request =>
      exact more [.call key request] (h.addCaller rfl request h.callers.size_eq.symm) rfl
    | drop c =>
      obtain ⟨es, same⟩ := drop_told (play policy connector ds) c
      exact more es (h.dropCaller c) same
    | remove key => exact more [.remove key] (h.remove rfl) rfl
    | shutdown => exact absurd ((shut_shutdown s).symm.trans serving) (by simp)
    | ledger name l => exact more [.ledger name fun _ ↦ l] (h.setLedger name fun _ ↦ rfl) rfl
    | @wait time later =>
      have reads : time = max (play policy connector ds).now time :=
        (Nat.max_eq_right (h.now ▸ later)).symm
      have waited : Extract .same (fun _ ↦ true) (fun _ ↦ True) { s with now := time }
          ((play policy connector ds).perform (.clock time)) := { h with now := reads }
      exact more [.clock time] waited rfl
    | schedule same => exact ⟨ds, h.congr same rfl⟩

end Telling

section Independence

/-- What is seen of a key does not change when the deeds for the keys on the other side are
erased. -/
theorem view_only (parted : Parted policy connector side ds) (inside : side key = true) :
    (play policy connector ds).view key = (play policy connector (only side ds)).view key :=
  (extract_play parted List.prefix_rfl).view inside

/-- Erasing the deeds for a key on the other side leaves those on this side. -/
theorem only_erase (outside : side key = false) : only side (erase key ds) = only side ds := by
  unfold only erase
  rw [List.filter_filter]
  refine List.filter_congr fun d _ ↦ ?_
  by_cases concerns : d.key? = some key
  · simp [concerns, outside]
  · simp [concerns]

/-- How calls have ended is part of what is seen. -/
theorem results_eq (s : State) (key : String) :
    s.results key = (s.view key).calls.map (·.ending) := by
  unfold view results
  rw [List.map_map]
  rfl

end Independence

/-- The keys of a service do not depend on each other, but through ledgers. -/
structure Isolation (policy : Policy) (connector : Ledger.Connector) : Prop where
  /-- Every run of a service that is not shut down is told by deeds. -/
  told : ∀ {s}, Run (start policy connector) s → s.isShutDown = false →
    ∃ ds, ∀ key, (play policy connector ds).view key = s.view key
  /-- What is done for a key disturbs no other. -/
  undisturbed : ∀ {s t key}, Run (start policy connector) s → DoneFor key s t → Undisturbed key s t
  /-- What is done for keys on one side is told by the part of the state that belongs to them. -/
  separate : ∀ {s side d key}, Run (start policy connector) s →
    (∀ key, d.key? = some key → side key = true) → side key = true →
    ((s.part side).perform d).view key = (s.perform d).view key
  /-- What is seen of a key is the same in all runs in which the same is done for the keys on its
  side, if no ledger is used by identities of keys on both sides. -/
  independent : ∀ {side ds es key}, Parted policy connector side ds →
    Parted policy connector side es → only side ds = only side es → side key = true →
    (play policy connector ds).view key = (play policy connector es).view key
  /-- Erasing all that is done for a key on the other side changes no answer. -/
  erased : ∀ {side ds key other}, side key = true → side other = false →
    Parted policy connector side ds → Parted policy connector side (erase other ds) →
    (play policy connector (erase other ds)).results key = (play policy connector ds).results key

/-- The keys of every service do not depend on each other, but through ledgers. -/
theorem isolated (policy : Policy) (connector : Ledger.Connector) : Isolation policy connector := by
  have independent {side : String → Bool} {ds es : List Deed} {key : String}
      (parted : Parted policy connector side ds) (parted' : Parted policy connector side es)
      (same : only side ds = only side es) (inside : side key = true) :
      (play policy connector ds).view key = (play policy connector es).view key :=
    (view_only parted inside).trans (same ▸ (view_only parted' inside).symm)
  refine ⟨fun run serving ↦ ?_, fun run done ↦ ?_, fun run own inside ↦ ?_, independent,
    fun inside outside parted parted' ↦ ?_⟩
  · obtain ⟨ds, h⟩ := run.told serving
    exact ⟨ds, fun key ↦ (h.view rfl).symm⟩
  · exact Reachable.undisturbed ⟨policy, connector, run⟩ done
  · exact ((Reachable.extract_perform ⟨policy, connector, run⟩ own).view inside).symm
  · rw [results_eq, results_eq, independent parted' parted (only_erase outside) inside]

/-- A connector for trials: every endpoint is the name of a ledger in memory. -/
def plainConnector : Ledger.Connector := fun endpoint ↦ ⟨0, .place (.memory endpoint)⟩

/-- A policy for trials: a lookup that fails is made once more, 100 milliseconds later. -/
def patientPolicy : Policy := { sync := { maxAttempts := 2, backoff := 100 } }

/-- A call for a key up to where its request is in a mailbox, when `n` calls for the key have been
made before. -/
def trialCall (key : String) (n : Nat) (request : Request) : List Deed :=
  [.call key request, .caller key n, .caller key n]

/-- Turns of the first worker of a key. -/
def trialWork (key : String) (turns : Nat) : List Deed :=
  List.replicate turns (.worker key 0)

/-- The payroll is the first to look up its nonce on the second ledger, where one lookup fails. The
treasury looks up its own there, moves to the first ledger and looks it up again, while the savings
are there and wait to look up theirs once more. -/
def bridged : List Deed :=
  [.ledger "first" (·.failNext 2 (.transport "down")),
    .ledger "second" (·.failNext 1 (.transport "down"))] ++
  trialCall "savings" 0 (trialGenerate "first") ++ trialWork "savings" 2 ++
  trialCall "payroll" 0 (trialGenerate "second") ++ trialWork "payroll" 2 ++
  trialCall "treasury" 0 (trialGenerate "second") ++ trialWork "treasury" 2 ++
  trialCall "payroll" 1 .syncNonce ++ trialWork "payroll" 2 ++
  trialCall "savings" 1 .syncNonce ++ trialWork "savings" 2 ++
  trialCall "treasury" 1 .syncNonce ++ trialCall "treasury" 2 (trialGenerate "first") ++
  trialCall "treasury" 3 .syncNonce ++ trialWork "treasury" 6 ++
  [.clock 100, .worker "savings" 0, .caller "savings" 1]

/-- Without the treasury, the savings get the same answers with the payroll and without it. -/
theorem isolated_savings :
    Parted patientPolicy plainConnector (· == "savings") (erase "treasury" bridged) ∧
      Parted patientPolicy plainConnector (· == "savings")
        (erase "payroll" (erase "treasury" bridged)) ∧
      (play patientPolicy plainConnector (erase "payroll" (erase "treasury" bridged))).results
          "savings" =
        (play patientPolicy plainConnector (erase "treasury" bridged)).results "savings" := by
  have parted : Parted patientPolicy plainConnector (· == "savings")
      (erase "treasury" bridged) := by
    decide +kernel
  have parted' : Parted patientPolicy plainConnector (· == "savings")
      (erase "payroll" (erase "treasury" bridged)) := by
    decide +kernel
  exact ⟨parted, parted',
    (isolated patientPolicy plainConnector).erased (by decide) (by decide) parted parted'⟩

/-- The savings are on the first ledger only, the payroll is on the second only. -/
theorem lodgingsIn_bridged : ∀ a ∈ lodgingsIn patientPolicy plainConnector bridged,
    a ∈ [("savings", Ledger.Place.memory "first"), ("payroll", .memory "second"),
      ("treasury", .memory "second"), ("treasury", .memory "first")] := by
  decide +kernel

set_option maxRecDepth 100000 in
/-- The treasury's lookup has met the second failure of the first ledger, so the savings' second
attempt succeeds. -/
theorem results_bridged :
    ((play patientPolicy plainConnector bridged).results "savings")[1]? =
      some (some (.result (.ok (.synced (.unchanged 0 0))))) := by
  rfl

set_option maxRecDepth 100000 in
/-- Without the payroll, the treasury's first lookup meets the failure of the second ledger, so it
waits, and the savings meet both failures of the first. -/
theorem results_erase_bridged :
    ((play patientPolicy plainConnector (erase "payroll" bridged)).results "savings")[1]? =
      some (some (.result (.error (.syncFailed 2 (.transport "down"))))) := by
  rfl

/-- Two keys whose identities are never on the same ledger may yet depend on each other, through a
third key with identities on the ledgers of both. -/
theorem erase_bridged :
    (∀ a ∈ lodgingsIn patientPolicy plainConnector bridged,
      ∀ b ∈ lodgingsIn patientPolicy plainConnector bridged,
        a.1 = "savings" → b.1 = "payroll" → a.2 ≠ b.2) ∧
      (play patientPolicy plainConnector (erase "payroll" bridged)).results "savings" ≠
        (play patientPolicy plainConnector bridged).results "savings" := by
  refine ⟨fun a lodged b lodged' savings payroll ↦ ?_, fun same ↦ ?_⟩
  · have few := lodgingsIn_bridged a lodged
    have few' := lodgingsIn_bridged b lodged'
    obtain ⟨_, _⟩ := a
    obtain ⟨_, _⟩ := b
    simp_all
  · have differ := results_erase_bridged
    rw [same, results_bridged] at differ
    exact absurd differ (by simp)

end State

end Signatory.Service
