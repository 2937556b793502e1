import Signatory.Proofs.Service.Isolation
import Signatory.Proofs.Service.Routing

/-!
# Parts

The part of a state that belongs to the keys on one side: what the directory names for them, and
their workers and callers, numbered anew. Nobody on one side refers to anybody on the other, so the
part of a state that can come about is an extract of it.
-/

namespace Signatory.Service

namespace Table

variable {α : Type} {p : α → Bool} {t : Table α} {i : Nat} {a : α} {f : α → α}

/-- The entries with a property, each of them changed, in order. -/
def select (t : Table α) (p : α → Bool) (f : α → α) : Table α :=
  ⟨((t.numbers p).filterMap fun i ↦ (t.get? i).map f).toArray⟩

/-- If something is found for everything in a list, the places stay the same. -/
theorem getElem?_filterMap_of_all {β γ : Type} {l : List β} {g : β → Option γ}
    (all : ∀ b ∈ l, (g b).isSome = true) (i : Nat) : (l.filterMap g)[i]? = l[i]?.bind g := by
  induction l generalizing i with
  | nil => rfl
  | cons b l ih =>
    obtain ⟨c, found⟩ := Option.isSome_iff_exists.mp (all b List.mem_cons_self)
    rw [List.filterMap_cons_some found]
    cases i with
    | zero => exact found.symm
    | succ i => exact ih (fun b inside ↦ all b (List.mem_cons_of_mem _ inside)) i

/-- There is an entry for each of the numbers of entries with a property. -/
theorem isSome_of_mem_numbers (listed : i ∈ t.numbers p) : ((t.get? i).map f).isSome = true := by
  obtain ⟨a, there, -⟩ := mem_numbers.mp listed
  rw [there]
  rfl

/-- What is selected is found in its place. -/
theorem get?_select (t : Table α) (p : α → Bool) (f : α → α) (i : Nat) :
    (t.select p f).get? i = (t.numbers p)[i]?.bind fun j ↦ (t.get? j).map f := by
  rw [select, get?, List.getElem?_toArray]
  exact getElem?_filterMap_of_all (fun _ ↦ isSome_of_mem_numbers) i

/-- As many entries are selected as have the property. -/
theorem size_select (t : Table α) (p : α → Bool) (f : α → α) :
    (t.select p f).size = (t.numbers p).length :=
  List.filterMap_length_eq_length.mpr fun _ ↦ isSome_of_mem_numbers

/-- The entries with a property are where their places are. -/
theorem numbers_eq_places (t : Table α) (p : α → Bool) :
    t.numbers p = (List.range (t.numbers p).length).map (t.place p) := by
  refine List.ext_getElem? fun i ↦ ?_
  rw [List.getElem?_map]
  by_cases inside : i < (t.numbers p).length
  · rw [List.getElem?_range inside, Option.map_some, place, List.getElem?_eq_getElem inside]
    rfl
  · rw [List.getElem?_eq_none (Nat.le_of_not_lt inside),
      List.getElem?_eq_none (by simpa using Nat.le_of_not_lt inside)]
    rfl

variable {like : α → α → Prop} {key : α → String} {side : String → Bool}

/-- What is selected is picked. -/
theorem Picks.select (t : Table α)
    (same : ∀ {i a}, t.get? i = some a → side (key a) = true → like (f a) a ∧ key (f a) = key a) :
    Picks (t.place (side <| key ·)) like key side t (t.select (side <| key ·) f) where
  injective := place_injective _ _
  found := by
    intro i a here
    rw [get?_select] at here
    obtain ⟨j, listed, here⟩ := Option.bind_eq_some_iff.mp here
    obtain ⟨b, there, rfl⟩ := Option.map_eq_some_iff.mp here
    obtain ⟨c, there', inside⟩ := mem_numbers.mp (List.mem_of_getElem? listed)
    obtain rfl := Option.some.inj (there.symm.trans there')
    obtain ⟨alike, kept⟩ := same there inside
    refine ⟨b, ?_, alike, kept ▸ inside⟩
    rw [place, listed, Option.getD_some, there]
  missing := by
    intro i here
    rw [get?_select] at here
    cases listed : (t.numbers (side <| key ·))[i]? with
    | none =>
      rw [place, listed, Option.getD_none]
      exact get?_beyond t _
    | some j =>
      obtain ⟨a, there, -⟩ := mem_numbers.mp (List.mem_of_getElem? listed)
      rw [listed, Option.bind_some, there] at here
      exact absurd here (by simp)
  numbers := by
    rw [size_select]
    exact numbers_eq_places _ _

end Table

/-- An activity with the caller of the envelope in hand renamed. -/
def Activity.rename (φ : Renaming) : Activity → Activity
  | .connecting e c outcome alarm => .connecting (e.rename φ) c outcome alarm
  | .syncing e attempt alarm => .syncing (e.rename φ) attempt alarm
  | activity => activity

/-- A worker with the callers it deals with renamed. -/
def Worker.rename (φ : Renaming) (y : Worker) : Worker :=
  { y with mailbox := y.mailbox.rename φ, activity := y.activity.rename φ }

/-- A caller with the worker it deals with renamed. -/
def Caller.rename (φ : Renaming) (x : Caller) : Caller :=
  { x with phase := x.phase.rename φ }

section Back

variable {φ γ : Renaming} {m : Mailbox} {e : Envelope} {x : Caller} {y : Worker} {p : Phase}

theorem Envelope.rename_rename (back : φ.caller (γ.caller e.caller) = e.caller) :
    (e.rename γ).rename φ = e := by
  simp [rename, back]

/-- Renaming the callers of a mailbox back. -/
theorem Mailbox.rename_rename (back : ∀ c ∈ m.callers, φ.caller (γ.caller c) = c) :
    (m.rename γ).rename φ = m := by
  have queue : ∀ e ∈ m.queue, (e.rename γ).rename φ = e := fun e queued ↦
    Envelope.rename_rename (back _ (List.mem_append_left _ (List.mem_map_of_mem queued)))
  have lined : ∀ c ∈ m.lined, φ.caller (γ.caller c) = c := fun c inside ↦
    back c (List.mem_append_right _ inside)
  unfold rename
  simp only [List.map_map]
  congr 1
  · exact (List.map_congr_left queue).trans (List.map_id _)
  · exact (List.map_congr_left fun c inside ↦
      lined c (List.mem_append_left _ inside)).trans (List.map_id _)
  · exact (List.map_congr_left fun c inside ↦
      lined c (List.mem_append_right _ inside)).trans (List.map_id _)

/-- Renaming the caller of the envelope in hand back. -/
theorem Activity.like_rename {a : Activity}
    (back : ∀ e, a.hand? = some e → φ.caller (γ.caller e.caller) = e.caller) :
    (a.rename γ).Like φ a := by
  cases a with
  | idle => exact .idle
  | connecting e c outcome alarm =>
    have like := @Like.connecting φ (e.rename γ) c outcome alarm alarm rfl
    rwa [Envelope.rename_rename (back e rfl)] at like
  | syncing e attempt alarm =>
    have like := @Like.syncing φ (e.rename γ) attempt alarm alarm rfl
    rwa [Envelope.rename_rename (back e rfl)] at like
  | left reason => exact .left reason
  | died => exact .died

/-- A worker is another under other names if those that it mentions can be renamed back. -/
theorem Worker.like_rename (hand : ∀ e, y.activity.hand? = some e →
    φ.caller (γ.caller e.caller) = e.caller)
    (mail : ∀ c ∈ y.mailbox.callers, φ.caller (γ.caller c) = c) : (y.rename γ).Like φ y :=
  ⟨rfl, rfl, (Mailbox.rename_rename mail).symm, rfl, rfl, rfl, Activity.like_rename hand⟩

/-- A caller is another under other names if the worker that it mentions can be renamed back. -/
theorem Caller.like_rename (direct : x.direct = none)
    (back : ∀ w, x.phase.partner? = some w → φ.worker (γ.worker w) = w) :
    (x.rename γ).Like φ x := by
  refine ⟨rfl, rfl, direct, direct, rfl, ?_, rfl, rfl⟩
  unfold rename
  dsimp only
  cases phase : x.phase with
  | suspended w => exact congrArg Phase.suspended (back w (by rw [phase]; rfl)).symm
  | awaiting w => exact congrArg Phase.awaiting (back w (by rw [phase]; rfl)).symm
  | replied w r => exact congrArg (Phase.replied · r) (back w (by rw [phase]; rfl)).symm
  | _ => rfl

end Back

namespace Table

/-- Whoever has the property is at the place that its position tells. -/
theorem place_idxOf {α : Type} {t : Table α} {p : α → Bool} {i : Nat} (listed : i ∈ t.numbers p) :
    t.place p ((t.numbers p).idxOf i) = i := by
  rw [place, List.getElem?_idxOf listed]
  rfl

end Table

namespace State

variable {s t : State} {τ : Task} {w : WorkerId} {c : CallerId} {x : Caller} {y : Worker}
  {side : String → Bool} {key name : String}

/-- The numbers that the callers and the workers of the keys on one side have. -/
def numbering (s : State) (side : String → Bool) : Renaming where
  caller := s.callers.place (side <| ·.key)
  worker := s.workers.place (side <| ·.key)

/-- How many callers and workers of the keys on one side came before. -/
def positions (s : State) (side : String → Bool) : Renaming where
  caller := fun c ↦ (s.callers.numbers (side <| ·.key)).idxOf c
  worker := fun w ↦ (s.workers.numbers (side <| ·.key)).idxOf w

/-- Whether a key on one side lodges at a ledger. -/
def lodges (s : State) (side : String → Bool) (name : String) : Bool :=
  s.lodgings.any fun entry ↦ side entry.1 && decide (entry.2 = .memory name)

/-- The part of a state that belongs to the keys on one side, with the ledgers at which they lodge.
What has been counted and recorded and who is ready is left out. -/
def part (s : State) (side : String → Bool) : State :=
  { start s.policy s.connector with
    now := s.now
    isShutDown := s.isShutDown
    ledgers := s.ledgers.filter (s.lodges side ·.1)
    directory := (s.directory.filter (side ·.1)).map fun entry ↦
      (entry.1, (s.positions side).worker entry.2)
    workers := s.workers.select (side <| ·.key) (Worker.rename (s.positions side))
    callers := s.callers.select (side <| ·.key) (Caller.rename (s.positions side)) }

/-- Whoever a caller deals with, or has dealt with last, has its key. -/
def Partnered (s : State) : Prop :=
  ∀ {c x w}, s.callers.get? c = some x → x.phase.partner? = some w →
    ∃ y, s.workers.get? w = some y ∧ y.key = x.key

/-- A change leaves callers with workers of their own key. -/
theorem Change.partnered (filed : s.Filed) (h : s.Partnered) (change : Change s τ t) :
    t.Partnered := by
  have later := change.later
  -- A worker of the key of a caller stays one.
  have kept (old : Caller) {w : WorkerId}
      (own : ∃ y, s.workers.get? w = some y ∧ y.key = old.key) :
      ∃ y, t.workers.get? w = some y ∧ y.key = old.key := by
    obtain ⟨y, found, own⟩ := own
    obtain ⟨z, there, since⟩ := later.workers w y found
    exact ⟨z, there, since.key.trans own⟩
  intro c x w here partner
  rcases change.caller here with same | ⟨old, known, moves⟩
  · exact kept _ (h same partner)
  · cases moves with
    | begin => exact absurd partner (by simp [Phase.partner?])
    | retry => exact absurd partner (by simp [Phase.partner?])
    | line offers =>
      obtain rfl := Option.some.inj partner
      exact kept old (filed.aims known (.inl offers))
    | enqueue target =>
      obtain rfl := Option.some.inj partner
      exact kept old (filed.aims known target)
    | reply waits =>
      obtain rfl := Option.some.inj partner
      have partner : old.phase.partner? = some _ := congrArg Phase.partner? waits
      exact kept old (h known partner)
    | finish => exact absurd partner (by simp [Phase.partner?])
    | limit => exact kept old (h known partner)

/-- A use leaves callers with workers of their own key. -/
theorem Use.partnered (h : s.Partnered) (use : Use s t) : t.Partnered := by
  intro c x w here partner
  rcases use.caller here with ⟨fresh, -⟩ | ⟨old, known, phase, key, -⟩
  · rw [fresh] at partner
    exact absurd partner (by simp [Phase.partner?])
  · obtain ⟨y, found, own⟩ := h known (phase ▸ partner)
    obtain ⟨z, there, since⟩ := use.later.workers w y found
    exact ⟨z, there, since.key.trans (own.trans key.symm)⟩

/-- Callers only ever deal with workers of their own key. -/
theorem Reachable.partnered (h : s.Reachable) : s.Partnered := by
  have kept : s.bare.Filed ∧ s.bare.Partnered :=
    Reachable.invariant (P := fun s ↦ s.Filed ∧ s.Partnered)
      (fun policy connector ↦ ⟨(ordered_start policy connector).filed,
        fun known ↦ absurd known (by simp [start])⟩)
      (fun both change ↦ ⟨change.filed both.1, change.partnered both.1 both.2⟩)
      (fun both use ↦ ⟨use.filed both.1, use.partnered both.2⟩) h
  exact fun {_ _ _} known partner ↦ kept.2 known partner

/-- Whoever is in a mailbox or in the hand of a worker has its key. -/
theorem Reachable.key_of_caller (h : s.Reachable) (found : s.workers.get? w = some y) :
    (∀ e ∈ y.envelopes, ∃ x, s.callers.get? e.caller = some x ∧ x.key = y.key) ∧
      ∀ c ∈ y.mailbox.lined, ∃ x, s.callers.get? c = some x ∧ x.key = y.key := by
  have ordered := h.ordered
  constructor
  · intro e inside
    obtain ⟨x, known, own, -⟩ := ordered.owned.carried found inside
    exact ⟨x, known, own.trans (ordered.filed.matched found inside)⟩
  · intro c inside
    obtain ⟨-, x, known, suspended⟩ := suspended_of_lined ordered.owned found inside
    obtain ⟨y', found', own⟩ := ordered.filed.target known (by rw [suspended]; rfl)
    obtain rfl := Option.some.inj (found.symm.trans found')
    exact ⟨x, known, own.symm⟩

/-- What is left under a name that is kept is found as before. -/
theorem find?_filter_kept {α : Type} (entries : List (String × α)) {kept : String → Bool}
    (inside : kept name = true) :
    (entries.filter (kept ·.1)).find? (·.1 = name) = entries.find? (·.1 = name) := by
  rw [List.find?_filter]
  congr 1
  funext entry
  by_cases asked : entry.1 = name
  · simp [asked, inside]
  · simp [asked]

/-- What the part of a directory names for a key on the side. -/
theorem lookUp_part (directory : List (String × WorkerId)) (g : WorkerId → WorkerId)
    (inside : side key = true) :
    lookUp ((directory.filter (side ·.1)).map fun entry ↦ (entry.1, g entry.2)) key =
      (lookUp directory key).map g := by
  unfold lookUp
  rw [List.find?_map]
  change Option.map _ (Option.map _ ((directory.filter (side ·.1)).find? (·.1 = key))) = _
  rw [find?_filter_kept directory inside, Option.map_map, Option.map_map]
  rfl

/-- The part of a state that belongs to the keys on one side is an extract of it. -/
theorem Reachable.extract_part (h : s.Reachable) (side : String → Bool) :
    Extract (s.numbering side) side (s.lodges side · = true) s (s.part side) := by
  have filed := h.ordered.filed
  have caller {c : CallerId} {x : Caller} (known : s.callers.get? c = some x)
      (inside : side x.key = true) :
      (s.numbering side).caller ((s.positions side).caller c) = c :=
    Table.place_idxOf (Table.mem_numbers.mpr ⟨x, known, inside⟩)
  have worker {w : WorkerId} {y : Worker} (found : s.workers.get? w = some y)
      (inside : side y.key = true) :
      (s.numbering side).worker ((s.positions side).worker w) = w :=
    Table.place_idxOf (Table.mem_numbers.mpr ⟨y, found, inside⟩)
  exact {
    policy := rfl
    connector := rfl
    now := rfl
    shut := rfl
    find? := by
      intro key inside
      have named : (s.part side).find? key = (s.find? key).map (s.positions side).worker :=
        lookUp_part s.directory _ inside
      rw [named, Option.map_map]
      cases found : s.find? key with
      | none => rfl
      | some w =>
        obtain ⟨y, there, own⟩ := filed.named found
        exact congrArg some (worker there (own ▸ inside)).symm
    workers := by
      refine .select s.workers fun {w y} found inside ↦ ⟨?_, rfl⟩
      obtain ⟨carried, lined⟩ := h.key_of_caller found
      refine Worker.like_rename (fun e held ↦ ?_) fun c mentioned ↦ ?_
      · obtain ⟨x, known, own⟩ :=
          carried e (List.mem_append_left _ (Option.mem_toList.mpr held))
        exact caller known (own ▸ inside)
      · rcases List.mem_append.mp mentioned with queued | waits
        · obtain ⟨e, mailed, rfl⟩ := List.mem_map.mp queued
          obtain ⟨x, known, own⟩ := carried e (List.mem_append_right _ mailed)
          exact caller known (own ▸ inside)
        · obtain ⟨x, known, own⟩ := lined c waits
          exact caller known (own ▸ inside)
    callers := by
      refine .select s.callers fun {c x} known inside ↦ ⟨?_, rfl⟩
      refine Caller.like_rename (filed.indirect known) fun w partner ↦ ?_
      obtain ⟨y, found, own⟩ := h.partnered known partner
      exact worker found (own ▸ inside)
    ledgers := by
      intro name inside
      unfold State.ledger
      rw [part, find?_filter_kept s.ledgers inside] }

end State

end Signatory.Service
