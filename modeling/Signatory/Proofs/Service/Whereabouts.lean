import Signatory.Proofs.Service.Execution

/-!
# No request is lost or doubled

The places where a request can be are read off the caller and off what the workers have. A request
that is not answered is in exactly one of them.
-/

namespace Signatory.Service

/-- Where the request of a caller can be. -/
inductive Place
  /-- With the caller, who looks for a worker. -/
  | routing
  /-- With the caller, who is suspended on the mailbox of a worker. -/
  | suspended (w : WorkerId)
  /-- In the mailbox of a worker. -/
  | queued (w : WorkerId)
  /-- In the hand of a worker. -/
  | inHand (w : WorkerId)
  /-- Answered, handed back or lost, with a reply that the caller has not looked at. -/
  | resolved (w : WorkerId) (r : Reply)

/-- The place of a request that is with its caller. -/
def Phase.places : Phase → List Place
  | .fresh | .seeking => [.routing]
  | .suspended w => [.suspended w]
  | .replied w r => [.resolved w r]
  | .awaiting _ | .ended _ => []

/-- The places of the envelopes of a caller that a worker has. -/
def Worker.places (y : Worker) (w : WorkerId) (c : CallerId) : List Place :=
  ((y.activity.hand?.toList.filter (·.caller = c)).map fun _ ↦ .inHand w) ++
    (y.mailbox.queue.filter (·.caller = c)).map fun _ ↦ .queued w

/-- All the places where the request of a caller is. -/
def State.places (s : State) (c : CallerId) : List Place :=
  (match s.callers.get? c with
    | some x => x.phase.places
    | none => []) ++
  s.workers.toList.flatMap fun (w, y) ↦ y.places w c

namespace Table

variable {α β : Type} {t : Table α} {f : Nat × α → List β} {i : Nat} {a : α}

/-- The entries of a table are the ones that are found in it. -/
theorem mem_toList : (i, a) ∈ t.toList ↔ t.get? i = some a := by
  unfold toList get?
  constructor
  · intro listed
    obtain ⟨⟨b, j⟩, here, same⟩ := List.mem_map.mp listed
    obtain ⟨rfl, rfl⟩ := Prod.mk.inj same
    rw [← Array.getElem?_toList]
    exact List.mem_zipIdx_iff_getElem?.mp here
  · intro found
    refine List.mem_map.mpr ⟨(a, i), List.mem_zipIdx_iff_getElem?.mpr ?_, rfl⟩
    rw [Array.getElem?_toList]
    exact found

/-- No number is listed twice. -/
theorem nodup_toList (t : Table α) : (t.toList.map (·.1)).Nodup := by
  unfold toList
  rw [List.map_map]
  change (t.entries.toList.zipIdx.map Prod.snd).Nodup
  rw [List.zipIdx_map_snd]
  exact List.nodup_range'

/-- Nothing is collected from a table whose entries have nothing. -/
theorem flatMap_eq_nil (none : ∀ j b, t.get? j = some b → f (j, b) = []) :
    t.toList.flatMap f = [] :=
  List.flatMap_eq_nil_iff.mpr fun (j, b) listed ↦ none j b (mem_toList.mp listed)

/-- What is collected from a table in which one entry has something is what that entry has. -/
theorem flatMap_eq_single (found : t.get? i = some a)
    (others : ∀ j b, j ≠ i → t.get? j = some b → f (j, b) = []) :
    t.toList.flatMap f = f (i, a) := by
  obtain ⟨before, after, split⟩ := List.append_of_mem (mem_toList.mpr found)
  have numbers := nodup_toList t
  rw [split, List.map_append, List.map_cons] at numbers
  have apart (j : Nat) (b : α) (listed : (j, b) ∈ before ∨ (j, b) ∈ after) : f (j, b) = [] := by
    have here : (j, b) ∈ t.toList := by
      rw [split, List.mem_append, List.mem_cons]
      exact listed.imp_right .inr
    refine others j b ?_ (mem_toList.mp here)
    rintro rfl
    rcases listed with first | last
    · have distinct := (List.nodup_append.mp numbers).2.2
      exact distinct _ (List.mem_map.mpr ⟨_, first, rfl⟩) _ List.mem_cons_self rfl
    · have distinct := (List.nodup_cons.mp (List.nodup_append.mp numbers).2.1).1
      exact distinct (List.mem_map.mpr ⟨_, last, rfl⟩)
  rw [split, List.flatMap_append, List.flatMap_cons,
    List.flatMap_eq_nil_iff.mpr fun (j, b) listed ↦ apart j b (.inl listed),
    List.flatMap_eq_nil_iff.mpr fun (j, b) listed ↦ apart j b (.inr listed),
    List.nil_append, List.append_nil]

end Table

/-- A worker has as many places for a caller as it has envelopes of it. -/
theorem Worker.length_places (y : Worker) (w : WorkerId) (c : CallerId) :
    (y.places w c).length = y.held.count c := by
  have count (es : List Envelope) :
      (es.filter (·.caller = c)).length = (es.map (·.caller)).count c := by
    rw [List.count, List.countP_map, List.countP_eq_length_filter]
    rfl
  rw [places, List.length_append, List.length_map, List.length_map, count, count, held, envelopes,
    List.map_append, List.count_append]

namespace State

variable {s t : State} {c : CallerId} {x : Caller}

/-- The request of a caller whose call is not over is in exactly one place. -/
theorem Sole.places (h : s.Sole) (found : s.callers.get? c = some x)
    (live : x.phase.isEnded = false) : ∃ p, s.places c = [p] := by
  have phase := phase?_of_found found
  have nowhere (none : ∀ w, claim w (some x.phase) = 0) :
      (s.workers.toList.flatMap fun (w, y) ↦ y.places w c) = [] := by
    apply Table.flatMap_eq_nil
    intro w y there
    have fits := h.owned.fits (c := c) there
    rw [phase] at fits
    have absent := fits.absent (none w) (remains_of_live live)
    rw [← Worker.length_places y w c] at absent
    exact List.eq_nil_of_length_eq_zero absent
  unfold State.places
  rw [found]
  dsimp only
  cases kind : x.phase with
  | awaiting w =>
    obtain ⟨y, there⟩ := h.owned.present found (by rw [kind]; rfl)
    have single := Table.flatMap_eq_single (f := fun (w, y) ↦ y.places w c) there fun v z other at_v ↦ by
      have fits := h.owned.fits (c := c) at_v
      rw [phase, kind] at fits
      have absent := fits.absent (if_neg (Ne.symm other)) rfl
      rw [← Worker.length_places z v c] at absent
      exact List.eq_nil_of_length_eq_zero absent
    have fits := h.owned.fits (c := c) there
    rw [phase, kind] at fits
    have least := fits.least
    have most := fits.most
    rw [claim, if_pos rfl, ← Worker.length_places y w c] at least most
    rw [single]
    exact List.length_eq_one_iff.mp (Nat.le_antisymm most least)
  | ended e =>
    rw [kind] at live
    exact absurd live (by simp [Phase.isEnded])
  | fresh =>
    rw [nowhere fun w ↦ by rw [kind]; rfl]
    exact ⟨_, rfl⟩
  | seeking =>
    rw [nowhere fun w ↦ by rw [kind]; rfl]
    exact ⟨_, rfl⟩
  | suspended w =>
    rw [nowhere fun v ↦ by rw [kind]; rfl]
    exact ⟨_, rfl⟩
  | replied w r =>
    rw [nowhere fun v ↦ by rw [kind]; rfl]
    exact ⟨_, rfl⟩

end State

end Signatory.Service
