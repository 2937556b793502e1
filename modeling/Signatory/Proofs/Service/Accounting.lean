import Signatory.Proofs.Service.Directory
import Signatory.Proofs.Service.Sessions

/-!
# Accounting for workers

While a service is not shut down, each worker that was created is still in the directory, or was
removed, or left because it idled too long, or has died and is not in the directory any more. The
first three are counted. Of the dead, only those are counted as aborted whose entry was taken out by
a caller that was told of the death; an entry that is dropped because its mailbox was found closed,
or that is replaced by the entry of a new worker, is missed.
-/

namespace Signatory.Service

/-- What an event tells about workers that were removed. -/
def Event.removal? : Event → Option WorkerId
  | .removed w => some w
  | _ => none

/-- What an event tells about workers that idled too long. -/
def Event.eviction? : Event → Option WorkerId
  | .hooked w .idleTimeout => some w
  | _ => none

/-- What has become of a worker: whether it was told to leave, whether it can be sent to, and how it
has ended, if it has. -/
def Worker.fate (y : Worker) : Bool × Bool × Option Activity :=
  (y.cancelled, y.isHeld, if y.activity.isOver then some y.activity else none)

/-- The counts that concern workers. -/
def Stats.tally (n : Stats) : Nat × Nat × Nat × Nat :=
  (n.created, n.removed, n.evicted, n.aborted)

namespace State

variable {s t : State} {τ : Task} {w v : WorkerId} {y z : Worker} {key : String}
  {counted missed : List WorkerId}

/-- The workers that were removed, the latest first. -/
def removals (s : State) : List WorkerId :=
  s.events.filterMap Event.removal?

/-- The workers that left because they idled too long, the latest first. -/
def evictions (s : State) : List WorkerId :=
  s.events.filterMap Event.eviction?

/-- The workers that the directory names. -/
def named (s : State) : List WorkerId :=
  s.directory.map (·.2)

/-- What the lists in which a worker stands tell about it. -/
structure Tallied (s : State) (lost : List WorkerId) (w : WorkerId) (y : Worker) : Prop where
  held : y.isHeld = true
  removed : w ∈ s.removals ↔ y.cancelled = true
  evicted : w ∈ s.evictions → y.activity = .left .idleTimeout
  left : ∀ reason, y.activity = .left reason → w ∈ s.removals ∨ w ∈ s.evictions
  died : w ∈ lost → y.activity = .died

/-- Every worker stands in one place: in the directory, among those that were removed or evicted, or
among the dead that were counted or missed. -/
structure Accounts (s : State) (counted missed : List WorkerId) : Prop where
  created : s.stats.created = s.workers.size
  removed : s.stats.removed = s.removals.length
  evicted : s.stats.evicted = s.evictions.length
  aborted : s.stats.aborted = counted.length
  keys : (s.directory.map (·.1)).Nodup
  parts : (s.named ++ (s.removals ++ s.evictions ++ counted ++ missed)).Perm
    (List.range s.workers.size)
  tallied : ∀ {w y}, s.workers.get? w = some y → s.Tallied (counted ++ missed) w y

/-- An entry that is named is in the directory. -/
theorem mem_of_lookUp {directory : List (String × WorkerId)} (named : lookUp directory key = some w) :
    (key, w) ∈ directory := by
  obtain ⟨⟨k, v⟩, found, rfl⟩ := Option.map_eq_some_iff.mp named
  have same : k = key := by simpa using List.find?_some found
  exact same ▸ List.mem_of_find?_eq_some found

/-- If no key occurs twice, an entry that is in the directory is named. -/
theorem lookUp_of_mem {directory : List (String × WorkerId)} (keys : (directory.map (·.1)).Nodup)
    (inside : (key, w) ∈ directory) : lookUp directory key = some w := by
  induction directory with
  | nil => exact absurd inside List.not_mem_nil
  | cons entry rest ih =>
    obtain ⟨k, v⟩ := entry
    rw [List.map_cons, List.nodup_cons] at keys
    rw [lookUp_cons]
    rcases List.mem_cons.mp inside with here | later
    · obtain ⟨rfl, rfl⟩ := Prod.mk.inj here
      exact if_pos rfl
    · rw [if_neg, ih keys.2 later]
      rintro rfl
      exact keys.1 (List.mem_map.mpr ⟨_, later, rfl⟩)

/-- If no key occurs twice, one entry is taken out with its key. -/
theorem perm_filter {directory : List (String × WorkerId)} (keys : (directory.map (·.1)).Nodup)
    (named : lookUp directory key = some w) :
    (directory.map (·.2)).Perm (w :: (directory.filter (·.1 ≠ key)).map (·.2)) := by
  induction directory with
  | nil => exact absurd named (by simp [lookUp])
  | cons entry rest ih =>
    obtain ⟨k, v⟩ := entry
    rw [List.map_cons, List.nodup_cons] at keys
    rw [lookUp_cons] at named
    split at named
    next same =>
      obtain rfl := Option.some.inj named
      have others : rest.filter (·.1 ≠ key) = rest := by
        apply List.filter_eq_self.mpr
        rintro ⟨l, u⟩ inside
        refine decide_eq_true fun equal ↦ keys.1 ?_
        exact List.mem_map.mpr ⟨_, inside, equal.trans same⟩
      rw [List.filter_cons_of_neg (by simp [same]), others]
      exact .refl _
    next other =>
      rw [List.filter_cons_of_pos (by simpa using Ne.symm other)]
      exact ((ih keys.2 named).cons v).trans (.swap w v _)

namespace Accounts

/-- No worker stands in two places. -/
theorem nodup (h : s.Accounts counted missed) :
    (s.named ++ (s.removals ++ s.evictions ++ counted ++ missed)).Nodup :=
  h.parts.nodup_iff.mpr List.nodup_range

/-- A worker that the directory names stands nowhere else. -/
theorem not_departed (h : s.Accounts counted missed) (named : s.find? key = some w) :
    w ∉ s.removals ++ s.evictions ++ counted ++ missed :=
  fun departed ↦ (List.nodup_append.mp h.nodup).2.2 w
    (List.mem_map.mpr ⟨_, mem_of_lookUp named, rfl⟩) w departed rfl

/-- A worker that the directory names was not told to leave, and it has not left. -/
theorem stays (h : s.Accounts counted missed) (named : s.find? key = some w)
    (found : s.workers.get? w = some y) :
    y.cancelled = false ∧ ∀ reason, y.activity ≠ .left reason := by
  have outside := h.not_departed named
  simp only [List.mem_append, not_or] at outside
  have tallied := h.tallied found
  refine ⟨?_, fun reason left ↦ ?_⟩
  · rw [← Bool.not_eq_true, ← tallied.removed]
    exact outside.1.1.1
  · exact (tallied.left reason left).elim outside.1.1.1 outside.1.1.2

/-- A worker that goes on is named for its key. -/
theorem named_of_kept (h : s.Accounts counted missed) (filed : s.Filed)
    (found : s.workers.get? w = some y) (kept : y.cancelled = false)
    (live : y.activity.isOver = false) : s.find? y.key = some w := by
  have tallied := h.tallied found
  have inside := h.parts.mem_iff.mpr (List.mem_range.mpr (Table.lt_size found))
  simp only [List.mem_append] at inside
  rcases inside with named | ((removed | evicted) | counted) | missed
  · obtain ⟨⟨key, v⟩, entry, rfl⟩ := List.mem_map.mp named
    have named := lookUp_of_mem h.keys entry
    obtain ⟨z, there, own⟩ := filed.named named
    obtain rfl := Option.some.inj (found.symm.trans there)
    exact own ▸ named
  · exact absurd ((tallied.removed.mp removed).symm.trans kept) (by simp)
  · rw [tallied.evicted evicted] at live
    exact absurd live (by simp [Activity.isOver])
  · rw [tallied.died (List.mem_append_left _ counted)] at live
    exact absurd live (by simp [Activity.isOver])
  · rw [tallied.died (List.mem_append_right _ missed)] at live
    exact absurd live (by simp [Activity.isOver])

/-- A worker that is named and whose mailbox is closed has died. -/
theorem died_of_closed (h : s.Accounts counted missed) (ordered : s.Ordered)
    (named : s.find? key = some w) (shut : s.isClosed w = true) :
    ∃ y, s.workers.get? w = some y ∧ y.activity = .died := by
  obtain ⟨y, found, -⟩ := ordered.filed.named named
  refine ⟨y, found, ?_⟩
  unfold isClosed at shut
  rw [found] at shut
  have past := (ordered.owned.shut found).symm.trans shut
  have left := (h.stays named found).2
  cases activity : y.activity with
  | died => rfl
  | left reason => exact absurd activity (left reason)
  | _ => rw [activity] at past; exact absurd past (by simp [Activity.isOver])

end Accounts

/-- What the lists tell about a worker, they tell about one with the same fate. -/
theorem Tallied.congr {lost : List WorkerId} (h : s.Tallied lost w y) (fate : z.fate = y.fate)
    (removals : t.removals = s.removals) (evictions : t.evictions = s.evictions) :
    t.Tallied lost w z := by
  obtain ⟨cancelled, rest⟩ := Prod.mk.inj fate
  obtain ⟨held, past⟩ := Prod.mk.inj rest
  have forth {a : Activity} (was : y.activity = a) (ended : a.isOver = true) : z.activity = a := by
    rw [was, if_pos ended] at past
    split at past
    next => exact Option.some.inj past
    next => exact absurd past (by simp)
  have back {a : Activity} (is : z.activity = a) (ended : a.isOver = true) : y.activity = a := by
    rw [is, if_pos ended] at past
    split at past
    next => exact (Option.some.inj past).symm
    next => exact absurd past (by simp)
  refine ⟨held.trans h.held, ?_, fun inside ↦ ?_, fun reason left ↦ ?_, fun inside ↦ ?_⟩
  · rw [removals, cancelled]
    exact h.removed
  · exact forth (h.evicted (evictions ▸ inside)) rfl
  · rw [removals, evictions]
    exact h.left reason (back left rfl)
  · exact forth (h.died inside) rfl

/-- The fates of workers stay the same if one is replaced by another that has its fate. -/
theorem fate_set (found : s.workers.get? v = some y) (same : z.fate = y.fate) (w : WorkerId) :
    ((s.workers.set v z).get? w).map Worker.fate = (s.workers.get? w).map Worker.fate := by
  rw [Table.get?_set found]
  split
  next here => rw [← here, found, Option.map_some, Option.map_some, same]
  next => rfl

/-- The accounts are right as long as nobody enters or leaves. -/
theorem Accounts.congr (h : s.Accounts counted missed) (directory : t.directory = s.directory)
    (stats : t.stats.tally = s.stats.tally) (removals : t.removals = s.removals)
    (evictions : t.evictions = s.evictions) (size : t.workers.size = s.workers.size)
    (fates : ∀ w, (t.workers.get? w).map Worker.fate = (s.workers.get? w).map Worker.fate) :
    t.Accounts counted missed := by
  obtain ⟨created, rest⟩ := Prod.mk.inj stats
  obtain ⟨removed, rest⟩ := Prod.mk.inj rest
  obtain ⟨evicted, lost⟩ := Prod.mk.inj rest
  refine ⟨?_, ?_, ?_, lost.trans h.aborted, directory ▸ h.keys, ?_, fun {w z} found ↦ ?_⟩
  · rw [created, size, h.created]
  · rw [removed, removals, h.removed]
  · rw [evicted, evictions, h.evicted]
  · rw [State.named, directory, removals, evictions, size]
    exact h.parts
  · have fate := fates w
    rw [found, Option.map_some] at fate
    obtain ⟨y, there, same⟩ := Option.map_eq_some_iff.mp fate.symm
    exact (h.tallied there).congr same.symm removals evictions

/-- What the lists tell about a worker does not depend on where the others stand. -/
theorem Tallied.frame {lost lost' : List WorkerId} (h : s.Tallied lost w y)
    (removals : w ∈ t.removals ↔ w ∈ s.removals) (evictions : w ∈ t.evictions ↔ w ∈ s.evictions)
    (dead : w ∈ lost' → w ∈ lost) : t.Tallied lost' w y where
  held := h.held
  removed := removals.trans h.removed
  evicted := fun inside ↦ h.evicted (evictions.mp inside)
  left := fun reason left ↦ (h.left reason left).imp removals.mpr evictions.mpr
  died := fun inside ↦ h.died (dead inside)

/-- A worker that is alive and was not told to leave may be told so. -/
theorem Tallied.remove {lost : List WorkerId} (h : s.Tallied lost w y)
    (removed : w ∈ t.removals) (evictions : t.evictions = s.evictions) :
    t.Tallied lost w { y with cancelled := true } where
  held := h.held
  removed := iff_of_true removed rfl
  evicted := fun inside ↦ h.evicted (evictions ▸ inside)
  left := fun _ _ ↦ .inl removed
  died := h.died

/-- A worker that is alive stands neither with those that have left nor with the dead. -/
theorem Tallied.live {lost : List WorkerId} (h : s.Tallied lost w y)
    (live : y.activity.isOver = false) : w ∉ s.evictions ∧ w ∉ lost := by
  constructor
  · intro inside
    rw [h.evicted inside] at live
    exact absurd live (by simp [Activity.isOver])
  · intro inside
    rw [h.died inside] at live
    exact absurd live (by simp [Activity.isOver])

namespace Accounts

/-- A worker that was named stands in another place once its entry is taken out. -/
theorem moved (h : s.Accounts counted missed) (named : s.find? key = some w)
    (directory : t.directory = s.directory.filter (·.1 ≠ key)) {others : List WorkerId}
    (moved : others.Perm (w :: (s.removals ++ s.evictions ++ counted ++ missed))) :
    (t.named ++ others).Perm (List.range s.workers.size) := by
  rw [State.named, directory]
  have entry := (perm_filter h.keys named).symm.append_right
    (s.removals ++ s.evictions ++ counted ++ missed)
  exact ((moved.append_left _).trans List.perm_middle).trans (entry.trans h.parts)

/-- No key occurs twice in part of the directory. -/
theorem keys_filter (h : s.Accounts counted missed) (p : String × WorkerId → Bool) :
    ((s.directory.filter p).map (·.1)).Nodup :=
  h.keys.sublist ((List.filter_sublist).map _)

/-- A worker that is removed stands among the removed. -/
theorem remove (h : s.Accounts counted missed) (named : s.find? key = some w)
    (directory : t.directory = s.directory.filter (·.1 ≠ key))
    (stats : t.stats = { s.stats with removed := s.stats.removed + 1 })
    (removals : t.removals = w :: s.removals) (evictions : t.evictions = s.evictions)
    (workers : t.workers = s.workers.update w fun y ↦ { y with cancelled := true }) :
    t.Accounts counted missed where
  created := by rw [stats, workers, Table.size_update, h.created]
  removed := by rw [stats, removals, List.length_cons, h.removed]
  evicted := by rw [stats, evictions, h.evicted]
  aborted := by rw [stats, h.aborted]
  keys := directory ▸ h.keys_filter _
  parts := by
    rw [workers, Table.size_update, removals, evictions]
    exact h.moved named directory (.refl _)
  tallied := by
    intro u z found
    rw [workers] at found
    obtain ⟨y, there, ⟨rfl, rfl⟩ | ⟨other, rfl⟩⟩ := Table.of_update found
    · refine (h.tallied there).remove ?_ evictions
      exact removals ▸ List.mem_cons_self
    · refine (h.tallied there).frame ?_ (by rw [evictions]) id
      rw [removals, List.mem_cons, or_iff_right (Ne.symm other)]

/-- A worker that idles too long stands among the evicted. -/
theorem evict (h : s.Accounts counted missed) (filed : s.Filed) (found : s.workers.get? w = some y)
    (idle : y.activity = .idle) (kept : y.cancelled = false)
    (directory : t.directory = s.without y.key w) (stats : t.stats = s.stats.exit .idleTimeout)
    (removals : t.removals = s.removals) (evictions : t.evictions = w :: s.evictions)
    (workers : t.workers = s.workers.set w
      { y with mailbox := y.mailbox.close, activity := .left .idleTimeout }) :
    t.Accounts counted missed := by
  have live : y.activity.isOver = false := by rw [idle]; rfl
  have named := h.named_of_kept filed found kept live
  rw [without, if_pos named] at directory
  have tallied := h.tallied found
  refine ⟨?_, ?_, ?_, ?_, directory ▸ h.keys_filter _, ?_, fun {u z} there ↦ ?_⟩
  · rw [stats, workers, Table.size_set]
    exact h.created
  · rw [stats, removals]
    exact h.removed
  · rw [stats, evictions, List.length_cons, ← h.evicted]
    rfl
  · rw [stats]
    exact h.aborted
  · rw [workers, Table.size_set, removals, evictions]
    refine h.moved named directory ?_
    rw [List.append_assoc, List.append_assoc, List.append_assoc, List.append_assoc]
    exact List.perm_middle
  · rw [workers] at there
    rcases Table.of_set found there with ⟨rfl, rfl⟩ | ⟨other, there⟩
    · refine ⟨tallied.held, ?_, fun _ ↦ rfl, fun _ _ ↦ .inr ?_, fun inside ↦ ?_⟩
      · rw [removals]
        exact tallied.removed
      · rw [evictions]
        exact List.mem_cons_self
      · exact absurd inside (tallied.live live).2
    · refine (h.tallied there).frame (by rw [removals]) ?_ id
      rw [evictions, List.mem_cons, or_iff_right (Ne.symm other)]

/-- A worker that leaves because it was removed has been counted before. -/
theorem depart (h : s.Accounts counted missed) (found : s.workers.get? w = some y)
    (idle : y.activity = .idle) (cancelled : y.cancelled = true)
    (directory : t.directory = s.without y.key w) (stats : t.stats = s.stats)
    (removals : t.removals = s.removals) (evictions : t.evictions = s.evictions)
    (workers : t.workers = s.workers.set w
      { y with mailbox := y.mailbox.close, activity := .left .removed }) :
    t.Accounts counted missed := by
  have tallied := h.tallied found
  have removed := tallied.removed.mpr cancelled
  have unnamed : s.find? y.key ≠ some w := fun named ↦
    absurd ((h.stays named found).1.symm.trans cancelled) (by simp)
  rw [without, if_neg unnamed] at directory
  refine ⟨?_, ?_, ?_, ?_, directory ▸ h.keys, ?_, fun {u z} there ↦ ?_⟩
  · rw [stats, workers, Table.size_set, h.created]
  · rw [stats, removals, h.removed]
  · rw [stats, evictions, h.evicted]
  · rw [stats, h.aborted]
  · rw [State.named, directory, workers, Table.size_set, removals, evictions]
    exact h.parts
  · rw [workers] at there
    rcases Table.of_set found there with ⟨rfl, rfl⟩ | ⟨-, there⟩
    · have apart := tallied.live (by rw [idle]; rfl)
      refine ⟨tallied.held, ?_, fun inside ↦ ?_, fun _ _ ↦ .inl (removals ▸ removed),
        fun inside ↦ absurd inside apart.2⟩
      · rw [removals]
        exact tallied.removed
      · exact absurd (evictions ▸ inside) apart.1
    · exact (h.tallied there).frame (by rw [removals]) (by rw [evictions]) id

/-- A worker that dies stands where it stood. -/
theorem die (h : s.Accounts counted missed) (found : s.workers.get? w = some y)
    (live : y.activity.isOver = false) {mailbox : Mailbox} (directory : t.directory = s.directory)
    (stats : t.stats = s.stats) (removals : t.removals = s.removals)
    (evictions : t.evictions = s.evictions)
    (workers : t.workers = s.workers.set w { y with mailbox, activity := .died }) :
    t.Accounts counted missed := by
  have tallied := h.tallied found
  refine ⟨?_, ?_, ?_, ?_, directory ▸ h.keys, ?_, fun {u z} there ↦ ?_⟩
  · rw [stats, workers, Table.size_set, h.created]
  · rw [stats, removals, h.removed]
  · rw [stats, evictions, h.evicted]
  · rw [stats, h.aborted]
  · rw [State.named, directory, workers, Table.size_set, removals, evictions]
    exact h.parts
  · rw [workers] at there
    rcases Table.of_set found there with ⟨rfl, rfl⟩ | ⟨-, there⟩
    · refine ⟨tallied.held, ?_, fun inside ↦ ?_, fun _ left ↦ absurd left (by simp), fun _ ↦ rfl⟩
      · rw [removals]
        exact tallied.removed
      · exact absurd (evictions ▸ inside) (tallied.live live).1
    · exact (h.tallied there).frame (by rw [removals]) (by rw [evictions]) id

/-- The entry of a dead worker is taken out: it stands among those that were counted or missed. -/
theorem drop {counted' missed' : List WorkerId} (h : s.Accounts counted missed)
    (named : s.find? key = some w)
    (died : ∃ y, s.workers.get? w = some y ∧ y.activity = .died)
    (lost : (counted' ++ missed').Perm (w :: (counted ++ missed)))
    (directory : t.directory = s.directory.filter (·.1 ≠ key))
    (created : t.stats.created = s.stats.created) (removed : t.stats.removed = s.stats.removed)
    (evicted : t.stats.evicted = s.stats.evicted) (aborted : t.stats.aborted = counted'.length)
    (removals : t.removals = s.removals) (evictions : t.evictions = s.evictions)
    (workers : t.workers = s.workers) : t.Accounts counted' missed' := by
  refine ⟨?_, ?_, ?_, aborted, directory ▸ h.keys_filter _, ?_, fun {u z} there ↦ ?_⟩
  · rw [created, workers, h.created]
  · rw [removed, removals, h.removed]
  · rw [evicted, evictions, h.evicted]
  · rw [workers, removals, evictions]
    refine h.moved named directory ?_
    rw [List.append_assoc _ _ missed', List.append_assoc _ _ missed]
    exact (lost.append_left _).trans List.perm_middle
  · rw [workers] at there
    have tallied := h.tallied there
    refine ⟨tallied.held, ?_, ?_, ?_, fun inside ↦ ?_⟩
    · rw [removals]
      exact tallied.removed
    · rw [evictions]
      exact tallied.evicted
    · rw [removals, evictions]
      exact tallied.left
    · rcases List.mem_cons.mp (lost.mem_iff.mp inside) with rfl | before
      · obtain ⟨y, found, died⟩ := died
        exact Option.some.inj (there.symm.trans found) ▸ died
      · exact tallied.died before

/-- A new worker stands in the directory. -/
theorem enter (h : s.Accounts counted missed) (vacant : s.find? key = none)
    (kept : y.cancelled = false) (held : y.isHeld = true) (live : y.activity.isOver = false)
    (directory : t.directory = (key, s.workers.size) :: s.directory.filter (·.1 ≠ key))
    (stats : t.stats = { s.stats with created := s.stats.created + 1 })
    (removals : t.removals = s.removals) (evictions : t.evictions = s.evictions)
    (workers : t.workers = s.workers.push y) : t.Accounts counted missed := by
  have outside {l : List WorkerId}
      (among : l ⊆ s.removals ++ s.evictions ++ counted ++ missed) : s.workers.size ∉ l := by
    intro inside
    have known := h.parts.mem_iff.mp (List.mem_append_right _ (among inside))
    exact Nat.lt_irrefl _ (List.mem_range.mp known)
  refine ⟨?_, ?_, ?_, ?_, ?_, ?_, fun {u z} there ↦ ?_⟩
  · rw [stats, workers, Table.size_push, h.created]
  · rw [stats, removals, h.removed]
  · rw [stats, evictions, h.evicted]
  · rw [stats, h.aborted]
  · rw [directory, List.map_cons, List.nodup_cons]
    refine ⟨fun inside ↦ ?_, h.keys_filter _⟩
    obtain ⟨entry, kept, same⟩ := List.mem_map.mp inside
    exact absurd same (by simpa using (List.mem_filter.mp kept).2)
  · have others : s.directory.filter (·.1 ≠ key) = s.directory := by
      apply List.filter_eq_self.mpr
      rintro ⟨k, u⟩ inside
      refine decide_eq_true fun same ↦ ?_
      have named := lookUp_of_mem h.keys inside
      rw [show k = key from same] at named
      exact absurd (vacant.symm.trans named) (by simp)
    rw [State.named, directory, others, workers, Table.size_push, removals, evictions,
      List.range_succ]
    exact (h.parts.cons _).trans (List.perm_append_singleton _ _).symm
  · rw [workers] at there
    rcases Table.of_push there with ⟨rfl, rfl, -⟩ | there
    · refine ⟨held, ?_, fun inside ↦ ?_, fun reason left ↦ ?_, fun inside ↦ ?_⟩
      · rw [removals]
        exact iff_of_false (outside (by grind)) (by simp [kept])
      · exact absurd (evictions ▸ inside) (outside (by grind))
      · rw [left] at live
        exact absurd live (by simp [Activity.isOver])
      · exact absurd inside (outside (by grind))
    · exact (h.tallied there).frame (by rw [removals]) (by rw [evictions]) id

end Accounts

/-- What comes back to callers tells nothing about workers that have left. -/
theorem removal?_returns (time : Nat) (w : WorkerId) (es : List Envelope) (callers : Table Caller) :
    ((returns time w es callers).map (·.event)).filterMap Event.removal? = [] ∧
      ((returns time w es callers).map (·.event)).filterMap Event.eviction? = [] := by
  constructor
  all_goals
    apply List.filterMap_eq_nil_iff.mpr
    intro event back
    obtain ⟨entry, here, rfl⟩ := List.mem_map.mp back
    obtain ⟨e, -, -, rfl⟩ := mem_returns.mp here
    rfl

/-- Every change of a service that is not shut down leaves the accounts right. -/
theorem Change.accounts (h : s.Accounts counted missed) (ordered : s.Ordered)
    (serving : s.isShutDown = false) (change : Change s τ t) :
    ∃ counted' missed', t.Accounts counted' missed' := by
  have same (w : WorkerId) :
      (s.workers.get? w).map Worker.fate = (s.workers.get? w).map Worker.fate := rfl
  have drop {caller : Caller} {w : WorkerId} {callers : Table Caller} {journal : List Entry}
      (shut : s.isClosed w = true)
      (removals : (journal.map (·.event)).filterMap Event.removal? = s.removals)
      (evictions : (journal.map (·.event)).filterMap Event.eviction? = s.evictions) :
      ∃ counted' missed', Accounts
        { s with directory := s.without caller.key w, callers, journal } counted' missed' := by
    by_cases named : s.find? caller.key = some w
    · rw [without, if_pos named]
      exact ⟨counted, w :: missed, h.drop named (h.died_of_closed ordered named shut)
        List.perm_middle rfl rfl rfl rfl h.aborted removals evictions rfl⟩
    · rw [without, if_neg named]
      exact ⟨counted, missed, h.congr rfl rfl removals evictions rfl same⟩
  cases change with
  | rest => exact ⟨_, _, h⟩
  | @leave w worker reason found idle cause =>
    obtain ⟨removals, evictions⟩ :=
      removal?_returns s.now w worker.mailbox.queue s.callers
    cases cause with
    | shutdown cancelled closing => exact absurd (closing.symm.trans serving) (by simp)
    | removed cancelled =>
      refine ⟨_, _, h.depart found idle cancelled rfl rfl ?_ ?_ rfl⟩
      · rw [State.removals, events, List.map_append, List.filterMap_append, removals]
        rfl
      · rw [State.evictions, events, List.map_append, List.filterMap_append, evictions]
        rfl
    | released kept empty released =>
      exact absurd ((h.tallied found).held.symm.trans released) (by simp)
    | idled kept =>
      refine ⟨_, _, h.evict ordered.filed found idle kept rfl rfl ?_ ?_ rfl⟩
      · rw [State.removals, events, List.map_append, List.filterMap_append, removals]
        rfl
      · rw [State.evictions, events, List.map_append, List.filterMap_append, evictions]
        rfl
    | misrouted foreign answered =>
      exact absurd (List.mem_map_of_mem answered) ordered.filed.straight
  | die found cause => exact ⟨_, _, h.die found cause.live rfl rfl rfl rfl rfl⟩
  | skip takes => exact ⟨_, _, h.congr rfl rfl rfl rfl Table.size_set (fate_set takes.found rfl)⟩
  | misroute takes =>
    exact ⟨_, _, h.congr rfl rfl rfl rfl Table.size_set (fate_set takes.found rfl)⟩
  | connect accepts =>
    refine ⟨_, _, h.congr rfl rfl rfl rfl Table.size_set (fate_set accepts.found ?_)⟩
    rw [Worker.fate, Worker.fate, accepts.idle]
    rfl
  | lookup accepts =>
    refine ⟨_, _, h.congr rfl rfl rfl rfl Table.size_set (fate_set accepts.found ?_)⟩
    rw [Worker.fate, Worker.fate, accepts.idle]
    rfl
  | serve accepts =>
    refine ⟨_, _, h.congr rfl rfl rfl rfl Table.size_set (fate_set accepts.found ?_)⟩
    rw [Worker.fate, Worker.fate, accepts.idle]
  | finish found finishes =>
    refine ⟨_, _, h.congr rfl rfl rfl rfl Table.size_set (fate_set found ?_)⟩
    rw [Worker.fate, Worker.fate, finishes.live]
    rfl
  | again found syncing =>
    refine ⟨_, _, h.congr rfl rfl rfl rfl Table.size_set (fate_set found ?_)⟩
    rw [Worker.fate, Worker.fate, syncing]
    rfl
  | begin => exact ⟨_, _, h.congr rfl rfl rfl rfl rfl same⟩
  | beginDirect => exact ⟨_, _, h.congr rfl rfl rfl rfl rfl same⟩
  | @spawn c caller idle found seeking direct tries serving creates vacant =>
    cases named : s.find? caller.key with
    | none => exact ⟨_, _, h.enter named rfl rfl rfl rfl rfl rfl rfl rfl⟩
    | some v =>
      -- The entry that is replaced goes first; nobody counts it.
      have dropped : Accounts { s with directory := s.directory.filter (·.1 ≠ caller.key) }
          counted (v :: missed) :=
        h.drop named (h.died_of_closed ordered named (vacant v named)) List.perm_middle rfl rfl rfl
          rfl h.aborted rfl rfl rfl
      have vacant : find? { s with directory := s.directory.filter (·.1 ≠ caller.key) }
          caller.key = none := by
        rw [find?_eq, lookUp_filter, if_pos rfl]
      refine ⟨_, _, dropped.enter vacant rfl rfl rfl ?_ rfl rfl rfl rfl⟩
      rw [List.filter_filter]
      simp only [Bool.and_self]
  | push offers found => exact ⟨_, _, h.congr rfl rfl rfl rfl Table.size_set (fate_set found rfl)⟩
  | suspend offers found =>
    exact ⟨_, _, h.congr rfl rfl rfl rfl Table.size_set (fate_set found rfl)⟩
  | refuse offers shut => exact drop shut rfl rfl
  | refuseDirect => exact ⟨_, _, h.congr rfl rfl rfl rfl rfl same⟩
  | occupy known suspended found =>
    exact ⟨_, _, h.congr rfl rfl rfl rfl Table.size_set (fate_set found rfl)⟩
  | turnAway found suspended shut => exact drop shut rfl rfl
  | retry => exact ⟨_, _, h.congr rfl rfl rfl rfl rfl same⟩
  | limit => exact ⟨_, _, h.congr rfl rfl rfl rfl rfl same⟩
  | conclude => exact ⟨_, _, h.congr rfl rfl rfl rfl rfl same⟩
  | notFound => exact ⟨_, _, h.congr rfl rfl rfl rfl rfl same⟩
  | @lose c caller w found replied direct =>
    obtain ⟨y, there, -, died⟩ := ordered.filed.stranded found replied
    by_cases named : s.find? caller.key = some w
    · rw [without, if_pos named, if_pos named]
      refine ⟨w :: counted, missed, h.drop named ⟨y, there, died⟩ (.refl _)
        rfl rfl rfl rfl ?_ rfl rfl rfl⟩
      exact congrArg (· + 1) h.aborted
    · rw [without, if_neg named, if_neg named]
      exact ⟨_, _, h.congr rfl rfl rfl rfl rfl same⟩
  | giveUp => exact ⟨_, _, h.congr rfl rfl rfl rfl rfl same⟩
  | @withdraw c caller w ending found suspended cause =>
    refine ⟨_, _, h.congr rfl rfl rfl rfl (Table.size_update _ _ _) fun v ↦ ?_⟩
    rw [Table.get?_update]
    split
    next => rw [Option.map_map]; rfl
    next => rfl

/-- Every use of a service leaves the accounts right, unless it shuts the service down. -/
theorem Use.accounts (h : s.Accounts counted missed) (use : Use s t)
    (serving : t.isShutDown = false) : ∃ counted' missed', t.Accounts counted' missed' := by
  have same (w : WorkerId) :
      (s.workers.get? w).map Worker.fate = (s.workers.get? w).map Worker.fate := rfl
  cases use with
  | rest => exact ⟨_, _, h⟩
  | dispatch => exact ⟨_, _, h.congr rfl rfl rfl rfl rfl same⟩
  | drop => exact ⟨_, _, h.congr rfl rfl rfl rfl rfl same⟩
  | remove named => exact ⟨_, _, h.remove named rfl rfl rfl rfl rfl⟩
  | notFound => exact ⟨_, _, h.congr rfl rfl rfl rfl rfl same⟩
  | shutdown => exact absurd serving (by simp)
  | ledger => exact ⟨_, _, h.congr rfl rfl rfl rfl rfl same⟩
  | wait => exact ⟨_, _, h.congr rfl rfl rfl rfl rfl same⟩

/-- Nobody stands anywhere at the start. -/
theorem accounts_start (policy : Policy) (connector : Ledger.Connector) :
    (start policy connector).Accounts [] [] where
  created := rfl
  removed := rfl
  evicted := rfl
  aborted := rfl
  keys := List.nodup_nil
  parts := .refl _
  tallied := fun found ↦ by simp [start] at found

/-- The accounts are right in every state that can come about before the service is shut down. -/
theorem Reachable.accounts (h : s.Reachable) (serving : s.isShutDown = false) :
    ∃ counted missed, s.Accounts counted missed := by
  have kept := Reachable.invariant
    (P := fun s ↦ s.Ordered ∧ (s.isShutDown = false → ∃ counted missed, s.Accounts counted missed))
    (fun policy connector ↦ ⟨ordered_start policy connector, fun _ ↦ ⟨[], [], accounts_start _ _⟩⟩)
    (fun {s τ t} h change ↦ ⟨change.ordered h.1, fun serving ↦ ?_⟩)
    (fun {s t} h use ↦ ⟨use.ordered h.1, fun serving ↦ ?_⟩) h
  · obtain ⟨counted, missed, accounts⟩ := kept.2 serving
    exact ⟨counted, missed, accounts.created, accounts.removed, accounts.evicted,
      accounts.aborted, accounts.keys, accounts.parts, fun found ↦
        (accounts.tallied found).frame .rfl .rfl id⟩
  · have before := change.later.serving serving
    obtain ⟨counted, missed, accounts⟩ := h.2 before
    exact change.accounts accounts h.1 before
  · have before := use.later.serving serving
    obtain ⟨counted, missed, accounts⟩ := h.2 before
    exact use.accounts accounts serving

/-- Every worker is accounted for. While a service is not shut down, the workers that were created
are those in the directory, those that were removed, those that left because they idled too long,
and dead ones that are not in the directory; each is one of these only. The counts agree with the
first three, and the count of aborted workers falls short by the dead that were missed. None is
missed unless a worker has died that nobody removed and that is not in the directory. -/
theorem Reachable.workers_accounted (h : s.Reachable) (serving : s.isShutDown = false) :
    ∃ counted missed : List WorkerId,
      (s.named ++ (s.removals ++ s.evictions ++ counted ++ missed)).Perm
        (List.range s.workers.size) ∧
      s.stats.created = s.workers.size ∧ s.stats.removed = s.removals.length ∧
      s.stats.evicted = s.evictions.length ∧ s.stats.aborted = counted.length ∧
      s.stats.created =
        s.size + s.stats.removed + s.stats.evicted + s.stats.aborted + missed.length ∧
      (∀ w ∈ counted ++ missed, ∃ y, s.workers.get? w = some y ∧ y.activity = .died ∧
        y.cancelled = false ∧ s.find? y.key ≠ some w) ∧
      ((∀ w y, s.workers.get? w = some y → y.activity = .died →
          y.cancelled = true ∨ s.find? y.key = some w) →
        s.stats.created = s.size + s.stats.removed + s.stats.evicted + s.stats.aborted) := by
  obtain ⟨counted, missed, accounts⟩ := h.accounts serving
  have dead : ∀ w ∈ counted ++ missed, ∃ y, s.workers.get? w = some y ∧ y.activity = .died ∧
      y.cancelled = false ∧ s.find? y.key ≠ some w := by
    intro w lost
    have inside : w ∈ s.removals ++ s.evictions ++ counted ++ missed := by
      rw [List.append_assoc _ counted]
      exact List.mem_append_right _ lost
    have known := accounts.parts.mem_iff.mp (List.mem_append_right _ inside)
    obtain ⟨y, found⟩ := Option.isSome_iff_exists.mp
      (Table.get?_isSome.mpr (List.mem_range.mp known))
    have tallied := accounts.tallied found
    refine ⟨y, found, tallied.died lost, ?_, fun named ↦ accounts.not_departed named inside⟩
    have apart := (List.nodup_append.mp accounts.nodup).2.1
    rw [List.append_assoc _ counted, List.append_assoc] at apart
    rw [← Bool.not_eq_true, ← tallied.removed]
    exact fun removed ↦ (List.nodup_append.mp apart).2.2 w removed w
      (List.mem_append_right _ lost) rfl
  have total : s.stats.created =
      s.size + s.stats.removed + s.stats.evicted + s.stats.aborted + missed.length := by
    have length := accounts.parts.length_eq
    rw [List.length_range, ← accounts.created] at length
    rw [accounts.removed, accounts.evicted, accounts.aborted, ← length]
    simp only [named, size, List.length_append, List.length_map]
    omega
  refine ⟨counted, missed, accounts.parts, accounts.created, accounts.removed, accounts.evicted,
    accounts.aborted, total, dead, fun kept ↦ ?_⟩
  have none_missed : missed = [] := by
    apply List.eq_nil_iff_forall_not_mem.mpr
    intro w inside
    obtain ⟨y, found, died, uncancelled, unnamed⟩ := dead w (List.mem_append_right _ inside)
    rcases kept w y found died with cancelled | named
    · exact absurd (cancelled.symm.trans uncancelled) (by simp)
    · exact unnamed named
  rw [total, none_missed]
  rfl

/-- A connector for trials that crashes after a tenth of a second for the endpoint `frail`. -/
def frailConnector : Ledger.Connector := fun endpoint ↦
  if endpoint = "frail" then ⟨100, .crash⟩ else trialConnector endpoint

/-- In a session a worker dies after its caller has left, and its entry is replaced. -/
theorem Session.replaced :
    ∃ s, Session {} frailConnector [] s ∧ s.isShutDown = false ∧
      s.stats = { created := 2, dispatched := 2 } ∧ s.size = 1 := by
  have called := (Session.start : Session {} frailConnector [] _).act rfl
    (.single (.spawn "treasury" (trialGenerate "frail"))) |>.runReady 40
  have left := (called.act rfl (.single (.drop (c := 0) (by decide)))).runReady 40
  have died := (left.jump_listed rfl (show _ = some 100 from rfl) rfl (by decide)).runReady 40
  have renewed := (died.act rfl (.single (.spawn "treasury" (trialGenerate "main")))).runReady 40
  exact ⟨_, renewed, rfl, rfl, rfl⟩

/-- A worker whose entry is replaced after its death is accounted for as missed. -/
theorem Reachable.workers_accounted_missed :
    ∃ s : State, s.Reachable ∧ s.isShutDown = false ∧ ∃ missed : List WorkerId,
      missed.length = 1 ∧ ∀ w ∈ missed, ∃ y, s.workers.get? w = some y ∧ y.activity = .died := by
  obtain ⟨s, session, serving, stats, size⟩ := Session.replaced
  obtain ⟨counted, missed, -, -, -, -, -, total, dead, -⟩ :=
    Reachable.workers_accounted session.reachable serving
  refine ⟨s, session.reachable, serving, missed, ?_, fun w inside ↦ ?_⟩
  · rw [stats, size] at total
    dsimp only at total
    omega
  · obtain ⟨y, found, died, -⟩ := dead w (List.mem_append_right _ inside)
    exact ⟨y, found, died⟩

/-- So the counts need not add up to the number of workers that were created. -/
theorem Session.worker_missed :
    ∃ s, Session {} frailConnector [] s ∧ s.isShutDown = false ∧
      s.stats.created ≠ s.size + s.stats.removed + s.stats.evicted + s.stats.aborted := by
  obtain ⟨s, session, serving, stats, size⟩ := Session.replaced
  refine ⟨s, session, serving, ?_⟩
  rw [stats, size]
  decide

end State

end Signatory.Service
