import Signatory.Proofs.Service.Deeds

/-!
# Selections

The entries of a table whose keys are on one side, in the same order and under other numbers. Which
numbers they have is laid down in advance, for all that will ever be added.
-/

namespace Signatory.Service

namespace Table

variable {α : Type} {p : α → Bool} {t u : Table α} {i : Nat} {a b : α}

/-- Nothing is behind the last entry. -/
theorem get?_beyond (t : Table α) (k : Nat) : t.get? (t.size + k) = none :=
  get?_of_le (Nat.le_add_right _ _)

theorem mem_numbers : i ∈ t.numbers p ↔ ∃ a, t.get? i = some a ∧ p a = true := by
  unfold numbers
  rw [List.mem_filter, List.mem_range, ← get?_isSome]
  cases t.get? i <;> simp

/-- All entries have a property that everything has. -/
theorem numbers_true (t : Table α) : t.numbers (fun _ ↦ true) = List.range t.size := by
  refine List.filter_eq_self.mpr fun i inside ↦ ?_
  obtain ⟨a, there⟩ := Option.isSome_iff_exists.mp (get?_isSome.mpr (List.mem_range.mp inside))
  rw [there, Option.any_some]

/-- The numbers of the entries with a property depend on which entries have it only. -/
theorem numbers_congr (more : t.size ≤ u.size)
    (same : ∀ i, (u.get? i).any p = (t.get? i).any p) : u.numbers p = t.numbers p := by
  have beyond : ((List.range (u.size - t.size)).map (t.size + ·)).filter
      (fun i ↦ (u.get? i).any p) = [] := by
    rw [List.filter_eq_nil_iff]
    intro i inside
    obtain ⟨j, -, rfl⟩ := List.mem_map.mp inside
    rw [same, get?_beyond]
    simp
  unfold numbers
  rw [← Nat.add_sub_cancel' more, List.range_add, List.filter_append, beyond, List.append_nil]
  exact List.filter_congr fun i _ ↦ same i

/-- Changing an entry without changing whether it has a property changes no number. -/
theorem numbers_update {f : α → α} (same : ∀ a, t.get? i = some a → p (f a) = p a) :
    (t.update i f).numbers p = t.numbers p := by
  refine numbers_congr (Nat.le_of_eq (size_update t i f).symm) fun j ↦ ?_
  rw [get?_update]
  split
  next here =>
    subst here
    cases found : t.get? i with
    | none => rfl
    | some a => exact same a found
  next => rfl

/-- Adding an entry adds its number, if it has the property. -/
theorem numbers_push : (t.push a).numbers p = t.numbers p ++ if p a then [t.size] else [] := by
  unfold numbers
  rw [size_push, List.range_succ, List.filter_append]
  congr 1
  · refine List.filter_congr fun i inside ↦ ?_
    rw [get?_push, if_neg (Nat.ne_of_lt (List.mem_range.mp inside))]
  · rw [List.filter_singleton, get?_push, if_pos rfl]
    exact Bool.cond_eq_ite ..

/-- The number of the entry with a property before which as many others come; those that are not
there would come behind all that are. -/
def place (t : Table α) (p : α → Bool) (i : Nat) : Nat :=
  ((t.numbers p)[i]?).getD (t.size + (i - (t.numbers p).length))

/-- The next entry with a property would come behind all others. -/
theorem place_length (t : Table α) (p : α → Bool) :
    t.place p (t.numbers p).length = t.size := by
  rw [place, List.getElem?_eq_none (Nat.le_refl _), Nat.sub_self]
  rfl

theorem nodup_numbers (t : Table α) (p : α → Bool) : (t.numbers p).Nodup :=
  List.nodup_range.filter _

/-- What stands at a place has the property. -/
theorem of_place (there : t.get? (t.place p i) = some a) : p a = true := by
  unfold place at there
  cases listed : (t.numbers p)[i]? with
  | none =>
    rw [listed, Option.getD_none, get?_beyond] at there
    exact absurd there (by simp)
  | some j =>
    rw [listed, Option.getD_some] at there
    obtain ⟨b, there', fits⟩ := mem_numbers.mp (List.mem_of_getElem? listed)
    exact Option.some.inj (there.symm.trans there') ▸ fits

/-- No two entries have the same place. -/
theorem place_injective (t : Table α) (p : α → Bool) : Function.Injective (t.place p) := by
  have within {i j : Nat} (listed : (t.numbers p)[i]? = some j) : j < t.size := by
    obtain ⟨a, there, -⟩ := mem_numbers.mp (List.mem_of_getElem? listed)
    exact lt_size there
  intro i j same
  unfold place at same
  cases first : (t.numbers p)[i]? with
  | none =>
    cases second : (t.numbers p)[j]? with
    | none =>
      rw [first, second] at same
      have past := List.getElem?_eq_none_iff.mp first
      have past' := List.getElem?_eq_none_iff.mp second
      have behind := Nat.add_left_cancel same
      omega
    | some n =>
      rw [first, second] at same
      have := within second
      exact absurd same (by simp; omega)
  | some m =>
    cases second : (t.numbers p)[j]? with
    | none =>
      rw [first, second] at same
      have := within first
      exact absurd same (by simp; omega)
    | some n =>
      rw [first, second] at same
      obtain rfl : m = n := same
      have bound := (List.getElem?_eq_some_iff.mp first).1
      exact List.getElem?_inj bound (nodup_numbers t p) |>.mp (first.trans second.symm)

/-- The place of the next entry with the property is where it comes in the end. -/
theorem place_next (kept : ∀ i a, t.get? i = some a → ∃ b, u.get? i = some b ∧ p b = p a)
    (next : u.get? t.size = some b) (fits : p b = true) :
    u.place p (t.numbers p).length = t.size := by
  obtain ⟨more, size⟩ := Nat.exists_eq_add_of_lt (lt_size next)
  have before : (List.range t.size).filter (fun i ↦ (u.get? i).any p) = t.numbers p := by
    refine List.filter_congr fun i inside ↦ ?_
    cases there : t.get? i with
    | none => exact absurd (get?_isSome.mpr (List.mem_range.mp inside)) (by simp [there])
    | some a =>
      obtain ⟨b, there', same⟩ := kept i a there
      simp [there', same]
  have listed : ∃ rest, u.numbers p = t.numbers p ++ t.size :: rest := by
    have here : (u.get? (t.size + 0)).any p = true := by
      rw [Nat.add_zero, next]
      exact fits
    rw [numbers, size, Nat.add_assoc, List.range_add, List.filter_append, before,
      List.range_succ_eq_map, List.map_cons, List.filter_cons, if_pos here]
    exact ⟨_, rfl⟩
  obtain ⟨rest, listed⟩ := listed
  unfold place
  rw [listed, List.getElem?_append_right (Nat.le_refl _), Nat.sub_self]
  rfl

variable {f : Nat → Nat} {like : α → α → Prop} {key : α → String} {side : String → Bool}

/-- One table has the entries of another whose keys are on one side, in the same order and under
other numbers. -/
structure Picks (f : Nat → Nat) (like : α → α → Prop) (key : α → String) (side : String → Bool)
    (t u : Table α) : Prop where
  injective : Function.Injective f
  found : ∀ {i a}, u.get? i = some a → ∃ b, t.get? (f i) = some b ∧ like a b ∧ side (key a) = true
  missing : ∀ {i}, u.get? i = none → t.get? (f i) = none
  numbers : t.numbers (side <| key ·) = (List.range u.size).map f

namespace Picks

/-- Nothing is picked where nothing is. -/
theorem empty (injective : Function.Injective f) :
    Picks f like key side (Table.empty : Table α) .empty where
  injective := injective
  found := fun found ↦ absurd found (by simp)
  missing := fun _ ↦ get?_empty _
  numbers := rfl

/-- Changing an entry in both tables in the same way. -/
theorem update (h : Picks f like key side t u) {g g' : α → α}
    (keys : ∀ {a b}, like a b → key b = key a)
    (same : ∀ {a b}, u.get? i = some a → like a b → like (g a) (g' b) ∧ key (g a) = key a) :
    Picks f like key side (t.update (f i) g') (u.update i g) where
  injective := h.injective
  found := by
    intro j a here
    rw [get?_update] at here
    split at here
    next same' =>
      subst same'
      obtain ⟨old, known, rfl⟩ := Option.map_eq_some_iff.mp here
      obtain ⟨b, there, alike, own⟩ := h.found known
      obtain ⟨alike, kept⟩ := same known alike
      refine ⟨g' b, ?_, alike, kept ▸ own⟩
      rw [get?_update, if_pos rfl, there, Option.map_some]
    next other =>
      obtain ⟨b, there, rest⟩ := h.found here
      refine ⟨b, ?_, rest⟩
      rw [get?_update, if_neg fun same' ↦ other (h.injective same'), there]
  missing := by
    intro j here
    rw [get?_update] at here ⊢
    by_cases same' : i = j
    · subst same'
      rw [if_pos rfl] at here ⊢
      rw [h.missing (Option.map_eq_none_iff.mp here), Option.map_none]
    · rw [if_neg same'] at here
      rw [if_neg fun same'' ↦ same' (h.injective same''), h.missing here]
  numbers := by
    rw [size_update, numbers_update, h.numbers]
    intro b there
    cases known : u.get? i with
    | none => exact absurd ((h.missing known).symm.trans there) (by simp)
    | some a =>
      obtain ⟨b', there', alike, -⟩ := h.found known
      obtain rfl := Option.some.inj (there.symm.trans there')
      obtain ⟨alike', kept⟩ := same known alike
      rw [keys alike', kept, keys alike]

/-- Adding an entry to both tables. -/
theorem push (h : Picks f like key side t u) (next : f u.size = t.size) (keys : key b = key a)
    (alike : like a b) (own : side (key a) = true) :
    Picks f like key side (t.push b) (u.push a) where
  injective := h.injective
  found := by
    intro j a' here
    rw [get?_push] at here
    split at here
    next new =>
      subst new
      obtain rfl := Option.some.inj here
      exact ⟨b, by rw [get?_push, if_pos next], alike, own⟩
    next old =>
      obtain ⟨b', there, rest⟩ := h.found here
      refine ⟨b', ?_, rest⟩
      rw [get?_push, if_neg (Nat.ne_of_lt (lt_size there)), there]
  missing := by
    intro j here
    rw [get?_push] at here ⊢
    split at here
    next => exact absurd here (by simp)
    next old =>
      rw [if_neg fun same ↦ old (h.injective (same.trans next.symm)), h.missing here]
  numbers := by
    rw [numbers_push, h.numbers, size_push, List.range_succ, List.map_append, keys, if_pos own,
      List.map_singleton, next]

/-- Changing the whole without changing an entry on the side. -/
theorem leave {t' : Table α} (h : Picks f like key side t u)
    (keys : ∀ {a b}, like a b → key b = key a) (more : t.size ≤ t'.size)
    (same : ∀ i a, side (key a) = true → (t'.get? i = some a ↔ t.get? i = some a))
    (own : ∀ i a, t'.get? (f i) = some a → side (key a) = true) :
    Picks f like key side t' u where
  injective := h.injective
  found := by
    intro i a here
    obtain ⟨b, there, alike, inside⟩ := h.found here
    exact ⟨b, (same _ b (keys alike ▸ inside)).mpr there, alike, inside⟩
  missing := by
    intro i here
    cases there : t'.get? (f i) with
    | none => rfl
    | some b =>
      have before := (same _ b (own i b there)).mp there
      exact absurd ((h.missing here).symm.trans before) (by simp)
  numbers := by
    rw [← h.numbers]
    refine numbers_congr more fun i ↦ ?_
    rw [Bool.eq_iff_iff, Option.any_eq_true, Option.any_eq_true]
    exact exists_congr fun a ↦ and_congr_left fun inside ↦ same i a inside

/-- The next entry on the side comes where it will be in the end. -/
theorem next {v : Table α} (h : Picks (v.place (side <| key ·)) like key side t u)
    (kept : ∀ i a, t.get? i = some a → ∃ b, v.get? i = some b ∧ key b = key a)
    (there : v.get? t.size = some b) (own : side (key b) = true) :
    v.place (side <| key ·) u.size = t.size := by
  have count : (t.numbers (side <| key ·)).length = u.size := by
    rw [h.numbers, List.length_map, List.length_range]
  rw [← count]
  refine place_next (fun i a here ↦ ?_) there own
  obtain ⟨b, since, same⟩ := kept i a here
  exact ⟨b, since, congrArg side same⟩

/-- If all keys are on the side, there are as many entries in both tables. -/
theorem size_eq (h : Picks f like key (fun _ ↦ true) t u) : t.size = u.size := by
  have same := congrArg List.length ((numbers_true t).symm.trans h.numbers)
  rwa [List.length_range, List.length_map, List.length_range] at same

/-- The numbers of the entries of a key on the side. -/
theorem numbers_key (h : Picks f like key side t u) (keys : ∀ {a b}, like a b → key b = key a)
    {k : String} (own : side k = true) :
    t.numbers (key · = k) = (u.numbers (key · = k)).map f := by
  have filtered : t.numbers (key · = k) =
      (t.numbers (side <| key ·)).filter fun i ↦ (t.get? i).any (key · = k) := by
    unfold Table.numbers
    rw [List.filter_filter]
    refine List.filter_congr fun i _ ↦ ?_
    cases t.get? i with
    | none => rfl
    | some a => by_cases same : key a = k <;> simp [same, own]
  rw [filtered, h.numbers, List.filter_map]
  unfold Table.numbers
  congr 1
  refine List.filter_congr fun i _ ↦ ?_
  cases known : u.get? i with
  | none => simp [h.missing known]
  | some a =>
    obtain ⟨b, there, alike, -⟩ := h.found known
    simp [there, keys alike]

end Picks

end Table

end Signatory.Service
