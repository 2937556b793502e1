import Signatory.Proofs.Service.Directory

/-!
# In the order of acceptance

A worker works on one request at a time, so it answers them in the order in which it accepts them;
only the request in its hand is accepted and not answered yet.
-/

namespace Signatory.Service.State

variable {s t : State} {τ : Task} {w v : WorkerId} {y z : Worker}

/-- Whose request is in the hand of a worker. -/
def client? (s : State) (w : WorkerId) : Option CallerId :=
  (s.workers.get? w).bind fun y ↦ y.activity.hand?.map (·.caller)

/-- A worker has answered what it has accepted, in the same order, but for the request that is in
its hand or was when it died. -/
def Settles (s : State) (w : WorkerId) : Prop :=
  ∃ client : Option CallerId,
    s.acceptances w = (s.history w).map (·.1) ++ client.toList ∧
      ((∀ y, s.workers.get? w = some y → y.activity ≠ .died) → client = s.client? w)

/-- What does not concern a worker leaves it as it was. -/
theorem Settles.congr (h : s.Settles w) (acceptances : t.acceptances w = s.acceptances w)
    (history : t.history w = s.history w) (client : t.client? w = s.client? w)
    (lives : (∀ y, t.workers.get? w = some y → y.activity ≠ .died) →
      ∀ y, s.workers.get? w = some y → y.activity ≠ .died) : t.Settles w := by
  obtain ⟨c, order, current⟩ := h
  refine ⟨c, ?_, fun alive ↦ ?_⟩
  · rw [acceptances, history]
    exact order
  · rw [client]
    exact current (lives alive)

/-- A worker that goes on with what it does has the same in its hand. -/
theorem Settles.same (h : s.Settles w)
    (activity : (t.workers.get? w).map (·.activity) = (s.workers.get? w).map (·.activity))
    (acceptances : t.acceptances w = s.acceptances w) (history : t.history w = s.history w) :
    t.Settles w := by
  apply h.congr acceptances history
  · unfold client?
    cases before : s.workers.get? w <;> cases after : t.workers.get? w <;>
      simp_all
  · intro alive y there
    rw [there, Option.map_some] at activity
    obtain ⟨z, there', same⟩ := Option.map_eq_some_iff.mp activity
    exact same ▸ alive z there'

/-- Workers go on with what they do if one of them is changed in another way. -/
theorem activity_set (found : s.workers.get? v = some y) (same : z.activity = y.activity)
    (w : WorkerId) :
    ((s.workers.set v z).get? w).map (·.activity) = (s.workers.get? w).map (·.activity) := by
  rw [Table.get?_set found]
  by_cases here : v = w
  · rw [if_pos here, ← here, found, Option.map_some, Option.map_some, same]
  · rw [if_neg here]

/-- A worker that is alive may accept and answer requests if this comes to what is in its hand. -/
theorem Settles.balance (h : s.Settles w) (accepted : List CallerId)
    (answered : List (CallerId × Result)) (client : Option CallerId)
    (found : s.workers.get? v = some y) (alive : y.activity ≠ .died)
    (workers : t.workers = s.workers.set v z)
    (acceptances : t.acceptances w = s.acceptances w ++ if v = w then accepted else [])
    (history : t.history w = s.history w ++ if v = w then answered else [])
    (balance : (y.activity.hand?.map (·.caller)).toList ++ accepted =
      answered.map (·.1) ++ client.toList)
    (current : z.activity ≠ .died → client = z.activity.hand?.map (·.caller)) : t.Settles w := by
  by_cases here : v = w
  · subst here
    obtain ⟨c, order, known⟩ := h
    have hand : c = y.activity.hand?.map (·.caller) := by
      have known := known fun x there ↦ Option.some.inj (found.symm.trans there) ▸ alive
      rw [known, client?, found, Option.bind_some]
    refine ⟨client, ?_, fun lives ↦ ?_⟩
    · rw [acceptances, history, if_pos rfl, if_pos rfl, order, hand, List.append_assoc, balance,
        List.map_append, List.append_assoc]
    · have there : t.workers.get? v = some z := by
        rw [workers, Table.get?_set_self found]
      rw [current (lives z there), client?, there, Option.bind_some]
  · rw [if_neg here, List.append_nil] at acceptances history
    apply h.congr acceptances history
    · rw [client?, client?, workers, Table.get?_set_ne here]
    · intro lives x there
      rw [workers, Table.get?_set_ne here] at lives
      exact lives x there

/-- Every change leaves what is answered in the order of what is accepted. -/
theorem Change.settles (filed : s.Filed) (h : s.Settles w) (change : Change s τ t) :
    t.Settles w := by
  have idle_hand {y : Worker} (idle : y.activity = .idle) :
      (y.activity.hand?.map (·.caller)).toList = [] := by
    rw [idle]
    rfl
  have idle_lives {y : Worker} (idle : y.activity = .idle) : y.activity ≠ .died := by simp [idle]
  cases change with
  | leave found idle =>
    refine h.balance [] [] none found (idle_lives idle) rfl ?_ ?_ ?_ fun _ ↦ rfl
    · rw [← no_more, acceptances, events, List.map_append, List.filterMap_append,
        acceptance?_returns]
      rfl
    · rw [← no_more, history, events, List.map_append, List.filterMap_append, answer?_returns]
      rfl
    · rw [idle_hand idle]
      rfl
  | @die v worker hand mailbox found cause =>
    refine h.balance [] [] (worker.activity.hand?.map (·.caller)) found ?_ rfl (no_more _ _)
      (no_more _ _) (List.append_nil _) fun alive ↦ absurd rfl alive
    intro died
    have live := cause.live
    rw [died] at live
    exact absurd live (by simp [Activity.isOver])
  | skip takes => exact h.same (activity_set takes.found (by rfl) w) rfl rfl
  | misroute takes waits foreign =>
    have inside := takes.envelopes ▸ List.mem_cons_self
    exact absurd (filed.matched takes.found inside) foreign
  | @connect v worker e rest deadline alarm k accepts =>
    refine h.balance [e.caller] [] (some e.caller) accepts.found (idle_lives accepts.idle) rfl
      acceptances_accepted (no_more _ _) ?_ fun _ ↦ rfl
    rw [idle_hand accepts.idle]
    rfl
  | @lookup v worker e rest deadline alarm i accepts =>
    refine h.balance [e.caller] [] (some e.caller) accepts.found (idle_lives accepts.idle) rfl
      acceptances_accepted (no_more _ _) ?_ fun _ ↦ rfl
    rw [idle_hand accepts.idle]
    rfl
  | @serve v worker e rest deadline done accepts =>
    refine h.balance [e.caller] [(e.caller, done.1)] none accepts.found (idle_lives accepts.idle)
      rfl acceptances_accepted history_answered ?_ fun _ ↦ rfl
    rw [idle_hand accepts.idle]
    rfl
  | @finish v worker e done ledgers found finishes =>
    refine h.balance [] [(e.caller, done.1)] none found ?_ rfl (no_more _ _) history_answered ?_
      fun _ ↦ rfl
    · intro died
      have live := finishes.live
      rw [died] at live
      exact absurd live (by simp [Activity.isOver])
    · rw [finishes.hand]
      rfl
  | @again v worker e attempt alarm next i j found syncing =>
    refine h.balance [] [] (some e.caller) found (by simp [syncing]) rfl (no_more _ _)
      (no_more _ _) ?_ fun _ ↦ rfl
    rw [syncing]
    rfl
  | spawn =>
    refine h.congr (by rfl) (by rfl) ?_ ?_
    · unfold client?
      rw [Table.get?_push]
      by_cases new : w = s.workers.size
      · rw [if_pos new, new, Table.get?_size]
        rfl
      · rw [if_neg new]
    · intro alive y there
      have old : w ≠ s.workers.size := Nat.ne_of_lt (Table.lt_size there)
      rw [Table.get?_push, if_neg old] at alive
      exact alive y there
  | push offers found => exact h.same (activity_set found (by rfl) w) rfl rfl
  | suspend offers found => exact h.same (activity_set found (by rfl) w) rfl rfl
  | occupy known suspended found => exact h.same (activity_set found (by rfl) w) rfl rfl
  | withdraw =>
    refine h.same ?_ rfl rfl
    rw [Table.get?_update]
    split
    next => cases s.workers.get? w <;> rfl
    next => rfl
  | _ => exact h.congr rfl rfl rfl id

/-- Every use leaves what is answered in the order of what is accepted. -/
theorem Use.settles (h : s.Settles w) (use : Use s t) : t.Settles w := by
  refine h.same ?_ (use.acceptances w) (use.silent w).1
  cases use with
  | remove =>
    rw [Table.get?_update]
    split
    next => cases s.workers.get? w <;> rfl
    next => rfl
  | shutdown serving cancelled =>
    dsimp only
    rw [cancelled w]
    cases s.workers.get? w <;> rfl
  | _ => rfl

/-- No worker has accepted anything at the start. -/
theorem settles_start (policy : Policy) (connector : Ledger.Connector) (w : WorkerId) :
    (start policy connector).Settles w := by
  have missing : (start policy connector).workers.get? w = none := Table.get?_empty w
  exact ⟨none, rfl, fun _ ↦ by rw [client?, missing]; rfl⟩

/-- A worker answers in the order in which it accepts, in every state that can come about. -/
theorem Reachable.settles (h : s.Reachable) (w : WorkerId) : s.Settles w := by
  have kept := Reachable.invariant (P := fun s ↦ s.Ordered ∧ s.Settles w)
    (fun policy connector ↦ ⟨ordered_start policy connector, settles_start policy connector w⟩)
    (fun h change ↦ ⟨change.ordered h.1, change.settles h.1.filed h.2⟩)
    (fun h use ↦ ⟨use.ordered h.1, use.settles h.2⟩) h
  exact kept.2

end Signatory.Service.State
