import Signatory.Proofs.Service.Effects

/-!
# Who is woken

Tasks become ready one after the other, behind those that are ready already, and nothing that a task
does takes another out of the schedule. `Wakes` says of two states that the second comes from the
first by waking tasks of one kind only, and by setting limits that come after all earlier ones; and
that nobody is forgotten: whoever has a new place or a reply is woken, and so is whoever no longer
waits for a place.
-/

namespace Signatory.Service.State

variable {s t u : State} {P Q : Task → Prop} {τ : Task} {w : WorkerId} {c : CallerId}

/-- Whether a task is ready to run, in its turn or before all others. -/
def Called (s : State) (τ : Task) : Prop :=
  τ ∈ s.ready ∨ s.foreground.map .caller = some τ ∧ s.isSummoned = true

/-- The second state comes from the first by waking tasks with `P` only; the running task may rest,
whoever has a new place or a reply is called, whoever waits for a place goes on waiting, is called
or runs, and limits that are set come after all earlier ones. -/
structure Wakes (P : Task → Prop) (s t : State) : Prop where
  running : t.running = s.running ∨ t.running = none
  foreground : t.foreground = s.foreground
  summoned : s.isSummoned = true → t.isSummoned = true
  tickets : s.tickets ≤ t.tickets
  ready : ∃ woken, t.ready = s.ready ++ woken ∧ woken.Nodup ∧
    ∀ τ ∈ woken, τ ∉ s.ready ∧ s.foreground.map .caller ≠ some τ ∧ P τ
  places : ∀ c w z, t.workers.get? w = some z → c ∈ z.mailbox.reserved →
    t.Called (.caller c) ∨ ∃ y, s.workers.get? w = some y ∧ c ∈ y.mailbox.reserved
  replies : ∀ c x w r, t.callers.get? c = some x → x.phase = .replied w r →
    t.Called (.caller c) ∨ ∃ old, s.callers.get? c = some old ∧ old.phase = .replied w r
  lines : ∀ c w y, s.workers.get? w = some y → c ∈ y.mailbox.waiting →
    s.running = some (.caller c) ∨ t.Called (.caller c) ∨
      ∃ z, t.workers.get? w = some z ∧ c ∈ z.mailbox.waiting
  limits : ∀ c x l, t.callers.get? c = some x → x.limit = some l →
    (∃ old, s.callers.get? c = some old ∧ old.limit = some l) ∨
      s.tickets ≤ l.ticket ∧ l.ticket < t.tickets

/-- A task that is woken is called. -/
theorem called_wake (s : State) (τ : Task) : (s.wake τ).Called τ := by
  unfold State.wake
  split
  next front => exact .inr ⟨front, rfl⟩
  next =>
    split
    next there => exact .inl there
    next => exact .inl (List.mem_append_right _ (List.mem_singleton.mpr rfl))

/-- Whoever is called stays so when another task is woken. -/
theorem called_of_wake (υ : Task) (called : s.Called τ) : (s.wake υ).Called τ := by
  unfold State.wake
  split
  next => exact called.imp id fun ⟨front, _⟩ ↦ ⟨front, rfl⟩
  next =>
    split
    next => exact called
    next => exact called.imp (List.mem_append_left _) id

/-- Whoever is woken waits for the one who runs. -/
@[simp] theorem running_wake (s : State) (τ : Task) : (s.wake τ).running = s.running := by
  unfold wake
  split
  next => rfl
  next =>
    split
    next => rfl
    next => rfl

/-- Waking a task and changing a worker do not interfere. -/
theorem wake_updateWorker (s : State) (τ : Task) (w : WorkerId) (f : Worker → Worker) :
    (s.updateWorker w f).wake τ = (s.wake τ).updateWorker w f := by
  unfold State.wake State.updateWorker
  dsimp only
  split
  next => rfl
  next => split <;> rfl

/-- Waking a task and changing a caller do not interfere. -/
theorem wake_updateCaller (s : State) (τ : Task) (c : CallerId) (f : Caller → Caller) :
    (s.updateCaller c f).wake τ = (s.wake τ).updateCaller c f := by
  unfold State.wake State.updateCaller
  dsimp only
  split
  next => rfl
  next => split <;> rfl

/-- Waking a task and recording an event do not interfere. -/
theorem wake_log (s : State) (τ : Task) (event : Event) :
    (s.log event).wake τ = (s.wake τ).log event := by
  unfold State.wake State.log
  dsimp only
  split
  next => rfl
  next => split <;> rfl

theorem wakeCallers_updateWorker (s : State) (cs : List CallerId) (w : WorkerId)
    (f : Worker → Worker) :
    (s.updateWorker w f).wakeCallers cs = (s.wakeCallers cs).updateWorker w f := by
  induction cs generalizing s with
  | nil => rfl
  | cons c cs ih =>
    simp only [wakeCallers, List.foldl_cons, wake_updateWorker] at ih ⊢
    exact ih _

/-- All tasks that are woken are called. -/
theorem called_wakeAll {τs : List Task} (inside : τ ∈ τs) (s : State) :
    (τs.foldl wake s).Called τ := by
  induction τs generalizing s with
  | nil => exact absurd inside List.not_mem_nil
  | cons υ τs ih =>
    rcases List.mem_cons.mp inside with rfl | later
    · have stays (τs : List Task) (t : State) (called : t.Called τ) :
          (τs.foldl wake t).Called τ := by
        induction τs generalizing t with
        | nil => exact called
        | cons υ τs ih => exact ih _ (called_of_wake _ called)
      exact stays τs _ (called_wake s τ)
    · exact ih later _

/-- All callers that are woken are called. -/
theorem called_wakeCallers {cs : List CallerId} (inside : c ∈ cs) (s : State) :
    (s.wakeCallers cs).Called (.caller c) := by
  have same : s.wakeCallers cs = (cs.map Task.caller).foldl wake s := by
    rw [wakeCallers, List.foldl_map]
  rw [same]
  exact called_wakeAll (List.mem_map_of_mem inside) s

theorem workers_wakeCallers (s : State) (cs : List CallerId) :
    (s.wakeCallers cs).workers = s.workers := by
  have same := congrArg State.workers (bare_wakeCallers s cs)
  exact same

theorem wakeCallers_log (s : State) (cs : List CallerId) (event : Event) :
    (s.log event).wakeCallers cs = (s.wakeCallers cs).log event := by
  induction cs generalizing s with
  | nil => rfl
  | cons c cs ih =>
    simp only [wakeCallers, List.foldl_cons, wake_log] at ih ⊢
    exact ih _

namespace Wakes

theorem refl (s : State) : Wakes P s s where
  running := .inl rfl
  foreground := rfl
  summoned := id
  tickets := Nat.le_refl _
  ready := ⟨[], (List.append_nil _).symm, .nil, by simp⟩
  places := fun c w z found place ↦ .inr ⟨z, found, place⟩
  replies := fun c x w r found replied ↦ .inr ⟨x, found, replied⟩
  lines := fun c w y found waits ↦ .inr (.inr ⟨y, found, waits⟩)
  limits := fun c x l found limit ↦ .inl ⟨x, found, limit⟩

/-- Whoever is called stays so. -/
theorem called (h : Wakes P s t) (called : s.Called τ) : t.Called τ := by
  rcases called with there | ⟨foreground, summoned⟩
  · obtain ⟨woken, ready, -⟩ := h.ready
    exact .inl (ready ▸ List.mem_append_left _ there)
  · exact .inr ⟨h.foreground.symm ▸ foreground, h.summoned summoned⟩

theorem trans (first : Wakes P s t) (second : Wakes P t u) : Wakes P s u where
  running := by
    rcases second.running with same | rests
    · rw [same]
      exact first.running
    · exact .inr rests
  foreground := second.foreground.trans first.foreground
  summoned := second.summoned ∘ first.summoned
  tickets := Nat.le_trans first.tickets second.tickets
  ready := by
    obtain ⟨before, ready, distinct, woken⟩ := first.ready
    obtain ⟨after, ready', distinct', woken'⟩ := second.ready
    refine ⟨before ++ after, by rw [ready', ready, List.append_assoc], ?_, ?_⟩
    · refine List.nodup_append.mpr ⟨distinct, distinct', ?_⟩
      intro a early b late same
      apply (woken' b late).1
      rw [ready, ← same]
      exact List.mem_append_right _ early
    · intro τ inside
      rcases List.mem_append.mp inside with early | late
      · exact woken τ early
      · have ⟨idle, apart, holds⟩ := woken' τ late
        rw [ready] at idle
        exact ⟨fun there ↦ idle (List.mem_append_left _ there), first.foreground ▸ apart, holds⟩
  places := by
    intro c w z found place
    rcases second.places c w z found place with woken | ⟨y, found', place'⟩
    · exact .inl woken
    · exact (first.places c w y found' place').imp second.called id
  replies := by
    intro c x w r found replied
    rcases second.replies c x w r found replied with woken | ⟨old, found', replied'⟩
    · exact .inl woken
    · exact (first.replies c old w r found' replied').imp second.called id
  lines := by
    intro c w y found waits
    rcases first.lines c w y found waits with runs | woken | ⟨z, found', waits'⟩
    · exact .inl runs
    · exact .inr (.inl (second.called woken))
    · rcases second.lines c w z found' waits' with runs | later
      · rcases first.running with same | rests
        · exact .inl (same.symm.trans runs)
        · exact absurd (rests.symm.trans runs) (by simp)
      · exact .inr later
  limits := by
    intro c x l found limit
    have grows := first.tickets
    have grows' := second.tickets
    rcases second.limits c x l found limit with ⟨old, found', limit'⟩ | ⟨low, high⟩
    · rcases first.limits c old l found' limit' with before | ⟨low, high⟩
      · exact .inl before
      · exact .inr ⟨low, by omega⟩
    · exact .inr ⟨by omega, high⟩

/-- What is no part of the schedule may change. -/
theorem frame (h : Wakes P s t) (running : u.running = t.running ∨ u.running = none)
    (ready : u.ready = t.ready) (foreground : u.foreground = t.foreground)
    (summoned : u.isSummoned = t.isSummoned) (tickets : u.tickets = t.tickets)
    (workers : u.workers = t.workers) (callers : u.callers = t.callers) : Wakes P s u := by
  apply h.trans
  exact {
    running
    foreground
    summoned := fun there ↦ summoned.trans there
    tickets := Nat.le_of_eq tickets.symm
    ready := ⟨[], by rw [ready, List.append_nil], .nil, by simp⟩
    places := fun c w z found place ↦ .inr ⟨z, workers ▸ found, place⟩
    replies := fun c x w r found replied ↦ .inr ⟨x, callers ▸ found, replied⟩
    lines := fun c w y found waits ↦ .inr (.inr ⟨y, workers.symm ▸ found, waits⟩)
    limits := fun c x l found limit ↦ .inl ⟨x, callers ▸ found, limit⟩ }

theorem log (h : Wakes P s t) (event : Event) : Wakes P s (t.log event) :=
  h.frame (.inl rfl) rfl rfl rfl rfl rfl rfl

theorem count (h : Wakes P s t) (f : Stats → Stats) : Wakes P s (t.count f) :=
  h.frame (.inl rfl) rfl rfl rfl rfl rfl rfl

theorem rest (h : Wakes P s t) : Wakes P s t.rest :=
  h.frame (.inr rfl) rfl rfl rfl rfl rfl rfl

/-- A worker may change if whoever has a new place in its mailbox has been called, and whoever waits
there goes on waiting, has been called or runs. -/
theorem updateWorker (h : Wakes P s t) (w : WorkerId) {f : Worker → Worker}
    (places : ∀ y c, t.workers.get? w = some y → c ∈ (f y).mailbox.reserved →
      t.Called (.caller c) ∨ c ∈ y.mailbox.reserved)
    (lines : ∀ y c, t.workers.get? w = some y → c ∈ y.mailbox.waiting →
      t.running = some (.caller c) ∨ t.Called (.caller c) ∨ c ∈ (f y).mailbox.waiting) :
    Wakes P s (t.updateWorker w f) := by
  apply h.trans
  refine { refl t with places := ?_, lines := ?_ }
  · intro c v z found place
    have found : (t.workers.update w f).get? v = some z := found
    obtain ⟨y, found', ⟨rfl, rfl⟩ | ⟨-, rfl⟩⟩ := Table.of_update found
    · exact (places y c found' place).imp id fun before ↦ ⟨y, found', before⟩
    · exact .inr ⟨z, found', place⟩
  · intro c v y found waits
    have now : (t.updateWorker w f).workers.get? v =
        if w = v then (t.workers.get? v).map f else t.workers.get? v := Table.get?_update _ _ _ _
    rw [now, found]
    split
    next same =>
      subst same
      exact (lines y c found waits).imp id (Or.imp id fun after ↦ ⟨f y, rfl, after⟩)
    next => exact .inr (.inr ⟨y, rfl, waits⟩)

/-- A worker may change if its mailbox keeps the places and those who wait for one. -/
theorem mailbox (h : Wakes P s t) (w : WorkerId) {f : Worker → Worker}
    (reserved : ∀ y, t.workers.get? w = some y → (f y).mailbox.reserved ⊆ y.mailbox.reserved)
    (waiting : ∀ y, t.workers.get? w = some y → y.mailbox.waiting ⊆ (f y).mailbox.waiting) :
    Wakes P s (t.updateWorker w f) :=
  h.updateWorker w (fun y _ found place ↦ .inr (reserved y found place))
    fun y _ found waits ↦ .inr (.inr (waiting y found waits))

/-- A worker may change if it keeps its mailbox. -/
theorem act (h : Wakes P s t) (w : WorkerId) {f : Worker → Worker}
    (same : ∀ y, (f y).mailbox = y.mailbox) : Wakes P s (t.updateWorker w f) := by
  apply h.mailbox w
  · intro y _
    rw [same y]
    exact List.Subset.refl _
  · intro y _
    rw [same y]
    exact List.Subset.refl _

theorem detach (h : Wakes P s t) (key : String) (w : WorkerId) :
    Wakes P s (t.detach key w).2 := by
  unfold State.detach
  split
  next => exact h.frame (.inl rfl) rfl rfl rfl rfl rfl rfl
  next => exact h

/-- A caller may change if it keeps its limit and gets no reply. -/
theorem updateCaller (h : Wakes P s t) (c : CallerId) {f : Caller → Caller}
    (same : ∀ x, (f x).limit = x.limit)
    (silent : ∀ x w r, (f x).phase = .replied w r → x.phase = .replied w r) :
    Wakes P s (t.updateCaller c f) := by
  apply h.trans
  have before {d : CallerId} {x : Caller} (found : (t.updateCaller c f).callers.get? d = some x) :
      ∃ old, t.callers.get? d = some old ∧ (x = old ∨ x = f old) := by
    have found : (t.callers.update c f).get? d = some x := found
    obtain ⟨old, found', ⟨-, rfl⟩ | ⟨-, rfl⟩⟩ := Table.of_update found
    · exact ⟨old, found', .inr rfl⟩
    · exact ⟨x, found', .inl rfl⟩
  refine { refl t with replies := ?_, limits := ?_ }
  · intro d x w r found replied
    obtain ⟨old, found', rfl | rfl⟩ := before found
    · exact .inr ⟨_, found', replied⟩
    · exact .inr ⟨old, found', silent old w r replied⟩
  · intro d x l found limit
    obtain ⟨old, found', rfl | rfl⟩ := before found
    · exact .inl ⟨_, found', limit⟩
    · exact .inl ⟨old, found', (same old).symm.trans limit⟩

/-- A ticket is given out for a moment. -/
theorem alarmAfter (h : Wakes P s t) (wait : Nat) : Wakes P s (t.alarmAfter wait).2 := by
  apply h.trans
  exact { refl t with
    tickets := Nat.le_succ _
    limits := fun c x l found limit ↦ .inl ⟨x, found, limit⟩ }

/-- A task with `P` may be woken. -/
theorem wake (h : Wakes P s t) (holds : P τ) : Wakes P s (t.wake τ) := by
  apply h.trans
  unfold State.wake
  split
  next =>
    exact { refl t with
      summoned := fun _ ↦ rfl
      places := fun c w z found place ↦ .inr ⟨z, found, place⟩
      replies := fun c x w r found replied ↦ .inr ⟨x, found, replied⟩
      lines := fun c w y found waits ↦ .inr (.inr ⟨y, found, waits⟩) }
  next other =>
    split
    next => exact refl t
    next idle =>
      refine { (refl t : Wakes P t t) with
        ready := ⟨[τ], rfl, List.pairwise_singleton _ τ, ?_⟩
        places := fun c w z found place ↦ .inr ⟨z, found, place⟩
        replies := fun c x w r found replied ↦ .inr ⟨x, found, replied⟩
        lines := fun c w y found waits ↦ .inr (.inr ⟨y, found, waits⟩) }
      intro υ inside
      obtain rfl := List.mem_singleton.mp inside
      exact ⟨idle, other, holds⟩

theorem wakeCallers (h : Wakes P s t) {cs : List CallerId} (holds : ∀ c ∈ cs, P (.caller c)) :
    Wakes P s (t.wakeCallers cs) := by
  induction cs generalizing t with
  | nil => exact h
  | cons c cs ih =>
    exact ih (h.wake (holds c List.mem_cons_self))
      fun d inside ↦ holds d (List.mem_cons_of_mem c inside)

theorem wakeWorker (h : Wakes P s t) (holds : P (.worker w)) : Wakes P s (t.wakeWorker w) := by
  unfold State.wakeWorker
  split
  next =>
    split
    next => exact h.wake holds
    next => exact h
  next => exact h

/-- A worker that is told to leave may be woken. -/
theorem cancel (h : Wakes P s t) (holds : ∀ y, t.workers.get? w = some y → P (.worker w)) :
    Wakes P s (t.cancel w) := by
  unfold State.cancel State.wakeWorker
  have told := h.act w (f := fun y ↦ { y with cancelled := true }) fun _ ↦ rfl
  split
  next z found =>
    have found : (t.workers.update w fun y ↦ { y with cancelled := true }).get? w = some z := found
    obtain ⟨y, there, -⟩ := Table.of_update_self found
    split
    next => exact told.wake (holds y there)
    next => exact told
  next => exact told

theorem cancelAll (h : Wakes P s t) {ws : List WorkerId} (holds : ∀ w ∈ ws, P (.worker w)) :
    Wakes P s (ws.foldl State.cancel t) := by
  induction ws generalizing t with
  | nil => exact h
  | cons w ws ih =>
    exact ih (h.cancel fun _ _ ↦ holds w List.mem_cons_self)
      fun v inside ↦ holds v (List.mem_cons_of_mem w inside)

theorem wakeAll (h : Wakes P s t) {ts : List Task} (holds : ∀ τ ∈ ts, P τ) :
    Wakes P s (ts.foldl State.wake t) := by
  induction ts generalizing t with
  | nil => exact h
  | cons τ ts ih =>
    exact ih (h.wake (holds τ List.mem_cons_self))
      fun υ inside ↦ holds υ (List.mem_cons_of_mem τ inside)

/-- A caller may be added. -/
theorem addCaller (h : Wakes P s t) (key : String) (request : Request) :
    Wakes P s (t.addCaller { key, request }).2 := by
  apply h.trans
  have before {c : CallerId} {x : Caller}
      (found : (t.addCaller { key, request }).2.callers.get? c = some x) :
      x = { key, request } ∨ t.callers.get? c = some x := by
    have found : (t.callers.push { key, request }).get? c = some x := found
    exact (Table.of_push found).imp_left fun new ↦ new.2.1
  refine { refl t with
    places := fun c w z found place ↦ .inr ⟨z, found, place⟩
    replies := fun c x w r found replied ↦ ?_
    lines := fun c w y found waits ↦ .inr (.inr ⟨y, found, waits⟩)
    limits := fun c x l found limit ↦ ?_ }
  · rcases before found with rfl | old
    · exact absurd replied (by simp)
    · exact .inr ⟨x, old, replied⟩
  · rcases before found with rfl | old
    · exact absurd limit (by simp)
    · exact .inl ⟨x, old, limit⟩

/-- A caller that gets a reply is woken. -/
theorem deliver (h : Wakes P s t) (holds : P (.caller c)) (r : Reply) :
    Wakes P s (t.deliver w c r) := by
  unfold State.deliver
  split
  next =>
    rw [wake_updateCaller]
    have woken := (refl t).wake holds
    have called := called_wake t (.caller c)
    have callers : (t.wake (.caller c)).bare.callers = t.bare.callers := by rw [bare_wake]
    have callers : (t.wake (.caller c)).callers = t.callers := callers
    have before {d : CallerId} {x : Caller}
        (found : ((t.wake (.caller c)).updateCaller c fun x ↦
          { x with phase := .replied w r }).callers.get? d = some x) :
        c = d ∧ (∃ old, t.callers.get? d = some old ∧ x.limit = old.limit) ∨
          t.callers.get? d = some x := by
      have found : ((t.wake (.caller c)).callers.update c _).get? d = some x := found
      rw [callers] at found
      obtain ⟨old, found', ⟨same, rfl⟩ | ⟨-, rfl⟩⟩ := Table.of_update found
      · exact .inl ⟨same, old, found', rfl⟩
      · exact .inr found'
    apply h.trans
    refine { woken with places := woken.places, replies := ?_, lines := woken.lines, limits := ?_ }
    · intro d x v q found replied
      rcases before found with ⟨rfl, -⟩ | old
      · exact .inl called
      · exact .inr ⟨x, old, replied⟩
    · intro d x l found limit
      rcases before found with ⟨-, old, found', same⟩ | old
      · exact .inl ⟨old, found', same.symm.trans limit⟩
      · exact .inl ⟨x, old, limit⟩
  next => exact h

theorem deliverAll (h : Wakes P s t) {es : List Envelope} (holds : ∀ e ∈ es, P (.caller e.caller))
    (r : Reply) : Wakes P s (es.foldl (fun s e ↦ s.deliver w e.caller r) t) := by
  induction es generalizing t with
  | nil => exact h
  | cons e es ih =>
    exact ih (h.deliver (holds e List.mem_cons_self) r)
      fun f inside ↦ holds f (List.mem_cons_of_mem e inside)

theorem handBackAll (h : Wakes P s t) {es : List Envelope}
    (holds : ∀ e ∈ es, P (.caller e.caller)) :
    Wakes P s (es.foldl (fun s e ↦ s.handBack w e) t) := by
  have handBack {t : State} (h : Wakes P s t) {e : Envelope} (holds : P (.caller e.caller)) :
      Wakes P s (t.handBack w e) := by
    unfold State.handBack
    split
    next => exact (h.log _).deliver holds _
    next => exact h
  induction es generalizing t with
  | nil => exact h
  | cons e es ih =>
    exact ih (handBack h (holds e List.mem_cons_self))
      fun f inside ↦ holds f (List.mem_cons_of_mem e inside)

/-- When a mailbox is closed everyone who waits for a place in it is woken. -/
theorem closeMailbox (h : Wakes P s t) {mailbox : Mailbox}
    (all : ∀ y, t.workers.get? w = some y → y.mailbox.waiting ⊆ mailbox.waiting)
    (holds : ∀ c ∈ mailbox.waiting, P (.caller c)) : Wakes P s (t.closeMailbox w mailbox) := by
  unfold State.closeMailbox
  rw [wakeCallers_log, wakeCallers_updateWorker]
  refine ((h.wakeCallers holds).updateWorker w ?_ ?_).log _
  · exact fun _ _ _ place ↦ absurd place List.not_mem_nil
  · intro y c found waits
    rw [workers_wakeCallers] at found
    exact .inr (.inl (called_wakeCallers (all y found waits) t))

/-- A worker that leaves wakes those who wait for a place and those to whom it hands something
back. -/
theorem leave (h : Wakes P s t) {worker : Worker} (reason : ExitReason)
    (all : ∀ y, t.workers.get? w = some y → y.mailbox.waiting ⊆ worker.mailbox.waiting)
    (waiting : ∀ c ∈ worker.mailbox.waiting, P (.caller c))
    (queue : ∀ e ∈ worker.mailbox.queue, P (.caller e.caller)) :
    Wakes P s (t.leave w worker reason) := by
  have hooked : Wakes P s (t.hook w worker.key reason) := by
    unfold State.hook countExit
    cases reason with
    | idleTimeout => exact ((h.log _).detach _ _).count _
    | aborted => exact ((h.log _).detach _ _).count _
    | removed => exact (h.log _).detach _ _
    | shutdown => exact (h.log _).detach _ _
  have same : (t.hook w worker.key reason).workers = t.workers := by
    have same := congrArg State.workers (bare_hook (s := t) (w := w) worker.key reason)
    exact same
  have closed : Wakes P s ((t.hook w worker.key reason).closeMailbox w worker.mailbox) :=
    hooked.closeMailbox (fun y found ↦ all y (same ▸ found)) waiting
  exact ((closed.handBackAll queue).act w (by exact fun _ ↦ rfl)).rest

/-- A worker that dies wakes those who wait for a place and those whose envelopes it has. -/
theorem die (h : Wakes P s t) {worker : Worker} {hand : Envelope}
    (all : ∀ y, t.workers.get? w = some y → y.mailbox.waiting ⊆ worker.mailbox.waiting)
    (inHand : P (.caller hand.caller)) (waiting : ∀ c ∈ worker.mailbox.waiting, P (.caller c))
    (queue : ∀ e ∈ worker.mailbox.queue, P (.caller e.caller)) :
    Wakes P s (t.die w worker hand) := by
  have told := (h.log (.died w)).deliver (w := w) inHand .lost
  have same : ((t.log (.died w)).deliver w hand.caller .lost).workers = t.workers := by
    have same := congrArg State.workers
      (bare_deliver (s := t.log (.died w)) (w := w) (c := hand.caller) .lost)
    exact same
  have closed : Wakes P s
      (((t.log (.died w)).deliver w hand.caller .lost).closeMailbox w worker.mailbox) :=
    told.closeMailbox (fun y found ↦ all y (same ▸ found)) waiting
  exact ((closed.deliverAll queue _).act w (by exact fun _ ↦ rfl)).rest

theorem respond (h : Wakes P s t) {e : Envelope} (holds : P (.caller e.caller)) (r : Result) :
    Wakes P s (t.respond w e r) :=
  (h.log _).deliver holds _

theorem complete (h : Wakes P s t) {e : Envelope} (holds : P (.caller e.caller))
    (done : Result × Option Identity) : Wakes P s (t.complete w e done) :=
  (h.act w (by exact fun _ ↦ rfl)).respond holds _

theorem beginLookup (h : Wakes P s t) (e : Envelope) (attempt wait : Nat) :
    Wakes P s (t.beginLookup w e attempt wait) :=
  (h.alarmAfter wait).act w (by exact fun _ ↦ rfl)

/-- A worker that begins to work on a request wakes its caller only. -/
theorem handle (h : Wakes P s t) {e : Envelope} (holds : P (.caller e.caller)) (worker : Worker) :
    Wakes P s (t.handle w worker e) := by
  unfold State.handle
  dsimp only
  split
  next k _ =>
    exact ((h.log _).alarmAfter ((t.log (.accepted e.caller w)).connector k.endpoint).wait).act w
      (by exact fun _ ↦ rfl)
  next => exact (h.log _).complete holds _
  next => exact (h.log _).complete holds _
  next =>
    split
    next => exact (h.log _).complete holds _
    next => exact (h.log _).beginLookup e 1 0

theorem ensureLedger (h : Wakes P s t) (place : Ledger.Place) : Wakes P s (t.ensureLedger place) := by
  cases place <;> exact h.frame (.inl rfl) rfl rfl rfl rfl rfl rfl

theorem lookup (h : Wakes P s t) (place : Ledger.Place) (a : Address) :
    Wakes P s (t.lookup place a).2 := by
  cases place <;> exact h.frame (.inl rfl) rfl rfl rfl rfl rfl rfl

/-- Whoever has a place reserved is woken. -/
theorem grant (h : Wakes P s t) {y : Worker} (found : t.workers.get? w = some y) {m : Mailbox}
    (fewer : m.reserved ⊆ y.mailbox.reserved)
    (lines : ∀ d ∈ y.mailbox.waiting, t.running = some (.caller d) ∨ d ∈ m.waiting)
    (holds : ∀ c, m.grant.1 = some c → P (.caller c)) :
    Wakes P s
      ((t.updateWorker w fun y ↦ { y with mailbox := m.grant.2 }).wakeCallers m.grant.1.toList) := by
  have called {d : CallerId} (granted : m.grant.1 = some d) :
      (t.wakeCallers m.grant.1.toList).Called (.caller d) :=
    called_wakeCallers (by simp [granted]) t
  have woken : Wakes P s (t.wakeCallers m.grant.1.toList) :=
    h.wakeCallers fun c inside ↦ holds c (by simpa using inside)
  have runs : (t.wakeCallers m.grant.1.toList).running = t.running := by
    cases m.grant.1 with
    | none => rfl
    | some c => exact running_wake t (.caller c)
  rw [wakeCallers_updateWorker]
  refine woken.updateWorker w (fun z d found' place ↦ ?_) fun z d found' waits ↦ ?_
  · rw [workers_wakeCallers, found] at found'
    obtain rfl := Option.some.inj found'
    exact (Mailbox.reserved_before_grant place).imp called fun old ↦ fewer old
  · rw [workers_wakeCallers, found] at found'
    obtain rfl := Option.some.inj found'
    rw [runs]
    rcases lines d waits with same | waits
    · exact .inl same
    · exact .inr ((Mailbox.waiting_after_grant waits).imp called id)

/-- A worker that has taken something out of its mailbox wakes the one for whom it reserves the
place. -/
theorem grantPlace (h : Wakes P s t) {y : Worker} (found : t.workers.get? w = some y) {m : Mailbox}
    (fewer : m.reserved ⊆ y.mailbox.reserved) (more : y.mailbox.waiting ⊆ m.waiting)
    (holds : ∀ c, m.grant.1 = some c → P (.caller c)) :
    Wakes P s ((t.updateWorker w fun y ↦ { y with mailbox := m }).grantPlace w) := by
  have kept : Wakes P s (t.updateWorker w fun y ↦ { y with mailbox := m }) := by
    apply h.mailbox w
    · exact fun z found' ↦ Option.some.inj (found.symm.trans found') ▸ fewer
    · exact fun z found' ↦ Option.some.inj (found.symm.trans found') ▸ more
  unfold State.grantPlace
  split
  next => exact kept
  next z there =>
    have there : (t.workers.update w fun y ↦ { y with mailbox := m }).get? w = some z := there
    obtain rfl := Option.some.inj ((Table.get?_update_self found).symm.trans there)
    split
    next => exact kept
    next c mailbox granted =>
      have granted : m.grant = (some c, mailbox) := granted
      have given := h.grant found fewer (fun d waits ↦ .inr (more waits)) holds
      rw [granted] at given
      have same : ((t.updateWorker w fun y ↦ { y with mailbox := m }).updateWorker w fun y ↦
          { y with mailbox }) = t.updateWorker w fun y ↦ { y with mailbox } := by
        unfold State.updateWorker
        rw [Table.update_update]
        rfl
      rw [same]
      exact given

/-- A caller who leaves the line of a mailbox wakes the next in line, and perhaps the worker. -/
theorem withdraw (h : Wakes P s t) {x : Caller} (runs : t.running = some (.caller c))
    (worker : ∀ w y, t.workers.get? w = some y → P (.worker w))
    (next : ∀ w y d, x.phase = .suspended w → t.workers.get? w = some y →
      (y.mailbox.withdraw c).grant.1 = some d → P (.caller d)) : Wakes P s (t.withdraw c x) := by
  unfold State.withdraw
  split
  next w suspended =>
    split
    next => exact h
    next y found =>
      have lines (d : CallerId) (waits : d ∈ y.mailbox.waiting) :
          t.running = some (.caller d) ∨ d ∈ (y.mailbox.withdraw c).waiting := by
        by_cases same : d = c
        · exact .inl (same ▸ runs)
        · exact .inr ((List.mem_erase_of_ne same).mpr waits)
      have woken := h.grant found (m := y.mailbox.withdraw c) List.erase_subset lines
        fun d ↦ next w y d suspended found
      dsimp only
      split
      next => exact woken.wakeWorker (worker w y found)
      next => exact woken
  next => exact h

theorem conclude (h : Wakes P s t) (c : CallerId) (e : Ending) : Wakes P s (t.conclude c e) :=
  ((h.updateCaller c (by exact fun _ ↦ rfl) fun _ _ _ ↦ Phase.noConfusion).log _).rest

theorem retry (h : Wakes P s t) (c : CallerId) : Wakes P s (t.retry c) :=
  h.updateCaller c (by exact fun _ ↦ rfl) fun _ _ _ ↦ Phase.noConfusion

theorem turnedAway (h : Wakes P s t) (c : CallerId) (x : Caller) (w : WorkerId) :
    Wakes P s (t.turnedAway c x w) := by
  unfold State.turnedAway
  split
  next => exact h.conclude c _
  next => exact (h.detach _ _).retry c

/-- A caller whose envelope goes into a mailbox wakes the worker only. -/
theorem enqueue (h : Wakes P s t) (holds : P (.worker w)) (x : Caller)
    {put : Mailbox → Envelope → Mailbox} (fewer : ∀ m e, (put m e).reserved ⊆ m.reserved)
    (same : ∀ m e, (put m e).waiting = m.waiting) : Wakes P s (t.enqueue c x w put) := by
  have put : Wakes P s (t.updateWorker w fun y ↦
      { y with mailbox := put y.mailbox ⟨x.key, x.request, c⟩ }) :=
    h.mailbox w (by exact fun y _ ↦ fewer y.mailbox _)
      (by exact fun y _ _ waits ↦ (same y.mailbox _).symm ▸ waits)
  exact ((put.updateCaller c (by exact fun _ ↦ rfl) fun _ _ _ ↦ Phase.noConfusion).log
    _).wakeWorker holds

theorem offer (h : Wakes P s t) (holds : ∀ y, t.workers.get? w = some y → P (.worker w))
    (c : CallerId) (x : Caller) : Wakes P s (t.offer c x w) := by
  unfold State.offer
  dsimp only
  have offered := h.log (.offered c w)
  split
  next => exact offered.turnedAway c x w
  next y found =>
    split
    next => exact offered.turnedAway c x w
    next =>
      split
      next => exact offered.enqueue (holds y found) x (fun _ _ ↦ List.Subset.refl _) fun _ _ ↦ rfl
      next =>
        have suspends := offered.mailbox w (f := fun y ↦ { y with mailbox := y.mailbox.suspend c })
          (fun _ _ ↦ List.Subset.refl _) fun _ _ ↦ List.subset_append_left _ _
        exact suspends.updateCaller c (by exact fun _ ↦ rfl) fun _ _ _ ↦ Phase.noConfusion

/-- Only a worker that is created is woken. -/
theorem spawn (h : Wakes P s t) (holds : P (.worker t.workers.size)) (key : String) :
    Wakes P s (t.spawn key).2 := by
  have created : Wakes P s { (t.alarmAfter t.policy.idleTimeout).2 with
      workers := t.workers.push
        { key
          mailbox := { capacity := max t.policy.queueCapacity 1 }
          idle := (t.alarmAfter t.policy.idleTimeout).1 } } := by
    apply (h.alarmAfter t.policy.idleTimeout).trans
    refine { refl (t.alarmAfter t.policy.idleTimeout).2 with
      places := ?_
      replies := fun c x w r found replied ↦ .inr ⟨x, found, replied⟩
      lines := ?_
      limits := fun c x l found limit ↦ .inl ⟨x, found, limit⟩ }
    · intro c w z found place
      dsimp only at found
      rcases Table.of_push found with ⟨-, rfl, -⟩ | found
      · exact absurd place List.not_mem_nil
      · exact .inr ⟨z, found, place⟩
    · intro c w y found waits
      have found : t.workers.get? w = some y := found
      exact .inr (.inr ⟨y, Table.get?_push_of_found found, waits⟩)
  have woken := (created.log (.spawned t.workers.size key)).wake holds
  exact woken.frame (.inl rfl) rfl rfl rfl rfl rfl rfl

/-- A caller learns when it will give up. -/
theorem limit (h : Wakes P s t) {x : Caller} {alarm : Alarm} (found : t.callers.get? c = some x)
    (fits : x.limit = some alarm ∨ s.tickets ≤ alarm.ticket ∧ alarm.ticket < t.tickets) :
    Wakes P s (t.updateCaller c fun y ↦ { y with limit := some alarm }) := by
  have before {d : CallerId} {z : Caller}
      (found' : (t.updateCaller c fun y ↦ { y with limit := some alarm }).callers.get? d = some z) :
      t.callers.get? d = some z ∨ c = d ∧ z = { x with limit := some alarm } := by
    have found' : (t.callers.update c _).get? d = some z := found'
    obtain ⟨old, known, ⟨rfl, rfl⟩ | ⟨-, rfl⟩⟩ := Table.of_update found'
    · exact .inr ⟨rfl, Option.some.inj (found.symm.trans known) ▸ rfl⟩
    · exact .inl known
  refine { h with places := h.places, replies := ?_, lines := h.lines, limits := ?_ }
  · intro d z w r found' replied
    rcases before found' with old | ⟨rfl, rfl⟩
    · exact h.replies d z w r old replied
    · exact h.replies c x w r found replied
  · intro d z l found' limit
    rcases before found' with old | ⟨rfl, rfl⟩
    · exact h.limits d z l old limit
    · obtain rfl := Option.some.inj limit
      rcases fits with set | new
      · exact h.limits c x alarm found set
      · exact .inr new

theorem receive (h : Wakes P s t) (c : CallerId) (x : Caller) (w : WorkerId) (r : Reply) :
    Wakes P s (t.receive c x w r) := by
  unfold State.receive
  split
  next => exact h.conclude c _
  next =>
    split
    next => exact h.conclude c _
    next => exact h.retry c
  next =>
    split
    next => exact h.conclude c _
    next =>
      dsimp only
      split
      next => exact ((h.detach _ _).count _).conclude c _
      next => exact (h.detach _ _).conclude c _

theorem begin (h : Wakes P s t) (c : CallerId) (x : Caller) : Wakes P s (t.begin c x) := by
  unfold State.begin
  dsimp only
  have begun := h.updateCaller c (f := fun y ↦ { y with phase := .seeking }) (fun _ ↦ rfl)
    fun _ _ _ ↦ Phase.noConfusion
  split
  next => exact begun
  next => exact (begun.log _).count _

end Wakes

end Signatory.Service.State
