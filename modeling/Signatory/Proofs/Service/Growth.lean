import Signatory.Proofs.Service.Runs

/-!
# What lasts

Numbers name the same worker and the same caller for ever, a request is never altered, what is over
stays over, and what is recorded stays recorded.
-/

namespace Signatory.Service

/-- Two states of one caller, the second after the first. -/
structure Caller.Later (x y : Caller) : Prop where
  key : y.key = x.key
  request : y.request = x.request
  direct : y.direct = x.direct
  ended : x.phase.isEnded = true → y.phase = x.phase

/-- Two states of one worker, the second after the first. -/
structure Worker.Later (x y : Worker) : Prop where
  key : y.key = x.key
  cancelled : x.cancelled = true → y.cancelled = true
  closed : x.mailbox.closed = true → y.mailbox.closed = true
  past : x.activity.isOver = true → y.activity = x.activity

/-- Two tables, the second after the first, if each entry has become what `R` allows. -/
def Table.Later {α : Type} (R : α → α → Prop) (t u : Table α) : Prop :=
  ∀ i a, t.get? i = some a → ∃ b, u.get? i = some b ∧ R a b

/-- Two states, the second after the first. -/
structure State.Later (s t : State) : Prop where
  policy : t.policy = s.policy
  connector : t.connector = s.connector
  shut : s.isShutDown = true → t.isShutDown = true
  workers : s.workers.Later Worker.Later t.workers
  callers : s.callers.Later Caller.Later t.callers
  journal : s.journal <:+ t.journal

namespace Table.Later

variable {α : Type} {R : α → α → Prop} {t u v : Table α} {i : Nat} {a b : α}

theorem refl (h : ∀ a, R a a) (t : Table α) : t.Later R t :=
  fun _ a found ↦ ⟨a, found, h a⟩

theorem trans (h : ∀ {a b c}, R a b → R b c → R a c) (first : t.Later R u) (second : u.Later R v) :
    t.Later R v := by
  intro i a found
  obtain ⟨b, found, ab⟩ := first i a found
  obtain ⟨c, found, bc⟩ := second i b found
  exact ⟨c, found, h ab bc⟩

/-- One entry may be put in place of another. -/
theorem set (h : ∀ a, R a a) (found : t.get? i = some b) (becomes : R b a) :
    t.Later R (t.set i a) := by
  intro j c known
  rw [get?_set found]
  split
  next same =>
    rw [← same, found] at known
    exact ⟨a, rfl, Option.some.inj known ▸ becomes⟩
  next => exact ⟨c, known, h c⟩

/-- Any change may be made that `R` allows to whatever is there. -/
theorem update (h : ∀ a, R a a) {f : α → α} (becomes : ∀ a, R a (f a)) :
    t.Later R (t.update i f) := by
  intro j c known
  rw [get?_update, known]
  split
  next => exact ⟨f c, rfl, becomes c⟩
  next => exact ⟨c, rfl, h c⟩

/-- An entry may be added. -/
theorem push (h : ∀ a, R a a) (a : α) : t.Later R (t.push a) := by
  intro j c known
  exact ⟨c, get?_push_of_found known, h c⟩

/-- Entries only become more. -/
theorem size_le (later : t.Later R u) : t.size ≤ u.size := by
  rcases Nat.lt_or_ge u.size t.size with fewer | more
  · obtain ⟨a, found⟩ := Option.isSome_iff_exists.mp (Table.get?_isSome.mpr fewer)
    obtain ⟨b, there, -⟩ := later _ a found
    exact absurd (Table.lt_size there) (Nat.lt_irrefl _)
  · exact more

end Table.Later

namespace Caller.Later

variable {x y z : Caller}

theorem refl (x : Caller) : x.Later x :=
  ⟨rfl, rfl, rfl, fun _ ↦ rfl⟩

theorem trans (first : x.Later y) (second : y.Later z) : x.Later z := by
  refine ⟨second.key.trans first.key, second.request.trans first.request,
    second.direct.trans first.direct, fun past ↦ ?_⟩
  have same := first.ended past
  exact (second.ended (same ▸ past)).trans same

/-- A call that is not over may go on in any way. -/
theorem of_live (live : x.phase.isEnded = false) (phase : Phase) (tries : Nat) :
    x.Later { x with phase, tries } :=
  ⟨rfl, rfl, rfl, fun past ↦ absurd (live.symm.trans past) Bool.false_ne_true⟩

/-- Only a caller that waits gets a reply. -/
theorem reply (x : Caller) (w : WorkerId) (r : Reply) : x.Later (x.reply w r) := by
  unfold Caller.reply
  split
  next waits =>
    rw [Caller.awaits_iff] at waits
    exact of_live (by rw [waits]; rfl) _ _
  next => exact refl x

end Caller.Later

/-- The callers of some envelopes get a reply. -/
theorem replyAll_later (w : WorkerId) (r : Reply) (es : List Envelope) (callers : Table Caller) :
    callers.Later Caller.Later (replyAll w r es callers) := by
  intro c x found
  rw [get?_replyAll, found]
  split
  next => exact ⟨x.reply w r, rfl, .reply x w r⟩
  next => exact ⟨x, rfl, .refl x⟩

namespace Worker.Later

variable {x y z : Worker}

theorem refl (x : Worker) : x.Later x :=
  ⟨rfl, id, id, fun _ ↦ rfl⟩

theorem trans (first : x.Later y) (second : y.Later z) : x.Later z := by
  refine ⟨second.key.trans first.key, second.cancelled ∘ first.cancelled,
    second.closed ∘ first.closed, fun past ↦ ?_⟩
  have same := first.past past
  exact (second.past (same ▸ past)).trans same

/-- A worker that is not over may go on in any way, but its mailbox stays closed. -/
theorem of_live (live : x.activity.isOver = false) (identity : Option Identity) (idle : Alarm)
    (activity : Activity) {mailbox : Mailbox}
    (closed : x.mailbox.closed = true → mailbox.closed = true) :
    x.Later { x with identity, mailbox, idle, activity } :=
  ⟨rfl, id, closed, fun past ↦ absurd (live.symm.trans past) Bool.false_ne_true⟩

/-- The mailbox of a worker may change, but it stays closed. -/
theorem of_mailbox {mailbox : Mailbox} (closed : x.mailbox.closed = true → mailbox.closed = true) :
    x.Later { x with mailbox } :=
  ⟨rfl, id, closed, fun _ ↦ rfl⟩

end Worker.Later

namespace State

variable {s t u : State} {τ : Task} {w : WorkerId} {worker : Worker} {c : CallerId}
  {caller : Caller}

theorem Later.refl (s : State) : s.Later s :=
  ⟨rfl, rfl, id, Table.Later.refl Worker.Later.refl _, Table.Later.refl Caller.Later.refl _,
    List.suffix_rfl⟩

theorem Later.trans (first : s.Later t) (second : t.Later u) : s.Later u :=
  ⟨second.policy.trans first.policy, second.connector.trans first.connector,
    second.shut ∘ first.shut, first.workers.trans Worker.Later.trans second.workers,
    first.callers.trans Caller.Later.trans second.callers, first.journal.trans second.journal⟩

/-- A service that is not shut down was not shut down before. -/
theorem Later.serving (later : s.Later t) (serving : t.isShutDown = false) :
    s.isShutDown = false := by
  cases shut : s.isShutDown with
  | false => rfl
  | true => exact absurd ((later.shut shut).symm.trans serving) (by simp)

/-- A worker that takes an envelope is not over, and its mailbox is closed only if it was. -/
theorem Takes.later {e : Envelope} {rest : Mailbox} (takes : Takes s w worker e rest)
    (identity : Option Identity) (idle : Alarm) (activity : Activity) :
    worker.Later { worker with identity, mailbox := rest.grant.2, idle, activity } := by
  refine .of_live (by rw [takes.idle]; rfl) identity idle activity fun closed ↦ ?_
  rw [Mailbox.grant_closed, Mailbox.closed_of_pop? takes.popped, closed]

/-- A worker that finishes is not over. -/
theorem Finishes.live {e : Envelope} {done : Result × Option Identity}
    {ledgers : List (String × Ledger.Memory)} (finishes : Finishes s worker e done ledgers) :
    worker.activity.isOver = false := by
  cases finishes with
  | refused connecting => rw [connecting]; rfl
  | connected connecting => rw [connecting]; rfl
  | unknown syncing => rw [syncing]; rfl
  | synced syncing => rw [syncing]; rfl

/-- A worker that dies was not over. -/
theorem Dies.live {hand : Envelope} {mailbox : Mailbox} (dies : Dies s w worker hand mailbox) :
    worker.activity.isOver = false := by
  cases dies with
  | crashed connecting => rw [connecting]; rfl
  | outOfReach takes => rw [takes.idle]; rfl

/-- A caller who concludes its call was not over. -/
theorem Concludes.live {ending : Ending} (concludes : Concludes s caller ending) :
    caller.phase.isEnded = false := by
  cases concludes with
  | result replied => rw [replied]; rfl
  | rejected replied => rw [replied]; rfl
  | lost replied => rw [replied]; rfl
  | cancelled seeking => rw [seeking]; rfl
  | crashed seeking => rw [seeking]; rfl
  | closed suspended => rw [suspended]; rfl

/-- One entry may be recorded. -/
private theorem recorded (e : Entry) (l : List Entry) : l <:+ e :: l :=
  List.suffix_cons e l

/-- Two entries may be recorded. -/
private theorem recorded₂ (e f : Entry) (l : List Entry) : l <:+ e :: f :: l :=
  (recorded f l).trans (recorded e _)

/-- The workers after a change of one of them. -/
private theorem workers_later (found : s.workers.get? w = some worker) {y : Worker}
    (later : worker.Later y) : s.workers.Later Worker.Later (s.workers.set w y) :=
  .set Worker.Later.refl found later

/-- The callers after a change of one of them that was not over. -/
private theorem callers_later (found : s.callers.get? c = some caller)
    (live : caller.phase.isEnded = false) (phase : Phase) (tries : Nat) :
    s.callers.Later Caller.Later (s.callers.set c { caller with phase, tries }) :=
  .set Caller.Later.refl found (.of_live live phase tries)

/-- The callers after a reply to one of them. -/
private theorem reply_later (c : CallerId) (w : WorkerId) (r : Reply) :
    s.callers.Later Caller.Later (s.callers.update c (Caller.reply w r)) :=
  .update Caller.Later.refl fun x ↦ .reply x w r

/-- What lasts is left as it was by every change. -/
theorem Change.later (change : Change s τ t) : s.Later t := by
  have all := Table.Later.refl Worker.Later.refl s.workers
  have everyone := Table.Later.refl Caller.Later.refl s.callers
  cases change with
  | rest => exact .refl s
  | leave found idle cause =>
    refine ⟨rfl, rfl, id, workers_later found ?_, replyAll_later _ _ _ _, ?_⟩
    · exact .of_live (by rw [idle]; rfl) _ _ _ fun _ ↦ rfl
    · exact (recorded₂ _ _ _).trans (List.suffix_append _ _)
  | die found cause =>
    refine ⟨rfl, rfl, id, workers_later found ?_, replyAll_later _ _ _ _, recorded₂ _ _ _⟩
    exact .of_live cause.live _ _ _ fun _ ↦ rfl
  | skip takes gone =>
    exact ⟨rfl, rfl, id, workers_later takes.found (takes.later _ _ _), everyone, recorded _ _⟩
  | misroute takes waits foreign =>
    exact ⟨rfl, rfl, id, workers_later takes.found (takes.later _ _ _), reply_later _ _ _,
      recorded _ _⟩
  | connect accepts =>
    exact ⟨rfl, rfl, id, workers_later accepts.found (accepts.toTakes.later _ _ _), everyone,
      recorded _ _⟩
  | lookup accepts =>
    exact ⟨rfl, rfl, id, workers_later accepts.found (accepts.toTakes.later _ _ _), everyone,
      recorded _ _⟩
  | serve accepts =>
    exact ⟨rfl, rfl, id, workers_later accepts.found (accepts.toTakes.later _ _ _),
      reply_later _ _ _, recorded₂ _ _ _⟩
  | finish found finishes =>
    refine ⟨rfl, rfl, id, workers_later found ?_, reply_later _ _ _, recorded _ _⟩
    exact .of_live finishes.live _ _ _ id
  | again found syncing =>
    refine ⟨rfl, rfl, id, workers_later found ?_, everyone, List.suffix_rfl⟩
    exact .of_live (by rw [syncing]; rfl) _ _ _ id
  | begin found fresh =>
    exact ⟨rfl, rfl, id, all, callers_later found (by rw [fresh]; rfl) _ _, recorded _ _⟩
  | beginDirect found fresh =>
    exact ⟨rfl, rfl, id, all, callers_later found (by rw [fresh]; rfl) _ _, List.suffix_rfl⟩
  | spawn => exact ⟨rfl, rfl, id, .push Worker.Later.refl _, everyone, recorded _ _⟩
  | push offers found =>
    refine ⟨rfl, rfl, id, workers_later found (.of_mailbox id), ?_, recorded₂ _ _ _⟩
    exact callers_later offers.found (by rw [offers.seeking]; rfl) _ _
  | suspend offers found =>
    refine ⟨rfl, rfl, id, workers_later found (.of_mailbox id), ?_, recorded _ _⟩
    exact callers_later offers.found (by rw [offers.seeking]; rfl) _ _
  | refuse offers =>
    refine ⟨rfl, rfl, id, all, ?_, recorded _ _⟩
    exact callers_later offers.found (by rw [offers.seeking]; rfl) _ _
  | refuseDirect offers =>
    refine ⟨rfl, rfl, id, all, ?_, recorded₂ _ _ _⟩
    exact callers_later offers.found (by rw [offers.seeking]; rfl) _ _
  | occupy known suspended found =>
    refine ⟨rfl, rfl, id, workers_later found (.of_mailbox id), ?_, recorded _ _⟩
    exact callers_later known (by rw [suspended]; rfl) _ _
  | turnAway found suspended =>
    exact ⟨rfl, rfl, id, all, callers_later found (by rw [suspended]; rfl) _ _, List.suffix_rfl⟩
  | retry found replied =>
    exact ⟨rfl, rfl, id, all, callers_later found (by rw [replied]; rfl) _ _, List.suffix_rfl⟩
  | limit found =>
    refine ⟨rfl, rfl, id, all, ?_, List.suffix_rfl⟩
    exact .set Caller.Later.refl found ⟨rfl, rfl, rfl, fun _ ↦ rfl⟩
  | conclude found cause =>
    exact ⟨rfl, rfl, id, all, callers_later found cause.live _ _, recorded _ _⟩
  | notFound found seeking =>
    exact ⟨rfl, rfl, id, all, callers_later found (by rw [seeking]; rfl) _ _, recorded _ _⟩
  | lose found replied =>
    exact ⟨rfl, rfl, id, all, callers_later found (by rw [replied]; rfl) _ _, recorded _ _⟩
  | giveUp found live => exact ⟨rfl, rfl, id, all, callers_later found live _ _, recorded _ _⟩
  | withdraw found suspended =>
    refine ⟨rfl, rfl, id, .update Worker.Later.refl fun y ↦ ?_, ?_, recorded _ _⟩
    · exact .of_mailbox fun closed ↦ by rw [Mailbox.grant_closed]; exact closed
    · exact callers_later found (by rw [suspended]; rfl) _ _

/-- What lasts is left as it was by every use. -/
theorem Use.later (use : Use s t) : s.Later t := by
  have all := Table.Later.refl Worker.Later.refl s.workers
  have everyone := Table.Later.refl Caller.Later.refl s.callers
  have cancel (y : Worker) : y.Later { y with cancelled := true } :=
    ⟨rfl, fun _ ↦ rfl, id, fun _ ↦ rfl⟩
  cases use with
  | rest => exact .refl s
  | dispatch key request =>
    exact ⟨rfl, rfl, id, all, .push Caller.Later.refl _, List.suffix_rfl⟩
  | drop found live =>
    refine ⟨rfl, rfl, id, all, ?_, List.suffix_rfl⟩
    exact .set Caller.Later.refl found ⟨rfl, rfl, rfl, fun _ ↦ rfl⟩
  | remove named => exact ⟨rfl, rfl, id, .update Worker.Later.refl cancel, everyone, recorded _ _⟩
  | notFound => exact ⟨rfl, rfl, id, all, everyone, List.suffix_rfl⟩
  | shutdown serving cancelled =>
    refine ⟨rfl, rfl, fun _ ↦ rfl, fun w y found ↦ ?_, everyone, recorded _ _⟩
    exact ⟨{ y with cancelled := true }, by rw [cancelled w, found]; rfl, cancel y⟩
  | ledger name l => exact ⟨rfl, rfl, id, all, everyone, List.suffix_rfl⟩
  | wait later => exact ⟨rfl, rfl, id, all, everyone, List.suffix_rfl⟩

/-- Workers only become more. -/
theorem Later.size_le (later : s.Later t) : s.workers.size ≤ t.workers.size :=
  later.workers.size_le

/-- What lasts is left as it was by every run. -/
theorem Run.later (run : Run s t) : s.Later t := by
  have kept : s.bare.Later t.bare :=
    Run.preserve (P := s.bare.Later) (fun old change ↦ old.trans change.later)
      (fun old use ↦ old.trans use.later) (.refl _) run
  exact ⟨kept.policy, kept.connector, kept.shut, kept.workers, kept.callers, kept.journal⟩

end State

end Signatory.Service
