import Mathlib.Logic.Relation
import Signatory.Proofs.Service.Effects

/-!
# What one step can do

`Change` lists everything that a worker or a caller can do in one step, schedules left out, with the
circumstances in which it does it. A step makes one change, or two when a worker is created for a
request or an envelope reaches a worker that it is not meant for.
-/

namespace Signatory.Service

namespace State

/-- Why a worker that looks for something to do leaves. -/
inductive Leaves (s : State) (w : WorkerId) (worker : Worker) : ExitReason → Prop
  | shutdown (cancelled : worker.cancelled = true) (closing : s.isShutDown = true) :
    Leaves s w worker .shutdown
  | removed (cancelled : worker.cancelled = true) (serving : s.isShutDown = false) :
    Leaves s w worker .removed
  | released (kept : worker.cancelled = false) (empty : worker.mailbox.queue = [])
    (released : worker.isHeld = false) (alone : worker.mailbox.isAwaited = false) :
    Leaves s w worker .removed
  | idled (kept : worker.cancelled = false) (empty : worker.mailbox.queue = [])
    (late : worker.idle.time ≤ s.now) : Leaves s w worker .idleTimeout
  | misrouted {c : CallerId} {key : String} (foreign : key ≠ worker.key)
    (answered : ⟨s.now, .answered c w (.error (.violation (.misrouted key worker.key)))⟩ ∈
      s.journal) : Leaves s w worker .aborted

/-- A worker takes an envelope out of its mailbox. -/
structure Takes (s : State) (w : WorkerId) (worker : Worker) (e : Envelope) (rest : Mailbox) :
    Prop where
  found : s.workers.get? w = some worker
  idle : worker.activity = .idle
  kept : worker.cancelled = false
  popped : worker.mailbox.pop? = some (e, rest)

/-- A worker takes an envelope whose caller waits for it, and accepts it. -/
structure Accepts (s : State) (w : WorkerId) (worker : Worker) (e : Envelope) (rest : Mailbox)
    (deadline : Alarm) : Prop extends Takes s w worker e rest where
  waits : s.awaits e.caller w = true
  own : e.key = worker.key
  rearmed : deadline.time = s.now + s.policy.idleTimeout

/-- What is answered to a request as soon as it is accepted. -/
inductive Serves (worker : Worker) : Request → Result × Option Identity → Prop
  | sign (d : Draft) : Serves worker (.sign d) (handleSign worker.key worker.identity d)
  | query (q : Query) : Serves worker (.query q) (handleQuery worker.key worker.identity q)
  | sync (unknown : worker.identity = none) :
    Serves worker .syncNonce (.error (.notInitialized worker.key), none)

/-- What is answered to the request in the hand of a worker when a wait is over, and how that leaves
the ledgers. -/
inductive Finishes (s : State) (worker : Worker) :
    Envelope → Result × Option Identity → List (String × Ledger.Memory) → Prop
  | refused {e : Envelope} {c : Credentials} {fault : Ledger.Fault} {alarm : Alarm}
    (connecting : worker.activity = .connecting e c (.refused fault) alarm)
    (due : alarm.time ≤ s.now) :
    Finishes s worker e (.error (.ledger fault), worker.identity) s.ledgers
  | connected {e : Envelope} {c : Credentials} {place : Ledger.Place} {alarm : Alarm}
    (connecting : worker.activity = .connecting e c (.place place) alarm)
    (due : alarm.time ≤ s.now) :
    Finishes s worker e (handleConnected c place) (s.ensureLedger place).ledgers
  | unknown {e : Envelope} {attempt : Nat} {alarm : Alarm}
    (syncing : worker.activity = .syncing e attempt alarm) (due : alarm.time ≤ s.now)
    (unknown : worker.identity = none) :
    Finishes s worker e (.error (.notInitialized worker.key), none) s.ledgers
  | synced {e : Envelope} {attempt : Nat} {alarm : Alarm} {i next : Identity} {r : Result}
    (syncing : worker.activity = .syncing e attempt alarm) (due : alarm.time ≤ s.now)
    (known : worker.identity = some i)
    (decided : handleAnswer s.policy.sync i attempt (s.lookup i.ledger i.address).1 =
      (some r, next)) :
    Finishes s worker e (r, some next) (s.lookup i.ledger i.address).2.ledgers

/-- How a worker comes to die with an envelope in its hand, and what its mailbox is then. -/
inductive Dies (s : State) (w : WorkerId) (worker : Worker) : Envelope → Mailbox → Prop
  | crashed {e : Envelope} {c : Credentials} {alarm : Alarm}
    (connecting : worker.activity = .connecting e c .crash alarm) (due : alarm.time ≤ s.now) :
    Dies s w worker e worker.mailbox
  | outOfReach {e : Envelope} {rest : Mailbox} (takes : Takes s w worker e rest)
    (waits : s.awaits e.caller w = true) (far : s.canReach s.policy.idleTimeout = false) :
    Dies s w worker e rest.grant.2

/-- A caller offers its request to a worker: the one it addresses, or the one that the directory
names. -/
structure Offers (s : State) (c : CallerId) (caller : Caller) (w : WorkerId) : Prop where
  found : s.callers.get? c = some caller
  seeking : caller.phase = .seeking
  target : caller.direct = some w ∨
    caller.direct = none ∧ caller.tries ≠ 0 ∧ s.isShutDown = false ∧ s.find? caller.key = some w

/-- How a call ends by the caller's own decision. -/
inductive Concludes (s : State) (caller : Caller) : Ending → Prop
  | result {w : WorkerId} {r : Result} (replied : caller.phase = .replied w (.answered r)) :
    Concludes s caller (.result r)
  | rejected {v w : WorkerId} (replied : caller.phase = .replied w .handedBack)
    (direct : caller.direct = some v) : Concludes s caller .rejected
  | lost {v w : WorkerId} (replied : caller.phase = .replied w .lost)
    (direct : caller.direct = some v) : Concludes s caller .lost
  | cancelled (seeking : caller.phase = .seeking) (direct : caller.direct = none)
    (tries : caller.tries ≠ 0) (closing : s.isShutDown = true) :
    Concludes s caller (.result (.error .cancelled))
  | crashed (seeking : caller.phase = .seeking) (direct : caller.direct = none)
    (serving : s.isShutDown = false) (large : capacityLimit < s.policy.queueCapacity) :
    Concludes s caller .crashed
  | closed {v w : WorkerId} (suspended : caller.phase = .suspended w)
    (direct : caller.direct = some v) (shut : s.isClosed w = true) : Concludes s caller .closed

/-- Why a caller gives up. -/
inductive GivesUp (s : State) (caller : Caller) : Ending → Prop
  | dropped (dropped : caller.dropped = true) : GivesUp s caller .withdrawn
  | timeout {w : WorkerId} {limit : Nat} {alarm : Alarm}
    (waiting : caller.phase = .suspended w ∨ caller.phase = .awaiting w)
    (direct : caller.direct = none) (limited : s.policy.requestTimeout = some limit)
    (due : caller.limit = some alarm ∨ caller.limit = none ∧ alarm.time = s.after limit)
    (late : alarm.time ≤ s.now) :
    GivesUp s caller (.result (.error .timeout))

/-- What a worker or a caller can do, and who does it. -/
inductive Change (s : State) : Task → State → Prop
  /-- Nothing but the schedule changes. -/
  | rest {τ : Task} : Change s τ s
  /-- A worker leaves. -/
  | leave {w : WorkerId} {worker : Worker} {reason : ExitReason}
    (found : s.workers.get? w = some worker) (idle : worker.activity = .idle)
    (cause : Leaves s w worker reason) :
    Change s (.worker w)
      { s with
        directory := s.without worker.key w
        stats := s.stats.exit reason
        workers := s.workers.set w
          { worker with mailbox := worker.mailbox.close, activity := .left reason }
        callers := replyAll w .handedBack worker.mailbox.queue s.callers
        journal := returns s.now w worker.mailbox.queue s.callers ++
          ⟨s.now, .closed w⟩ :: ⟨s.now, .hooked w reason⟩ :: s.journal }
  /-- A worker dies. -/
  | die {w : WorkerId} {worker : Worker} {hand : Envelope} {mailbox : Mailbox}
    (found : s.workers.get? w = some worker) (cause : Dies s w worker hand mailbox) :
    Change s (.worker w)
      { s with
        workers := s.workers.set w { worker with mailbox := mailbox.close, activity := .died }
        callers := replyAll w .lost (hand :: mailbox.queue) s.callers
        journal := ⟨s.now, .closed w⟩ :: ⟨s.now, .died w⟩ :: s.journal }
  /-- A worker skips an envelope whose caller has left. -/
  | skip {w : WorkerId} {worker : Worker} {e : Envelope} {rest : Mailbox}
    (takes : Takes s w worker e rest) (gone : s.awaits e.caller w = false) :
    Change s (.worker w)
      { s with
        workers := s.workers.set w { worker with mailbox := rest.grant.2 }
        journal := ⟨s.now, .skipped e.caller w⟩ :: s.journal }
  /-- A worker refuses an envelope that is meant for another. -/
  | misroute {w : WorkerId} {worker : Worker} {e : Envelope} {rest : Mailbox} {deadline : Alarm}
    (takes : Takes s w worker e rest) (waits : s.awaits e.caller w = true)
    (foreign : e.key ≠ worker.key) :
    Change s (.worker w)
      { s with
        workers := s.workers.set w { worker with mailbox := rest.grant.2, idle := deadline }
        callers := s.callers.update e.caller
          (Caller.reply w (.answered (.error (.violation (.misrouted e.key worker.key)))))
        journal := ⟨s.now, .answered e.caller w
          (.error (.violation (.misrouted e.key worker.key)))⟩ :: s.journal }
  /-- A worker begins to connect. -/
  | connect {w : WorkerId} {worker : Worker} {e : Envelope} {rest : Mailbox} {deadline alarm : Alarm}
    {c : Credentials} (accepts : Accepts s w worker e rest deadline) (request : e.request = .generate c)
    (due : alarm.time = s.after (s.connector c.endpoint).wait) :
    Change s (.worker w)
      { s with
        workers := s.workers.set w
          { worker with
            mailbox := rest.grant.2, idle := deadline
            activity := .connecting e c (s.connector c.endpoint).outcome alarm }
        journal := ⟨s.now, .accepted e.caller w⟩ :: s.journal }
  /-- A worker begins to look up a sequence number. -/
  | lookup {w : WorkerId} {worker : Worker} {e : Envelope} {rest : Mailbox} {deadline alarm : Alarm}
    {i : Identity} (accepts : Accepts s w worker e rest deadline) (request : e.request = .syncNonce)
    (known : worker.identity = some i) (due : alarm.time = s.after 0) :
    Change s (.worker w)
      { s with
        workers := s.workers.set w
          { worker with mailbox := rest.grant.2, idle := deadline, activity := .syncing e 1 alarm }
        journal := ⟨s.now, .accepted e.caller w⟩ :: s.journal }
  /-- A worker answers an envelope as soon as it is accepted. -/
  | serve {w : WorkerId} {worker : Worker} {e : Envelope} {rest : Mailbox} {deadline : Alarm}
    {done : Result × Option Identity} (accepts : Accepts s w worker e rest deadline)
    (serves : Serves worker e.request done) :
    Change s (.worker w)
      { s with
        workers := s.workers.set w
          { worker with mailbox := rest.grant.2, idle := deadline, identity := done.2, activity := .idle }
        callers := s.callers.update e.caller (Caller.reply w (.answered done.1))
        journal := ⟨s.now, .answered e.caller w done.1⟩ :: ⟨s.now, .accepted e.caller w⟩ ::
          s.journal }
  /-- A worker answers the envelope in its hand. -/
  | finish {w : WorkerId} {worker : Worker} {e : Envelope} {done : Result × Option Identity}
    {ledgers : List (String × Ledger.Memory)} (found : s.workers.get? w = some worker)
    (finishes : Finishes s worker e done ledgers) :
    Change s (.worker w)
      { s with
        ledgers
        workers := s.workers.set w { worker with identity := done.2, activity := .idle }
        callers := s.callers.update e.caller (Caller.reply w (.answered done.1))
        journal := ⟨s.now, .answered e.caller w done.1⟩ :: s.journal }
  /-- A worker makes another lookup after one that failed. -/
  | again {w : WorkerId} {worker : Worker} {e : Envelope} {attempt : Nat} {alarm next : Alarm}
    {i j : Identity} (found : s.workers.get? w = some worker)
    (syncing : worker.activity = .syncing e attempt alarm) (due : alarm.time ≤ s.now)
    (known : worker.identity = some i)
    (undecided : handleAnswer s.policy.sync i attempt (s.lookup i.ledger i.address).1 = (none, j))
    (later : next.time = s.after s.policy.sync.backoff) :
    Change s (.worker w)
      { s with
        ledgers := (s.lookup i.ledger i.address).2.ledgers
        workers := s.workers.set w { worker with activity := .syncing e (attempt + 1) next } }
  /-- A call begins. -/
  | begin {c : CallerId} {caller : Caller} (found : s.callers.get? c = some caller)
    (fresh : caller.phase = .fresh) (direct : caller.direct = none) :
    Change s (.caller c)
      { s with
        stats := { s.stats with dispatched := s.stats.dispatched + 1 }
        callers := s.callers.set c { caller with phase := .seeking }
        journal := ⟨s.now, .dispatched c⟩ :: s.journal }
  /-- A call to a certain worker begins. -/
  | beginDirect {c : CallerId} {caller : Caller} {w : WorkerId}
    (found : s.callers.get? c = some caller) (fresh : caller.phase = .fresh)
    (direct : caller.direct = some w) :
    Change s (.caller c) { s with callers := s.callers.set c { caller with phase := .seeking } }
  /-- A worker is created for a caller. -/
  | spawn {c : CallerId} {caller : Caller} {idle : Alarm} (found : s.callers.get? c = some caller)
    (seeking : caller.phase = .seeking) (direct : caller.direct = none) (tries : caller.tries ≠ 0)
    (serving : s.isShutDown = false) (creates : caller.request.createsWorker = true)
    (vacant : ∀ w, s.find? caller.key = some w → s.isClosed w = true)
    (due : idle.time = s.after s.policy.idleTimeout) :
    Change s (.caller c)
      { s with
        directory := (caller.key, s.workers.size) :: s.directory.filter (·.1 ≠ caller.key)
        stats := { s.stats with created := s.stats.created + 1 }
        workers := s.workers.push
          { key := caller.key, mailbox := { capacity := max s.policy.queueCapacity 1 }, idle }
        journal := ⟨s.now, .spawned s.workers.size caller.key⟩ :: s.journal }
  /-- A caller finds room in a mailbox. -/
  | push {c : CallerId} {caller : Caller} {w : WorkerId} {worker : Worker}
    (offers : Offers s c caller w) (found : s.workers.get? w = some worker)
    (opened : worker.mailbox.closed = false) (room : 0 < worker.mailbox.free) :
    Change s (.caller c)
      { s with
        workers := s.workers.set w
          { worker with mailbox := worker.mailbox.push ⟨caller.key, caller.request, c⟩ }
        callers := s.callers.set c { caller with phase := .awaiting w }
        journal := ⟨s.now, .queued c w⟩ :: ⟨s.now, .offered c w⟩ :: s.journal }
  /-- A caller finds a mailbox full. -/
  | suspend {c : CallerId} {caller : Caller} {w : WorkerId} {worker : Worker}
    (offers : Offers s c caller w) (found : s.workers.get? w = some worker)
    (opened : worker.mailbox.closed = false) (full : worker.mailbox.free = 0) :
    Change s (.caller c)
      { s with
        workers := s.workers.set w { worker with mailbox := worker.mailbox.suspend c }
        callers := s.callers.set c { caller with phase := .suspended w }
        journal := ⟨s.now, .offered c w⟩ :: s.journal }
  /-- A caller finds a mailbox closed and looks for another worker. -/
  | refuse {c : CallerId} {caller : Caller} {w : WorkerId} (offers : Offers s c caller w)
    (shut : s.isClosed w = true) (direct : caller.direct = none) :
    Change s (.caller c)
      { s with
        directory := s.without caller.key w
        callers := s.callers.set c { caller with phase := .seeking, tries := caller.tries - 1 }
        journal := ⟨s.now, .offered c w⟩ :: s.journal }
  /-- A caller finds the mailbox of the worker that it addresses closed. -/
  | refuseDirect {c : CallerId} {caller : Caller} {v w : WorkerId} (offers : Offers s c caller w)
    (shut : s.isClosed w = true) (direct : caller.direct = some v) :
    Change s (.caller c)
      { s with
        callers := s.callers.set c { caller with phase := .ended .closed }
        journal := ⟨s.now, .ended c .closed⟩ :: ⟨s.now, .offered c w⟩ :: s.journal }
  /-- A caller puts its envelope into the place that is reserved for it. -/
  | occupy {c : CallerId} {caller : Caller} {w : WorkerId} {worker : Worker}
    (known : s.callers.get? c = some caller) (suspended : caller.phase = .suspended w)
    (found : s.workers.get? w = some worker) (opened : worker.mailbox.closed = false)
    (place : c ∈ worker.mailbox.reserved) :
    Change s (.caller c)
      { s with
        workers := s.workers.set w
          { worker with mailbox := worker.mailbox.occupy ⟨caller.key, caller.request, c⟩ }
        callers := s.callers.set c { caller with phase := .awaiting w }
        journal := ⟨s.now, .queued c w⟩ :: s.journal }
  /-- A caller who was suspended on a mailbox finds it closed and looks for another worker. -/
  | turnAway {c : CallerId} {caller : Caller} {w : WorkerId}
    (found : s.callers.get? c = some caller) (suspended : caller.phase = .suspended w)
    (shut : s.isClosed w = true) (direct : caller.direct = none) :
    Change s (.caller c)
      { s with
        directory := s.without caller.key w
        callers := s.callers.set c { caller with phase := .seeking, tries := caller.tries - 1 } }
  /-- A caller whose request came back looks for another worker. -/
  | retry {c : CallerId} {caller : Caller} {w : WorkerId} (found : s.callers.get? c = some caller)
    (replied : caller.phase = .replied w .handedBack) (direct : caller.direct = none) :
    Change s (.caller c)
      { s with
        callers := s.callers.set c { caller with phase := .seeking, tries := caller.tries - 1 } }
  /-- A caller learns when it will give up. -/
  | limit {c : CallerId} {caller : Caller} {w : WorkerId} {limit : Nat} {alarm : Alarm}
    (found : s.callers.get? c = some caller)
    (waiting : caller.phase = .suspended w ∨ caller.phase = .awaiting w)
    (direct : caller.direct = none) (limited : s.policy.requestTimeout = some limit)
    (early : s.now < alarm.time)
    (due : caller.limit = some alarm ∨ caller.limit = none ∧ alarm.time = s.after limit) :
    Change s (.caller c) { s with callers := s.callers.set c { caller with limit := some alarm } }
  /-- A call ends. -/
  | conclude {c : CallerId} {caller : Caller} {ending : Ending}
    (found : s.callers.get? c = some caller) (cause : Concludes s caller ending) :
    Change s (.caller c)
      { s with
        callers := s.callers.set c { caller with phase := .ended ending }
        journal := ⟨s.now, .ended c ending⟩ :: s.journal }
  /-- A call ends because there is no worker for its key. -/
  | notFound {c : CallerId} {caller : Caller} (found : s.callers.get? c = some caller)
    (seeking : caller.phase = .seeking) (direct : caller.direct = none)
    (cause : caller.tries = 0 ∨ s.isShutDown = false ∧ s.find? caller.key = none ∧
      caller.request.createsWorker = false) :
    Change s (.caller c)
      { s with
        stats := { s.stats with notFound := s.stats.notFound + 1 }
        callers := s.callers.set c
          { caller with phase := .ended (.result (.error (.notFound caller.key))) }
        journal := ⟨s.now, .ended c (.result (.error (.notFound caller.key)))⟩ :: s.journal }
  /-- A call ends because the worker that had its envelope died. -/
  | lose {c : CallerId} {caller : Caller} {w : WorkerId} (found : s.callers.get? c = some caller)
    (replied : caller.phase = .replied w .lost) (direct : caller.direct = none) :
    Change s (.caller c)
      { s with
        directory := s.without caller.key w
        stats :=
          if s.find? caller.key = some w then { s.stats with aborted := s.stats.aborted + 1 }
          else s.stats
        callers := s.callers.set c
          { caller with
            phase := .ended (.result (.error
              (.violation (.workerStopped caller.key caller.request.operation)))) }
        journal := ⟨s.now, .ended c (.result (.error
          (.violation (.workerStopped caller.key caller.request.operation))))⟩ :: s.journal }
  /-- A caller gives up. -/
  | giveUp {c : CallerId} {caller : Caller} {ending : Ending}
    (found : s.callers.get? c = some caller) (live : caller.phase.isEnded = false)
    (apart : ∀ w, caller.phase ≠ .suspended w) (cause : GivesUp s caller ending) :
    Change s (.caller c)
      { s with
        callers := s.callers.set c { caller with phase := .ended ending }
        journal := ⟨s.now, .ended c ending⟩ :: s.journal }
  /-- A caller who is suspended on a mailbox gives up. -/
  | withdraw {c : CallerId} {caller : Caller} {w : WorkerId} {ending : Ending}
    (found : s.callers.get? c = some caller) (suspended : caller.phase = .suspended w)
    (cause : GivesUp s caller ending) :
    Change s (.caller c)
      { s with
        workers := s.workers.update w fun y ↦
          { y with mailbox := (y.mailbox.withdraw c).grant.2 }
        callers := s.callers.set c { caller with phase := .ended ending }
        journal := ⟨s.now, .ended c ending⟩ :: s.journal }

/-- Some changes that one task makes, one after the other. -/
abbrev Changes (τ : Task) : State → State → Prop :=
  Relation.ReflTransGen (Change · τ)

variable {s : State} {w : WorkerId} {worker : Worker} {c : CallerId} {caller : Caller}

/-- A worker that looks for something to do leaves for one of the reasons. -/
theorem leave_change {y : Worker} {reason : ExitReason} (found : s.workers.get? w = some worker)
    (key : y.key = worker.key) (mailbox : y.mailbox = worker.mailbox)
    (idle : worker.activity = .idle) (cause : s.bare.Leaves w worker reason) :
    Change s.bare (.worker w) (s.leave w y reason).bare := by
  have found : s.bare.workers.get? w = some worker := found
  rw [bare_leave, key, mailbox, Table.update_eq_set found]
  exact .leave found idle cause

/-- A worker dies in one of the circumstances. -/
theorem die_change {hand : Envelope} (found : s.workers.get? w = some worker)
    (cause : s.bare.Dies w worker hand worker.mailbox) :
    Change s.bare (.worker w) (s.die w worker hand).bare := by
  have found : s.bare.workers.get? w = some worker := found
  rw [bare_die, Table.update_eq_set found]
  exact .die found cause

/-- The moment at which a wait is over is told by the time. -/
theorem after_congr {u : State} (now : u.now = s.now) (wait : Nat) : u.after wait = s.after wait := by
  unfold after canReach
  rw [now]

/-- What a worker does with an envelope that it accepts. -/
theorem handle_change {e : Envelope} {rest : Mailbox} {deadline : Alarm}
    (accepts : s.bare.Accepts w worker e rest deadline) {u : State}
    (taken : u.bare = { s.bare with
      workers := s.bare.workers.set w
        { worker with mailbox := rest.grant.2, idle := deadline } }) :
    Change s.bare (.worker w) (u.handle w { worker with mailbox := rest.grant.2 } e).bare := by
  have now : u.bare.now = s.bare.now := by rw [taken]
  unfold handle
  dsimp only
  split
  next k request =>
    simp only [bare_beginConnect, bare_log, taken, Table.update_set]
    exact .connect accepts request (after_congr now _)
  next d request =>
    simp only [bare_complete, bare_log, taken, Table.update_set]
    exact .serve accepts (request ▸ .sign d)
  next q request =>
    simp only [bare_complete, bare_log, taken, Table.update_set]
    exact .serve accepts (request ▸ .query q)
  next request =>
    split
    next unknown =>
      simp only [bare_complete, bare_log, taken, Table.update_set]
      exact .serve accepts (by rw [request]; exact .sync unknown)
    next i known =>
      simp only [bare_beginLookup, bare_log, taken, Table.update_set]
      exact .lookup accepts request known (after_congr now _)

/-- What a caller does when it offers its request to a worker. -/
theorem offer_change {u : State} (offers : u.bare.Offers c caller w) :
    Change u.bare (.caller c) (u.offer c caller w).bare := by
  have known := offers.found
  have turned (shut : u.bare.isClosed w = true) :
      Change u.bare (.caller c) ((u.log (.offered c w)).turnedAway c caller w).bare := by
    unfold turnedAway
    split
    next v direct =>
      rw [bare_conclude, bare_log, Table.update_eq_set known]
      exact .refuseDirect offers shut direct
    next direct =>
      rw [bare_retry, bare_detach, bare_log, Table.update_eq_set known]
      exact .refuse offers shut direct
  unfold offer
  dsimp only
  split
  next missing =>
    apply turned
    unfold isClosed
    rw [show u.bare.workers.get? w = none from missing]
  next worker found =>
    have found : u.bare.workers.get? w = some worker := found
    split
    next closed =>
      apply turned
      unfold isClosed
      rw [found]
      exact closed
    next opened =>
      rw [Bool.not_eq_true] at opened
      split
      next room =>
        rw [bare_enqueue, bare_log, Table.update_eq_set known, Table.update_eq_set found]
        exact .push offers found opened room
      next full =>
        rw [bare_updateCaller, bare_updateWorker, bare_log, Table.update_eq_set known,
          Table.update_eq_set found]
        exact .suspend offers found opened (Nat.eq_zero_of_not_pos full)

/-- What a caller does who gives up. -/
theorem giveUp_change {ending : Ending} (found : s.callers.get? c = some caller)
    (live : caller.phase.isEnded = false) (cause : s.bare.GivesUp caller ending) :
    Change s.bare (.caller c) ((s.withdraw c caller).conclude c ending).bare := by
  have known : s.bare.callers.get? c = some caller := found
  rw [bare_conclude]
  rcases Classical.em (∃ w, caller.phase = .suspended w) with ⟨w, suspended⟩ | apart
  · rw [bare_withdraw s w c suspended, Table.update_eq_set known]
    exact .withdraw known suspended cause
  · have apart (w : WorkerId) (suspended : caller.phase = .suspended w) : False :=
      apart ⟨w, suspended⟩
    rw [withdraw_of_ne s c apart, Table.update_eq_set known]
    exact .giveUp known live apart cause

/-- What a caller does with a reply. -/
theorem receive_change {reply : Reply} (found : s.callers.get? c = some caller)
    (replied : caller.phase = .replied w reply) :
    Change s.bare (.caller c) (s.receive c caller w reply).bare := by
  have known : s.bare.callers.get? c = some caller := found
  cases reply with
  | answered r =>
    rw [receive, bare_conclude, Table.update_eq_set known]
    exact .conclude known (.result replied)
  | handedBack =>
    unfold receive
    dsimp only
    split
    next v direct =>
      rw [bare_conclude, Table.update_eq_set known]
      exact .conclude known (.rejected replied direct)
    next direct =>
      rw [bare_retry, Table.update_eq_set known]
      exact .retry known replied direct
  | lost =>
    unfold receive
    dsimp only
    split
    next v direct =>
      rw [bare_conclude, Table.update_eq_set known]
      exact .conclude known (.lost replied direct)
    next direct =>
      have strand : (if (s.detach caller.key w).1 then
            (s.detach caller.key w).2.count fun n ↦ { n with aborted := n.aborted + 1 }
          else (s.detach caller.key w).2).bare =
          { s.bare with
            directory := s.bare.without caller.key w
            stats :=
              if s.bare.find? caller.key = some w then
                { s.bare.stats with aborted := s.bare.stats.aborted + 1 }
              else s.bare.stats } := by
        unfold detach without
        split
        next named =>
          have named : s.bare.find? caller.key = some w := named
          rw [if_pos named, if_pos named, if_pos rfl]
          rfl
        next other =>
          have other : ¬ s.bare.find? caller.key = some w := other
          rw [if_neg other, if_neg other, if_neg Bool.false_ne_true]
      rw [bare_conclude, strand, Table.update_eq_set known]
      exact .lose known replied direct

end State

end Signatory.Service
