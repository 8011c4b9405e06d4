-- SUMMARY: A stream reactor with its workers, the router and the shards, and the order in which the events of a connection are handled.
import NfEngine.Execution.Action
import NfEngine.Ingress.RxRouter
import NfEngine.Protocol.TcpReceive
import NfEngine.Protocol.WorkerOrder
import NfEngine.Shard.WorkOrder

/-!
# In-shard ordering

A TCP or TLS reactor cuts frames out of the ring of a connection and queues each of
them at the worker that the descriptor number selects. The worker routes one packet
at a time and dispatches its event to the shard of its session, and the shard handles
one event at a time. The reactor, the workers and the shards take their steps here in
any interleaving, each at the level of its own model. Other threads push events to
the shards as well, and change the session table in any way.

A connection has one worker, so its frames stand in one line: those whose events the
worker has dispatched, those inside the worker, and those the reactor still holds.
The line is in the order of arrival at any time, and what a shard has received from a
worker is the part of the line that was dispatched to it.

The number of a frame, the frame of an event, `arrivals` and `routed` are
observations: no step reads them.
-/

namespace NfEngine

open Lib.Transition

/-- What is fixed at the start: TCP or TLS, the number of the reactor's workers and of
    the shards, and the address of the server. -/
structure IngressConfig where
  protocol : Protocol
  workers : ℕ
  shardCount : ℕ
  serverAddr : SockAddr
  workers_pos : 0 < workers
  shard_pos : 0 < shardCount

/-- `TCP_SPSC_QUEUE_SIZE` and `TLS_SPSC_QUEUE_SIZE`. -/
def spscQueueSize : ℕ := 65536

/-- A packet with the number of its arrival. -/
structure Frame where
  index : ℕ
  packet : Packet
  deriving DecidableEq

/-- An event with the frame that it comes from, if it is one of this reactor. -/
structure RoutedEvent where
  event : Event
  origin : Option Frame
  deriving DecidableEq

namespace IngressConfig

instance (cfg : IngressConfig) : NeZero cfg.workers := ⟨cfg.workers_pos.ne'⟩

instance (cfg : IngressConfig) : NeZero cfg.shardCount := ⟨cfg.shard_pos.ne'⟩

/-- `fd % m_tcpWorkers.size()`, and the same for TLS. -/
def workerOf (cfg : IngressConfig) (fd : Int) : Fin cfg.workers :=
  ⟨(fd % 2 ^ 64).toNat % cfg.workers, Nat.mod_lt _ cfg.workers_pos⟩

/-- The packet of a frame. -/
def toPacket (cfg : IngressConfig) (fd : Int) (peer : SockAddr) (payload : List UInt8) : Packet :=
  .make fd cfg.protocol payload peer cfg.serverAddr

end IngressConfig

/-- Where a worker is in `RxRouter::handlePacket` once the session check has passed:
    before the push of the event, or before the notification of the shard. -/
inductive Routing (cfg : IngressConfig) where
  | none
  | dispatch (k : Fin cfg.shardCount) (event : RoutedEvent)
  | notify (k : Fin cfg.shardCount)
  deriving DecidableEq

/-- `pending` are the frames that the reactor has cut out and not handed on, and
    `calling` the worker whose `enqueueRx` it is in. `others` counts the other threads
    that are about to notify a shard. -/
structure Ingress (cfg : IngressConfig) where
  pending : List Frame
  calling : Option (Fin cfg.workers)
  workers : Fin cfg.workers → RxWorker Frame
  routing : Fin cfg.workers → Routing cfg
  sessions : SessionManager
  shards : Fin cfg.shardCount → ShardWorker RoutedEvent Action
  others : Fin cfg.shardCount → ℕ
  /-- The frames in the order of their arrival. -/
  arrivals : List Packet
  /-- The frames that led to an event, by worker, each with the shard. -/
  routed : Fin cfg.workers → List (Frame × Fin cfg.shardCount)

namespace Ingress

variable {cfg : IngressConfig}

def init (cfg : IngressConfig) : Ingress cfg where
  pending := []
  calling := none
  workers _ := .init Frame spscQueueSize
  routing _ := .none
  sessions := .empty
  shards _ := .init RoutedEvent Action
  others _ := 0
  arrivals := []
  routed _ := []

def setWorker (s : Ingress cfg) (w : Fin cfg.workers) (worker : RxWorker Frame) : Ingress cfg :=
  { s with workers := Function.update s.workers w worker }

def setShard (s : Ingress cfg) (k : Fin cfg.shardCount) (shard : ShardWorker RoutedEvent Action) :
    Ingress cfg :=
  { s with shards := Function.update s.shards k shard }

def setRouting (s : Ingress cfg) (w : Fin cfg.workers) (routing : Routing cfg) : Ingress cfg :=
  { s with routing := Function.update s.routing w routing }

/-! ## The reactor -/

/-- The packets with their numbers, from `start` on. -/
def number (start : ℕ) (packets : List Packet) : List Frame :=
  (packets.zipIdx start).map fun p => ⟨p.2, p.1⟩

/-- `receive` cuts frames out of the ring of a connection, in the order of its loop. -/
def receive (s : Ingress cfg) (fd : Int) (peer : SockAddr) (payloads : List (List UInt8)) :
    Option (Ingress cfg) :=
  match s.pending, s.calling with
  | [], none =>
    let packets := payloads.map (cfg.toPacket fd peer)
    some { s with pending := number s.arrivals.length packets, arrivals := s.arrivals ++ packets }
  | _, _ => none

/-- The reactor calls `enqueueRx` for the next frame. -/
def enqueueRx (s : Ingress cfg) : Option (Ingress cfg) :=
  match s.pending, s.calling with
  | frame :: rest, none =>
    let w := cfg.workerOf frame.packet.fd
    ((s.workers w).step (.enqueueRx frame)).map fun worker =>
      { s.setWorker w worker with pending := rest, calling := some w }
  | _, _ => none

/-- An access of the `enqueue` in `enqueueRx`. -/
def producer (s : Ingress cfg) : Option (Ingress cfg) :=
  match s.calling with
  | some w => ((s.workers w).step .producer).map fun worker => s.setWorker w worker
  | none => none

/-- The end of `enqueueRx` after the item was accepted. -/
def wakeup (s : Ingress cfg) : Option (Ingress cfg) :=
  match s.calling with
  | some w =>
    ((s.workers w).step .wakeup).map fun worker => { s.setWorker w worker with calling := none }
  | none => none

/-- The end of `enqueueRx` when the queue was full. -/
def dropped (s : Ingress cfg) : Option (Ingress cfg) :=
  match s.calling with
  | some w =>
    if (s.workers w).queue.producer = .returned false then some { s with calling := none } else none
  | none => none

/-! ## The workers -/

/-- The steps of a worker outside `handlePacket`, and the steps that start and stop
    it. -/
def ofWorker : RxWorker.Act Frame → Routing cfg → Bool
  | .loop, .none | .interrupt, .none | .wake, .none | .drain, .none | .dequeue, .none
  | .consumer, .none | .got, .none => true
  | .start, _ | .stop, _ | .stopWakeup, _ => true
  | _, _ => false

/-- The shard and the event that `handlePacket` dispatches. -/
def target (cfg : IngressConfig) : Option (ℕ × Event) → Option (Fin cfg.shardCount × Event)
  | some (idx, event) => if h : idx < cfg.shardCount then some (⟨idx, h⟩, event) else none
  | none => none

/-- `RxRouter::handlePacket` up to the dispatch. -/
def route (s : Ingress cfg) (w : Fin cfg.workers) (drawn : DrawnId) : Option (Ingress cfg) :=
  match s.routing w, (s.workers w).pc with
  | .none, .handling _ frame =>
    let result := RxRouter.handlePacket cfg.shardCount s.sessions drawn frame.packet
    ((s.workers w).step .handle).map fun worker =>
      match target cfg result.2 with
      | none => { s.setWorker w worker with sessions := result.1 }
      | some (k, event) =>
        { (s.setWorker w worker).setRouting w (.dispatch k ⟨event, some frame⟩) with
          sessions := result.1
          routed := Function.update s.routed w (s.routed w ++ [(frame, k)]) }
  | _, _ => none

/-- `ShardManager::dispatch`: the push of `enqueueEvent`. -/
def dispatch (s : Ingress cfg) (w : Fin cfg.workers) : Option (Ingress cfg) :=
  match s.routing w with
  | .dispatch k event =>
    ((s.shards k).step (.push event)).map fun shard => (s.setShard k shard).setRouting w (.notify k)
  | _ => none

/-- `notify_one` in `enqueueEvent`. -/
def notify (s : Ingress cfg) (w : Fin cfg.workers) : Option (Ingress cfg) :=
  match s.routing w with
  | .notify k => ((s.shards k).step .notify).map fun shard => (s.setShard k shard).setRouting w .none
  | _ => none

/-! ## The shards -/

/-- The steps of the thread of a shard, of time, and of the thread that stops it. -/
def ofShard : ShardWorker.Act RoutedEvent Action → Bool
  | .push _ | .notify => false
  | _ => true

/-- Another thread pushes an event. -/
def otherPush (s : Ingress cfg) (k : Fin cfg.shardCount) (event : Event) : Option (Ingress cfg) :=
  ((s.shards k).step (.push ⟨event, none⟩)).map fun shard =>
    { s.setShard k shard with others := Function.update s.others k (s.others k + 1) }

/-- Another thread notifies the shard that it has pushed an event to. -/
def otherNotify (s : Ingress cfg) (k : Fin cfg.shardCount) : Option (Ingress cfg) :=
  if 0 < s.others k then
    ((s.shards k).step .notify).map fun shard =>
      { s.setShard k shard with others := Function.update s.others k (s.others k - 1) }
  else none

inductive Act (cfg : IngressConfig) where
  | receive (fd : Int) (peer : SockAddr) (payloads : List (List UInt8))
  | enqueueRx
  | producer
  | wakeup
  | dropped
  | worker (w : Fin cfg.workers) (a : RxWorker.Act Frame)
  | route (w : Fin cfg.workers) (drawn : DrawnId)
  | dispatch (w : Fin cfg.workers)
  | notify (w : Fin cfg.workers)
  | shard (k : Fin cfg.shardCount) (a : ShardWorker.Act RoutedEvent Action)
  | otherPush (k : Fin cfg.shardCount) (event : Event)
  | otherNotify (k : Fin cfg.shardCount)
  /-- Another thread changes the session table. -/
  | otherSession (sessions : SessionManager)

def step (s : Ingress cfg) : Act cfg → Option (Ingress cfg)
  | .receive fd peer payloads => s.receive fd peer payloads
  | .enqueueRx => s.enqueueRx
  | .producer => s.producer
  | .wakeup => s.wakeup
  | .dropped => s.dropped
  | .worker w a =>
    if ofWorker a (s.routing w) then
      ((s.workers w).step a).map fun worker => s.setWorker w worker
    else none
  | .route w drawn => s.route w drawn
  | .dispatch w => s.dispatch w
  | .notify w => s.notify w
  | .shard k a =>
    if ofShard a then ((s.shards k).step a).map fun shard => s.setShard k shard else none
  | .otherPush k event => s.otherPush k event
  | .otherNotify k => s.otherNotify k
  | .otherSession sessions => some { s with sessions := sessions }

/-- A call of `TcpReactor::receive` is a step of the reactor here: its packets are the
    frames that arrive, and each goes to the worker that is selected for it. -/
theorem receive_of_tcpReceive {s : Ingress cfg} (hprotocol : cfg.protocol = .tcp)
    (hpending : s.pending = []) (hcalling : s.calling = none) (tlsServer : Bool)
    (conn : TcpConnection) (socket : List UInt8) :
    let out := (TcpReactor.receive ⟨tlsServer, cfg.workers, cfg.serverAddr⟩ conn socket).1
    (∀ x ∈ out, x.1 = (cfg.workerOf x.2.fd).val) ∧
      ∃ payloads, s.receive conn.fd conn.peer payloads = some { s with
        pending := number s.arrivals.length (out.map Prod.snd)
        arrivals := s.arrivals ++ out.map Prod.snd } := by
  intro out
  obtain ⟨payloads, hout⟩ : ∃ payloads : List (List UInt8), out = payloads.map
      (TcpReactor.toWorker ⟨tlsServer, cfg.workers, cfg.serverAddr⟩ conn) := by
    simp only [out, TcpReactor.receive]
    split
    · exact ⟨[], rfl⟩
    · split
      next payloads _ => exact ⟨payloads, rfl⟩
      next payloads _ _ => exact ⟨payloads, rfl⟩
  have hpackets : out.map Prod.snd = payloads.map (cfg.toPacket conn.fd conn.peer) := by
    rw [hout, List.map_map]
    refine List.map_congr_left fun payload _ => ?_
    rw [IngressConfig.toPacket, hprotocol]
    rfl
  refine ⟨fun x hx => ?_, payloads, ?_⟩
  · obtain ⟨payload, _, rfl⟩ := List.mem_map.mp (hout ▸ hx)
    rfl
  · rw [receive, hpending, hcalling, hpackets]

/-- What a step does to the frames and the events. -/
inductive Moves (s : Ingress cfg) : Ingress cfg → Prop
  | receive {packets : List Packet} (hpending : s.pending = []) :
    Moves s
      { s with pending := number s.arrivals.length packets, arrivals := s.arrivals ++ packets }
  | enqueueRx {w : Fin cfg.workers} {frame : Frame} {rest : List Frame} {worker : RxWorker Frame}
    {calling : Option (Fin cfg.workers)} (hpending : s.pending = frame :: rest)
    (hw : cfg.workerOf frame.packet.fd = w)
    (hstep : (s.workers w).step (.enqueueRx frame) = some worker) :
    Moves s { s.setWorker w worker with pending := rest, calling := calling }
  | worker {w : Fin cfg.workers} {a : RxWorker.Act Frame} {worker : RxWorker Frame}
    {calling : Option (Fin cfg.workers)} {sessions : SessionManager} (hitem : a.item = [])
    (hstep : (s.workers w).step a = some worker) :
    Moves s { s.setWorker w worker with calling := calling, sessions := sessions }
  | routed {w : Fin cfg.workers} {last : Bool} {frame : Frame} {worker : RxWorker Frame}
    {k : Fin cfg.shardCount} {event : Event} {sessions : SessionManager}
    (hrouting : s.routing w = .none) (hpc : (s.workers w).pc = .handling last frame)
    (hstep : (s.workers w).step .handle = some worker) :
    Moves s { (s.setWorker w worker).setRouting w (.dispatch k ⟨event, some frame⟩) with
      sessions := sessions
      routed := Function.update s.routed w (s.routed w ++ [(frame, k)]) }
  | dispatch {w : Fin cfg.workers} {k : Fin cfg.shardCount} {event : RoutedEvent}
    {shard : ShardWorker RoutedEvent Action} (hrouting : s.routing w = .dispatch k event)
    (hstep : (s.shards k).step (.push event) = some shard) :
    Moves s ((s.setShard k shard).setRouting w (.notify k))
  | notify {w : Fin cfg.workers} {k : Fin cfg.shardCount} {shard : ShardWorker RoutedEvent Action}
    (hrouting : s.routing w = .notify k) (hstep : (s.shards k).step .notify = some shard) :
    Moves s ((s.setShard k shard).setRouting w .none)
  | shard {k : Fin cfg.shardCount} {a : ShardWorker.Act RoutedEvent Action}
    {shard : ShardWorker RoutedEvent Action} {others : Fin cfg.shardCount → ℕ}
    (hevent : a.event.filterMap RoutedEvent.origin = []) (hstep : (s.shards k).step a = some shard) :
    Moves s { s.setShard k shard with others := others }
  | other {calling : Option (Fin cfg.workers)} {sessions : SessionManager} :
    Moves s { s with calling := calling, sessions := sessions }

section Inversion

variable {s s' : Ingress cfg}

theorem item_eq_nil_of_ofWorker {a : RxWorker.Act Frame} {routing : Routing cfg}
    (h : ofWorker a routing = true) : a.item = [] := by
  cases a with
  | enqueueRx frame => cases routing <;> cases h
  | _ => rfl

theorem event_eq_nil_of_ofShard {a : ShardWorker.Act RoutedEvent Action} (h : ofShard a = true) :
    a.event = [] := by
  cases a with
  | push event => cases h
  | _ => rfl

theorem moves_enqueueRx (h : s.enqueueRx = some s') : Moves s s' := by
  unfold enqueueRx at h
  split at h
  next frame rest hpending _ =>
    obtain ⟨worker, hworker, rfl⟩ := Option.map_eq_some_iff.mp h
    exact .enqueueRx hpending rfl hworker
  next => cases h

theorem moves_route {w : Fin cfg.workers} {drawn : DrawnId} (h : s.route w drawn = some s') :
    Moves s s' := by
  unfold route at h
  split at h
  next last frame hrouting hpc =>
    obtain ⟨worker, hworker, rfl⟩ := Option.map_eq_some_iff.mp h
    split
    next => exact .worker rfl hworker
    next => exact .routed hrouting hpc hworker
  next => cases h

theorem moves_of_step {a : Act cfg} (h : s.step a = some s') : Moves s s' := by
  cases a with
  | receive fd peer payloads =>
    simp only [step, receive] at h
    split at h
    next hpending _ =>
      cases h
      exact .receive hpending
    next => cases h
  | enqueueRx => exact moves_enqueueRx h
  | producer =>
    simp only [step, producer] at h
    split at h
    next =>
      obtain ⟨worker, hworker, rfl⟩ := Option.map_eq_some_iff.mp h
      exact .worker rfl hworker
    next => cases h
  | wakeup =>
    simp only [step, wakeup] at h
    split at h
    next =>
      obtain ⟨worker, hworker, rfl⟩ := Option.map_eq_some_iff.mp h
      exact .worker rfl hworker
    next => cases h
  | dropped =>
    simp only [step, dropped] at h
    split at h
    next =>
      obtain ⟨_, heq⟩ := Option.ite_none_right_eq_some.mp h
      cases heq
      exact .other
    next => cases h
  | worker w a =>
    obtain ⟨hof, hmap⟩ := Option.ite_none_right_eq_some.mp h
    obtain ⟨worker, hworker, rfl⟩ := Option.map_eq_some_iff.mp hmap
    exact .worker (item_eq_nil_of_ofWorker hof) hworker
  | route w drawn => exact moves_route h
  | dispatch w =>
    simp only [step, dispatch] at h
    split at h
    next hrouting =>
      obtain ⟨shard, hshard, rfl⟩ := Option.map_eq_some_iff.mp h
      exact .dispatch hrouting hshard
    next => cases h
  | notify w =>
    simp only [step, notify] at h
    split at h
    next hrouting =>
      obtain ⟨shard, hshard, rfl⟩ := Option.map_eq_some_iff.mp h
      exact .notify hrouting hshard
    next => cases h
  | shard k a =>
    obtain ⟨hof, hmap⟩ := Option.ite_none_right_eq_some.mp h
    obtain ⟨shard, hshard, rfl⟩ := Option.map_eq_some_iff.mp hmap
    exact .shard (by rw [event_eq_nil_of_ofShard hof]; rfl) hshard
  | otherPush k event =>
    simp only [step, otherPush] at h
    obtain ⟨shard, hshard, rfl⟩ := Option.map_eq_some_iff.mp h
    exact .shard rfl hshard
  | otherNotify k =>
    obtain ⟨_, hmap⟩ := Option.ite_none_right_eq_some.mp h
    obtain ⟨shard, hshard, rfl⟩ := Option.map_eq_some_iff.mp hmap
    exact .shard rfl hshard
  | otherSession sessions =>
    cases h
    exact .other

end Inversion

/-! ## The line of a worker -/

/-- The frames of a worker. -/
def owns (w : Fin cfg.workers) (frame : Frame) : Bool := cfg.workerOf frame.packet.fd = w

/-- The frames that a worker has dispatched, has inside, or will be given, oldest
    first. -/
def line (s : Ingress cfg) (w : Fin cfg.workers) : List Frame :=
  (s.routed w).map Prod.fst ++ ((s.workers w).inside ++ s.pending.filter (owns w))

/-- The frames whose events a worker has dispatched to a shard. -/
def sent (s : Ingress cfg) (w : Fin cfg.workers) (k : Fin cfg.shardCount) : List Frame :=
  ((s.routed w).filter fun r => r.2 = k).map Prod.fst

/-- The frames of the events that a shard has from a worker. -/
def received (s : Ingress cfg) (w : Fin cfg.workers) (k : Fin cfg.shardCount) : List Frame :=
  ((s.shards k).events.filterMap RoutedEvent.origin).filter (owns w)

/-- The frame of the event that a worker is about to push to a shard. -/
def inHand (s : Ingress cfg) (w : Fin cfg.workers) (k : Fin cfg.shardCount) : List Frame :=
  match s.routing w with
  | .dispatch target event => if target = k then event.origin.toList else []
  | _ => []

structure Inv (s : Ingress cfg) : Prop where
  queues : ∀ w, (s.workers w).queue.Inv
  shards : ∀ k, (s.shards k).Inv
  arrived : ∀ w, ∀ frame ∈ s.line w, s.arrivals[frame.index]? = some frame.packet
  owned : ∀ w, ∀ frame ∈ s.line w, owns w frame = true
  sorted : ∀ w, (s.line w).Pairwise fun f g => f.index < g.index
  fed : ∀ w k, s.received w k ++ s.inHand w k = s.sent w k

theorem inv_init (cfg : IngressConfig) : (init cfg).Inv where
  queues _ := SpscQueue.inv_init ⟨16, by decide, rfl⟩
  shards _ := ShardWorker.inv_init
  arrived w frame hframe := by cases hframe
  owned w frame hframe := by cases hframe
  sorted w := List.Pairwise.nil
  fed w k := rfl

section Steps

variable {s s' : Ingress cfg}

/-- A step that only takes frames out of the lines, and does not touch what is
    dispatched. -/
theorem Inv.of_sublist (h : s.Inv) (hqueues : ∀ w, (s'.workers w).queue.Inv)
    (hline : ∀ w, (s'.line w).Sublist (s.line w)) (harrivals : s'.arrivals = s.arrivals)
    (hshards : s'.shards = s.shards) (hrouting : s'.routing = s.routing)
    (hrouted : s'.routed = s.routed) : s'.Inv where
  queues := hqueues
  shards := hshards ▸ h.shards
  arrived w frame hframe := harrivals ▸ h.arrived w frame ((hline w).subset hframe)
  owned w frame hframe := h.owned w frame ((hline w).subset hframe)
  sorted w := (h.sorted w).sublist (hline w)
  fed w k := by
    have hfed := h.fed w k
    simp only [received, inHand, sent] at hfed ⊢
    rw [hshards, hrouting, hrouted]
    exact hfed

theorem Inv.queues_setWorker {w : Fin cfg.workers} {a : RxWorker.Act Frame} {worker : RxWorker Frame}
    (h : s.Inv) (hstep : (s.workers w).step a = some worker) (w' : Fin cfg.workers) :
    (Function.update s.workers w worker w').queue.Inv :=
  (Function.forall_update_iff s.workers fun _ worker => worker.queue.Inv).mpr
    ⟨RxWorker.queue_inv_of_step (h.queues w) hstep, fun w' _ => h.queues w'⟩ w'

theorem Inv.worker {w : Fin cfg.workers} {a : RxWorker.Act Frame} {worker : RxWorker Frame}
    {calling : Option (Fin cfg.workers)} {sessions : SessionManager} (h : s.Inv) (hitem : a.item = [])
    (hstep : (s.workers w).step a = some worker) :
    Inv { s.setWorker w worker with calling := calling, sessions := sessions } := by
  have hinside : ∀ w', (Function.update s.workers w worker w').inside.Sublist
      (s.workers w').inside := by
    refine (Function.forall_update_iff s.workers fun w' worker =>
      worker.inside.Sublist (s.workers w').inside).mpr ⟨?_, fun w' _ => List.Sublist.refl _⟩
    have hsub := RxWorker.inside_of_step (h.queues w) hstep
    rwa [hitem, List.append_nil] at hsub
  refine h.of_sublist (h.queues_setWorker hstep) (fun w' => ?_) rfl rfl rfl rfl
  exact ((hinside w').append_right _).append_left _

theorem Inv.enqueueRx {w : Fin cfg.workers} {frame : Frame} {rest : List Frame}
    {worker : RxWorker Frame} {calling : Option (Fin cfg.workers)} (h : s.Inv)
    (hpending : s.pending = frame :: rest) (hw : cfg.workerOf frame.packet.fd = w)
    (hstep : (s.workers w).step (.enqueueRx frame) = some worker) :
    Inv { s.setWorker w worker with pending := rest, calling := calling } := by
  refine h.of_sublist (h.queues_setWorker hstep) (fun w' => ?_) rfl rfl rfl rfl
  refine List.Sublist.append_left ?_ _
  rw [hpending]
  by_cases hw' : w' = w
  · -- the frame goes from the front of the reactor to the end of its worker
    subst hw'
    have hinside := RxWorker.inside_of_step (h.queues w') hstep
    have hsub := hinside.append_right (rest.filter (owns w'))
    simpa [setWorker, owns, hw, RxWorker.Act.item] using hsub
  · simp [setWorker, owns, hw, hw', Ne.symm hw']

/-! ### Arrivals -/

theorem mem_number {start : ℕ} {packets : List Packet} {frame : Frame}
    (h : frame ∈ number start packets) :
    start ≤ frame.index ∧ packets[frame.index - start]? = some frame.packet := by
  obtain ⟨⟨packet, i⟩, hmem, rfl⟩ := List.mem_map.mp h
  exact List.mk_mem_zipIdx_iff_le_and_getElem?_sub.mp hmem

theorem sorted_number (start : ℕ) (packets : List Packet) :
    (number start packets).Pairwise fun f g => f.index < g.index := by
  have hindex : (number start packets).map Frame.index = List.range' start packets.length := by
    rw [number, List.map_map]
    exact List.zipIdx_map_snd start packets
  refine List.pairwise_map.mp (?_ : ((number start packets).map Frame.index).Pairwise (· < ·))
  rw [hindex]
  exact List.pairwise_lt_range'

theorem Inv.receive {packets : List Packet} (h : s.Inv) (hpending : s.pending = []) :
    Inv { s with
      pending := number s.arrivals.length packets, arrivals := s.arrivals ++ packets } := by
  set new := number s.arrivals.length packets with hnew
  set t : Ingress cfg := { s with pending := new, arrivals := s.arrivals ++ packets } with ht
  have hline : ∀ w, t.line w = s.line w ++ new.filter (owns w) := by
    intro w
    simp [line, hpending, ht]
  have hold : ∀ w, ∀ frame ∈ s.line w, frame.index < s.arrivals.length := fun w frame hframe =>
    (List.getElem?_eq_some_iff.mp (h.arrived w frame hframe)).1
  refine ⟨h.queues, h.shards, fun w frame hframe => ?_, fun w frame hframe => ?_, fun w => ?_, h.fed⟩
  · rw [hline, List.mem_append] at hframe
    rcases hframe with hframe | hframe
    · exact (List.getElem?_append_left (hold w frame hframe)).trans (h.arrived w frame hframe)
    · obtain ⟨hle, hget⟩ := mem_number (List.mem_of_mem_filter hframe)
      exact (List.getElem?_append_right hle).trans hget
  · rw [hline, List.mem_append] at hframe
    rcases hframe with hframe | hframe
    · exact h.owned w frame hframe
    · exact (List.mem_filter.mp hframe).2
  · rw [hline]
    refine List.pairwise_append.mpr
      ⟨h.sorted w, (sorted_number _ _).filter _, fun frame hframe frame' hframe' => ?_⟩
    exact (hold w frame hframe).trans_le (mem_number (List.mem_of_mem_filter hframe')).1

/-! ### Routing -/

theorem Inv.routed {w : Fin cfg.workers} {last : Bool} {frame : Frame} {worker : RxWorker Frame}
    {k : Fin cfg.shardCount} {event : Event} {sessions : SessionManager} (h : s.Inv)
    (hrouting : s.routing w = .none) (hpc : (s.workers w).pc = .handling last frame)
    (hstep : (s.workers w).step .handle = some worker) :
    Inv { (s.setWorker w worker).setRouting w (.dispatch k ⟨event, some frame⟩) with
      sessions := sessions
      routed := Function.update s.routed w (s.routed w ++ [(frame, k)]) } := by
  set t : Ingress cfg := { (s.setWorker w worker).setRouting w (.dispatch k ⟨event, some frame⟩) with
    sessions := sessions
    routed := Function.update s.routed w (s.routed w ++ [(frame, k)]) } with ht
  -- the frame stays where it is in the line
  have hline : ∀ w', t.line w' = s.line w' := by
    intro w'
    by_cases hw : w' = w
    · subst hw
      simp [line, ht, setWorker, setRouting, RxWorker.inside_of_handle hpc hstep]
    · simp [line, ht, setWorker, setRouting, hw]
  refine ⟨h.queues_setWorker hstep, h.shards, fun w' => ?_, fun w' => ?_, fun w' => ?_, fun w' k' => ?_⟩
  · rw [hline]
    exact h.arrived w'
  · rw [hline]
    exact h.owned w'
  · rw [hline]
    exact h.sorted w'
  · have hfed := h.fed w' k'
    by_cases hw : w' = w
    · subst hw
      have hnone : s.inHand w' k' = [] := by simp [inHand, hrouting]
      rw [hnone, List.append_nil] at hfed
      have hreceived : t.received w' k' = s.received w' k' := rfl
      rw [hreceived, hfed]
      by_cases hk : k = k' <;> simp [sent, inHand, ht, setRouting, hk]
    · have hsent : t.sent w' k' = s.sent w' k' := by simp [sent, ht, hw]
      have hinHand : t.inHand w' k' = s.inHand w' k' := by
        simp [inHand, ht, setRouting, setWorker, hw]
      rw [hsent, hinHand]
      exact hfed

/-! ### Shards -/

/-- A step of a shard adds the event that it brings to what the shard has received. -/
theorem received_setShard {k : Fin cfg.shardCount} {a : ShardWorker.Act RoutedEvent Action}
    {shard : ShardWorker RoutedEvent Action} (hstep : (s.shards k).step a = some shard)
    (w : Fin cfg.workers) (k' : Fin cfg.shardCount) :
    (s.setShard k shard).received w k' = s.received w k' ++
      if k' = k then (a.event.filterMap RoutedEvent.origin).filter (owns w) else [] := by
  by_cases hk : k' = k
  · subst hk
    simp [received, setShard, ShardWorker.events_of_step hstep]
  · simp [received, setShard, hk]

/-- A step of a shard, in which the event it brings leaves the hand of its worker. -/
theorem Inv.setShard {k : Fin cfg.shardCount} {a : ShardWorker.Act RoutedEvent Action}
    {shard : ShardWorker RoutedEvent Action} (h : s.Inv) (hstep : (s.shards k).step a = some shard)
    (hshards : s'.shards = (s.setShard k shard).shards) (hworkers : s'.workers = s.workers)
    (hpending : s'.pending = s.pending) (harrivals : s'.arrivals = s.arrivals)
    (hrouted : s'.routed = s.routed)
    (hinHand : ∀ w k', (if k' = k then (a.event.filterMap RoutedEvent.origin).filter (owns w) else []) ++
      s'.inHand w k' = s.inHand w k') : s'.Inv := by
  have hline : ∀ w, s'.line w = s.line w := fun w => by rw [line, line, hworkers, hpending, hrouted]
  refine ⟨hworkers ▸ h.queues, ?_, fun w => ?_, fun w => ?_, fun w => ?_, fun w k' => ?_⟩
  · rw [hshards]
    exact (Function.forall_update_iff s.shards fun _ shard => shard.Inv).mpr
      ⟨(h.shards k).step hstep, fun k' _ => h.shards k'⟩
  · rw [hline, harrivals]
    exact h.arrived w
  · rw [hline]
    exact h.owned w
  · rw [hline]
    exact h.sorted w
  · have hreceived : s'.received w k' = (s.setShard k shard).received w k' := by
      rw [received, received, hshards]
    have hsent : s'.sent w k' = s.sent w k' := by rw [sent, sent, hrouted]
    rw [hreceived, received_setShard hstep, List.append_assoc, hinHand, hsent]
    exact h.fed w k'

/-- The frame of the event in hand is one of the worker. -/
theorem Inv.owns_of_mem_inHand {w : Fin cfg.workers} {k : Fin cfg.shardCount} {frame : Frame}
    (h : s.Inv) (hframe : frame ∈ s.inHand w k) : owns w frame = true := by
  have hsent : frame ∈ s.sent w k := h.fed w k ▸ List.mem_append_right _ hframe
  obtain ⟨r, hr, rfl⟩ := List.mem_map.mp hsent
  exact h.owned w r.1 (List.mem_append_left _ (List.mem_map_of_mem (List.mem_of_mem_filter hr)))

theorem Inv.dispatch {w : Fin cfg.workers} {k : Fin cfg.shardCount} {event : RoutedEvent}
    {shard : ShardWorker RoutedEvent Action} (h : s.Inv) (hrouting : s.routing w = .dispatch k event)
    (hstep : (s.shards k).step (.push event) = some shard) :
    Inv ((s.setShard k shard).setRouting w (.notify k)) := by
  refine h.setShard hstep rfl rfl rfl rfl rfl fun w' k' => ?_
  have howns : ∀ frame ∈ event.origin.toList, owns w frame = true := fun frame hframe =>
    h.owns_of_mem_inHand (k := k) (by simpa [inHand, hrouting] using hframe)
  have horigin : (ShardWorker.Act.push event : ShardWorker.Act RoutedEvent Action).event.filterMap
      RoutedEvent.origin = event.origin.toList := by
    cases heq : event.origin <;> simp [ShardWorker.Act.event, heq]
  rw [horigin]
  by_cases hw : w' = w
  · -- the event leaves the worker's hand
    subst hw
    rw [List.filter_eq_self.mpr howns]
    simp [inHand, setRouting, hrouting, eq_comm]
  · have hnone : event.origin.toList.filter (owns w') = [] := by
      refine List.filter_eq_nil_iff.mpr fun frame hframe => ?_
      have hown : cfg.workerOf frame.packet.fd = w := by simpa [owns] using howns frame hframe
      simpa [owns, hown] using Ne.symm hw
    simp [hnone, inHand, setRouting, Ingress.setShard, hw]

theorem Inv.step {a : Act cfg} (h : s.Inv) (hstep : s.step a = some s') : s'.Inv := by
  cases moves_of_step hstep with
  | receive hpending => exact h.receive hpending
  | enqueueRx hpending hw hworker => exact h.enqueueRx hpending hw hworker
  | worker hitem hworker => exact h.worker hitem hworker
  | routed hrouting hpc hworker => exact h.routed hrouting hpc hworker
  | dispatch hrouting hshard => exact h.dispatch hrouting hshard
  | @notify w k shard hrouting hshard =>
    refine h.setShard hshard rfl rfl rfl rfl rfl fun w' k' => ?_
    by_cases hw : w' = w
    · subst hw
      simp [inHand, setRouting, hrouting, ShardWorker.Act.event]
    · simp [inHand, setRouting, Ingress.setShard, hw, ShardWorker.Act.event]
  | shard hevent hshard =>
    refine h.setShard hshard rfl rfl rfl rfl rfl fun w' k' => ?_
    simp [hevent, inHand, Ingress.setShard]
  | other => exact ⟨h.queues, h.shards, h.arrived, h.owned, h.sorted, h.fed⟩

end Steps

/-! ## Order of the handled events -/

/-- The frames whose events a shard has handled, in the order of handling. -/
def handledFrames (s : Ingress cfg) (k : Fin cfg.shardCount) : List Frame :=
  (ShardWorker.handledEvents (s.shards k).log).filterMap RoutedEvent.origin

/-- Their numbers. -/
def handled (s : Ingress cfg) (k : Fin cfg.shardCount) : List ℕ := (s.handledFrames k).map Frame.index

/-- The frame that arrived as number `i` has led to an event on the shard. -/
def LeadsTo (s : Ingress cfg) (i : ℕ) (k : Fin cfg.shardCount) : Prop :=
  ∃ w, ∃ frame, (frame, k) ∈ s.routed w ∧ frame.index = i

/-- Of two frames of a connection that lead to events on one shard, the event of the
    first is handled before that of the second. The event of a frame is handled at most
    once, and the actions that are committed while an event is handled are executed
    before the next event of the shard. -/
structure InOrder (s : Ingress cfg) : Prop where
  ordered : ∀ {k : Fin cfg.shardCount} {i j : ℕ} {p q : Packet}, s.arrivals[i]? = some p →
    s.arrivals[j]? = some q → p.fd = q.fd → i < j → s.LeadsTo i k → j ∈ s.handled k →
    [i, j].Sublist (s.handled k)
  nodup : ∀ k, (s.handled k).Nodup
  unique : ∀ {k k' : Fin cfg.shardCount} {i : ℕ}, i ∈ s.handled k → i ∈ s.handled k' → k = k'
  actions : ∀ k, ShardWorker.ActionsFirst (s.shards k).log

/-- In an increasing list, what is smaller than an element of an initial part stands
    before it in that part. -/
theorem precedes_of_pairwise {left right : List Frame} {f g : Frame}
    (hsorted : (left ++ right).Pairwise fun f g => f.index < g.index) (hf : f ∈ left ++ right)
    (hg : g ∈ left) (hlt : f.index < g.index) : [f, g].Sublist left := by
  obtain ⟨hleft, _, hcross⟩ := List.pairwise_append.mp hsorted
  have hmem : f ∈ left := by
    rcases List.mem_append.mp hf with hf | hf
    · exact hf
    · exact absurd (hcross g hg f hf) (Nat.lt_asymm hlt)
  obtain ⟨before, after, rfl⟩ := List.append_of_mem hg
  obtain ⟨_, hafter, _⟩ := List.pairwise_append.mp hleft
  have hbefore : f ∈ before := by
    rcases List.mem_append.mp hmem with hf | hf
    · exact hf
    · rcases List.mem_cons.mp hf with rfl | hf
      · exact absurd hlt (Nat.lt_irrefl _)
      · exact absurd ((List.pairwise_cons.mp hafter).1 f hf) (Nat.lt_asymm hlt)
  exact (List.singleton_sublist.mpr hbefore).append (List.singleton_sublist.mpr List.mem_cons_self)

theorem nodup_of_pairwise {frames : List Frame} (h : frames.Pairwise fun f g => f.index < g.index) :
    frames.Nodup :=
  h.imp fun hlt heq => hlt.ne (congrArg Frame.index heq)

section Results

variable {s : Ingress cfg} {w : Fin cfg.workers} {k : Fin cfg.shardCount}

theorem Inv.arrived_of_routed {frame : Frame} (h : s.Inv) (hr : (frame, k) ∈ s.routed w) :
    s.arrivals[frame.index]? = some frame.packet ∧ cfg.workerOf frame.packet.fd = w := by
  have hline : frame ∈ s.line w := List.mem_append_left _ (List.mem_map_of_mem hr)
  exact ⟨h.arrived w frame hline, by simpa [owns] using h.owned w frame hline⟩

/-- What a shard has handled of a worker is an initial part of what the worker has
    dispatched to it. -/
theorem Inv.handled_initial (h : s.Inv) (w : Fin cfg.workers) (k : Fin cfg.shardCount) :
    (s.handledFrames k).filter (owns w) <+: s.sent w k := by
  rw [← h.fed w k, received, ShardWorker.events, List.filterMap_append, List.filter_append,
    List.append_assoc]
  exact List.prefix_append _ _

theorem Inv.sorted_sent (h : s.Inv) (w : Fin cfg.workers) (k : Fin cfg.shardCount) :
    (s.sent w k).Pairwise fun f g => f.index < g.index := by
  refine (h.sorted w).sublist (List.Sublist.trans ?_ (List.sublist_append_left _ _))
  exact List.filter_sublist.map Prod.fst

/-- A handled frame has been routed by its worker. -/
theorem Inv.routed_of_handled {frame : Frame} (h : s.Inv) (hframe : frame ∈ s.handledFrames k) :
    (frame, k) ∈ s.routed (cfg.workerOf frame.packet.fd) := by
  have hown : frame ∈ (s.handledFrames k).filter (owns (cfg.workerOf frame.packet.fd)) :=
    List.mem_filter.mpr ⟨hframe, by simp [owns]⟩
  obtain ⟨⟨f, k'⟩, hr, rfl⟩ := List.mem_map.mp ((h.handled_initial _ k).subset hown)
  obtain ⟨hmem, hk⟩ := List.mem_filter.mp hr
  have hk : k' = k := of_decide_eq_true hk
  exact hk ▸ hmem

/-- The number of a handled frame tells the frame. -/
theorem Inv.eq_of_index {k' : Fin cfg.shardCount} {f g : Frame} (h : s.Inv)
    (hf : f ∈ s.handledFrames k) (hg : g ∈ s.handledFrames k') (hindex : f.index = g.index) : f = g := by
  have hpf := (h.arrived_of_routed (h.routed_of_handled hf)).1
  have hpg := (h.arrived_of_routed (h.routed_of_handled hg)).1
  rw [hindex, hpg, Option.some.injEq] at hpf
  cases f
  cases g
  simp_all

theorem Inv.ordered {i j : ℕ} {p q : Packet} (h : s.Inv) (hp : s.arrivals[i]? = some p)
    (hq : s.arrivals[j]? = some q) (hfd : p.fd = q.fd) (hlt : i < j) (hleads : s.LeadsTo i k)
    (hj : j ∈ s.handled k) : [i, j].Sublist (s.handled k) := by
  obtain ⟨w, f, hf, rfl⟩ := hleads
  obtain ⟨g, hg, rfl⟩ := List.mem_map.mp hj
  obtain ⟨hpf, hwf⟩ := h.arrived_of_routed hf
  obtain ⟨hpg, _⟩ := h.arrived_of_routed (h.routed_of_handled hg)
  -- the descriptor number gives both frames to one worker
  have hwg : cfg.workerOf g.packet.fd = w := by
    rw [← hwf]
    rw [hpf, Option.some.injEq] at hp
    rw [hpg, Option.some.injEq] at hq
    rw [hp, hq, hfd]
  obtain ⟨rest, hsent⟩ := h.handled_initial w k
  have hsorted := h.sorted_sent w k
  have hfsent : f ∈ s.sent w k := List.mem_map_of_mem (List.mem_filter.mpr ⟨hf, by simp⟩)
  rw [← hsent] at hsorted hfsent
  have hgmem : g ∈ (s.handledFrames k).filter (owns w) :=
    List.mem_filter.mpr ⟨hg, by simp [owns, hwg]⟩
  have hpair := precedes_of_pairwise hsorted hfsent hgmem hlt
  exact (hpair.trans List.filter_sublist).map Frame.index

theorem Inv.nodup (h : s.Inv) (k : Fin cfg.shardCount) : (s.handled k).Nodup := by
  have hframes : (s.handledFrames k).Nodup := by
    refine List.nodup_iff_count_le_one.mpr fun frame => ?_
    -- a frame occurs as often as among the frames of its worker
    have hsub := (h.handled_initial (cfg.workerOf frame.packet.fd) k).sublist
    have hnodup := nodup_of_pairwise ((h.sorted_sent _ k).sublist hsub)
    have hcount := List.nodup_iff_count_le_one.mp hnodup frame
    rwa [List.count_filter (by simp [owns])] at hcount
  exact hframes.map_on fun f hf g hg hindex => h.eq_of_index hf hg hindex

theorem Inv.unique {k' : Fin cfg.shardCount} {i : ℕ} (h : s.Inv) (hi : i ∈ s.handled k)
    (hi' : i ∈ s.handled k') : k = k' := by
  obtain ⟨f, hf, rfl⟩ := List.mem_map.mp hi
  obtain ⟨g, hg, hindex⟩ := List.mem_map.mp hi'
  obtain rfl : g = f := h.eq_of_index hg hf hindex
  have hnodup : ((s.routed (cfg.workerOf g.packet.fd)).map Prod.fst).Nodup :=
    nodup_of_pairwise (List.pairwise_append.mp (h.sorted _)).1
  have heq := List.inj_on_of_nodup_map hnodup (h.routed_of_handled hf) (h.routed_of_handled hg) rfl
  exact congrArg Prod.snd heq

end Results

/-- In every run of a reactor, its workers and the shards, the events of a connection
    are handled in order on each shard, each at most once, and each after the actions
    of the events before it. -/
theorem inOrder_of_run {acts : List (Act cfg)} {s : Ingress cfg}
    (hrun : run step (init cfg) acts = some s) : s.InOrder := by
  have h : s.Inv := run_induct (fun _ _ _ h _ hstep => h.step hstep) (inv_init cfg)
    (along_true (init cfg) acts) hrun
  exact ⟨h.ordered, h.nodup, h.unique, fun k => (h.shards k).first⟩

/-- A TLS reactor with two workers and two shards. -/
def twoShards : IngressConfig := ⟨.tls, 2, 2, ⟨0, 8000⟩, by decide, by decide⟩

/-- The ping of the session that `loginTest` opens. -/
def pingPayload : List UInt8 :=
  [0x01, 0x90, 0x00, 0x10] ++ [0, 0, 0, 0, 0, 0, 0, 1] ++ List.replicate 4 0 ++ List.replicate 16 5

/-- The reactor hands a frame to its worker. -/
def handOnActs : List (Act twoShards) :=
  List.flatten [[.enqueueRx], List.replicate 4 .producer, [.wakeup]]

/-- The worker takes a packet and routes it. -/
def routeActs (drawn : DrawnId) : List (Act twoShards) :=
  List.flatten [[.worker 1 .dequeue], List.replicate 5 (.worker 1 .consumer),
    [.worker 1 .got, .route 1 drawn, .dispatch 1, .notify 1]]

/-- The shard handles an event and executes the action of its handler. -/
def shardActs (action : Action) : List (Act twoShards) :=
  [.shard 0 .loop, .shard 0 .wake, .shard 0 .take, .shard 0 (.handle [action]), .shard 0 .act,
    .shard 0 .tick]

/-- A login and a ping on one connection. -/
def loginPingActs : List (Act twoShards) :=
  List.flatten [[.worker 1 .start, .worker 1 .loop,
      .receive 7 ⟨0x0A000001, 40000⟩ [RxRouter.loginTest.payload, pingPayload]],
    handOnActs, handOnActs, [.worker 1 .wake, .worker 1 .drain, .worker 1 .drain],
    routeActs ⟨1, by decide⟩, routeActs ⟨2, by decide⟩,
    [.shard 0 .start], shardActs (.loginSuccessRes 1), shardActs (.pingRes 1 0 0)]

theorem inOrder_loginPing :
    ∃ s, run step (init twoShards) loginPingActs = some s ∧ s.handled 0 = [0, 1] ∧ s.InOrder := by
  have hend : (run step (init twoShards) loginPingActs).map (fun s => s.handled 0) =
      some [0, 1] := by decide +kernel
  obtain ⟨s, hrun, hhandled⟩ := Option.map_eq_some_iff.mp hend
  exact ⟨s, hrun, hhandled, inOrder_of_run hrun⟩

end Ingress

end NfEngine
