import Agentd.Dispatcher.Steps

/-!
# The daemon: dispatcher, relay, control operations and consumers

A `Daemon` puts the dispatcher's `World` together with the relay's pull loops, the operations of
the control plane and the durable consumers of the server.  Each of them is a task that stands at a
stage between two of its accesses to shared state, and `Daemon.step` lets one of them make its next
access.

A pull loop is a task of the runtime that is aborted through its handle.  An abort only takes
effect when the task is not being polled, so a loop that is aborted while it runs goes on until it
suspends at an `await`; `polling` says whether it is running.

The server sends messages to the pull request of a loop, or to one that nobody reads any more.  It
sends new messages in stream order within the window of the consumer, it resends outstanding ones
at will, and an ack or term settles a message when it arrives, which may be late or never.  That
the stream drops messages that are too old is added to these actions in `Daemon/Delivery`.
-/

namespace Agentd

/-! ## Consumers -/

/-- Durable consumer name: `agent-<agent_id>` verbatim. -/
def consumerName (id : AgentId) : String := "agent-" ++ id.raw

/-- What the server is told about a consumer and the properties below depend on. -/
structure ConsumerConfig where
  durableName : String
  filterSubject : String
  maxAckPending : ℕ
  deriving DecidableEq

/-- `consumer_config`. -/
def consumerConfig (id : AgentId) (maxAckPending : ℕ) : ConsumerConfig where
  durableName := consumerName id
  filterSubject := id.subject
  maxAckPending := maxAckPending

/-- A message of the stream. -/
structure Message where
  streamSequence : ℕ
  raw : List UInt8
  deriving DecidableEq

/-- A message that was delivered and is neither acknowledged nor terminated. -/
structure Outstanding where
  message : Message
  deliveryCount : ℕ
  deriving DecidableEq

/-- A durable consumer, as the server keeps it. -/
structure Consumer where
  config : ConsumerConfig
  /-- The stream sequence of the last message sent for the first time. -/
  lastStream : ℕ
  /-- The number of sends, resends included. -/
  lastConsumer : ℕ
  outstanding : List Outstanding
  deriving DecidableEq

/-- What the server sends: a new message, or an outstanding one again. -/
inductive Sending where
  | new (message : Message)
  | again (streamSequence : ℕ)

namespace Consumer

/-- The server sends a message of the agent's consumer. -/
def send (c : Consumer) (agent : AgentId) : Sending → Option (Consumer × Delivery)
  | .new m =>
    if c.outstanding.length < c.config.maxAckPending ∧ c.lastStream < m.streamSequence then
      some ({ c with
          lastStream := m.streamSequence
          lastConsumer := c.lastConsumer + 1
          outstanding := c.outstanding ++ [⟨m, 1⟩] },
        ⟨agent, m.raw, m.streamSequence, c.lastConsumer + 1, 1⟩)
    else none
  | .again seq =>
    match c.outstanding.find? fun p => p.message.streamSequence == seq with
    | some p =>
      some ({ c with
          lastConsumer := c.lastConsumer + 1
          outstanding := c.outstanding.map fun q =>
            if q.message.streamSequence = seq then { q with deliveryCount := q.deliveryCount + 1 }
            else q },
        ⟨agent, p.message.raw, seq, c.lastConsumer + 1, p.deliveryCount + 1⟩)
    | none => none

/-- An ack or a term of the message arrives. -/
def settle (c : Consumer) (seq : ℕ) : Consumer :=
  { c with outstanding := c.outstanding.filter fun p => p.message.streamSequence != seq }

end Consumer

/-- `get_or_create_consumer`: an existing consumer is returned as it is. -/
def getOrCreateConsumer (consumers : AgentId → Option Consumer) (id : AgentId)
    (config : ConsumerConfig) : AgentId → Option Consumer :=
  match consumers id with
  | some _ => consumers
  | none => Function.update consumers id (some ⟨config, 0, 0, []⟩)

/-! ## Pull loops -/

/-- The position of a pull loop. -/
inductive LoopStage where
  /-- Ask for the free slots. -/
  | free
  /-- In the call of `available`. -/
  | counting (call : ℕ)
  /-- Sleep. -/
  | asleep
  /-- Send a fetch request for the given number of messages. -/
  | requesting (free : ℕ)
  /-- Wait for the next message of the request, which still allows `credit` messages; `inbox` is
  sent and not yet read. -/
  | receiving (credit : ℕ) (inbox : List Delivery)
  /-- Wait for the lock of the task set, to spawn the dispatch of a message. -/
  | spawning (d : Delivery) (credit : ℕ) (inbox : List Delivery)

/-- A stage at an `await`, where the loop may suspend. -/
def LoopStage.awaits : LoopStage → Bool
  | .free | .counting _ => false
  | _ => true

/-- The pull request of a loop takes a message, when it allows one more. -/
def LoopStage.accept (d : Delivery) : LoopStage → Option LoopStage
  | .receiving (credit + 1) inbox => some (.receiving credit (inbox ++ [d]))
  | .spawning d' (credit + 1) inbox => some (.spawning d' credit (inbox ++ [d]))
  | _ => none

/-- A pull loop. -/
structure PullLoop where
  agent : AgentId
  stage : LoopStage
  /-- The runtime is polling the task. -/
  polling : Bool
  /-- The task was aborted. -/
  aborted : Bool

/-- `JoinHandle::abort`. -/
def PullLoop.abort (p : PullLoop) : PullLoop := { p with aborted := true }

/-- How a pull loop goes on. -/
inductive LoopMove where
  /-- The runtime starts or continues to poll the task. -/
  | resume
  /-- The task suspends at an `await`. -/
  | suspend
  /-- The next access; an `await` is ready with the expected value. -/
  | advance
  /-- The fetch failed, or the message stream ended or stalled or gave an error. -/
  | fail
  /-- The next message has no JetStream metadata: it is dropped, and the loop reads on. -/
  | skip
  /-- The fetch request stalled. -/
  | stall

/-! ## Control operations -/

/-- A mutation of the registry through the daemon. -/
inductive ControlOp where
  | register (agent : AgentConfig)
  | update (agent : AgentConfig)
  | unregister (id : AgentId)
  | reload

/-- What the environment decides at one step of a control operation. -/
structure ServeOutcome where
  /-- The result of persisting or removing the file. -/
  files : Except ConfigError Unit := .ok ()
  /-- The result of loading the directory. -/
  load : Except ConfigError Registry := .ok Registry.empty
  bindFails : Bool := false

/-- The registry step of a control operation, with the changes it then applies. -/
def ControlOp.perform (op : ControlOp) (r : Registry) (o : ServeOutcome) :
    Except ConfigError (Registry × List Change) :=
  match op with
  | .register agent => (r.register agent o.files).map fun r' => (r', [.added agent])
  | .update agent => (r.update agent o.files).map fun r' => (r', [.updated agent])
  | .unregister id => (r.unregister id o.files).map fun r' => (r', [.removed id])
  | .reload => r.reload o.load

/-- The position of `Relay::apply_changes` in its first remaining change. -/
inductive RelayStage where
  | begin
  /-- An update: the old loop is stopped, read the registration. -/
  | read
  /-- Bind the consumer. -/
  | bind (maxConcurrency : UInt32)
  /-- Spawn the pull loop. -/
  | start
  /-- Store the handle of the new loop. -/
  | store (loop : ℕ)

/-- The position of a control operation. -/
inductive RequestStage where
  | registry (op : ControlOp)
  /-- `Dispatcher::apply_changes` is next. -/
  | dispatcher (changes : List Change)
  /-- In `Relay::apply_changes`. -/
  | relay (changes : List Change) (stage : RelayStage)
  | returned (result : Except ConfigError Unit)

/-- The operation has returned. -/
def RequestStage.hasReturned : RequestStage → Bool
  | .returned _ => true
  | _ => false

/-- The position of `Relay::shutdown`. -/
inductive ShutdownStage where
  /-- Drain the table of pull loops. -/
  | drain
  /-- Abort the drained loops that are left. -/
  | abort (handles : List ℕ)
  /-- Wait for the dispatches, with the lock of the task set. -/
  | join
  | returned
  deriving DecidableEq

/-! ## The daemon -/

/-- The daemon with the server's side of its consumers. -/
structure Daemon where
  world : World
  /-- `Relay::pulls`: the loop whose handle is stored for an agent. -/
  pulls : AgentId → Option ℕ
  /-- All pull loops ever spawned. -/
  loops : List PullLoop
  /-- `Relay::dispatch_tasks`. -/
  dispatchTasks : List ℕ
  /-- The first one is the startup. -/
  requests : List RequestStage
  shutdown : Option ShutdownStage
  consumers : AgentId → Option Consumer

namespace Daemon

/-- The registry the daemon holds. -/
abbrev registry (D : Daemon) : Registry := D.world.dispatcher.registry

/-- `Relay::stop_pull`. -/
def stopPull (D : Daemon) (id : AgentId) : Daemon :=
  match D.pulls id with
  | some l =>
    { D with
      pulls := Function.update D.pulls id none
      loops := D.loops.modify l PullLoop.abort }
  | none => D

/-- The part of `Relay::start_pull` after the spawn: store the handle, abort the loop replaced. -/
def storePull (D : Daemon) (id : AgentId) (l : ℕ) : Daemon :=
  { D with
    pulls := Function.update D.pulls id (some l)
    loops := (D.pulls id).elim D.loops fun old => D.loops.modify old PullLoop.abort }

/-- One access of `Relay::apply_changes`. -/
def applyRelay (D : Daemon) (o : ServeOutcome) :
    List Change → RelayStage → Daemon × RequestStage
  | [], _ => (D, .returned (.ok ()))
  | ch :: rest, .begin =>
    match ch with
    | .added c | .enabled c => (D, .relay (ch :: rest) (.bind c.maxConcurrency))
    | .updated c => (D.stopPull c.agentId, .relay (ch :: rest) .read)
    | .disabled c => (D.stopPull c.agentId, .relay rest .begin)
    | .removed id => (D.stopPull id, .relay rest .begin)
  | ch :: rest, .read =>
    match D.registry.get ch.agentId with
    | some c =>
      if c.enabled then (D, .relay (ch :: rest) (.bind c.maxConcurrency))
      else (D, .relay rest .begin)
    | none => (D, .relay rest .begin)
  | ch :: rest, .bind maxConcurrency =>
    if o.bindFails then (D, .relay rest .begin)
    else
      ({ D with
          consumers := getOrCreateConsumer D.consumers ch.agentId
            (consumerConfig ch.agentId maxConcurrency.toNat) },
        .relay (ch :: rest) .start)
  | ch :: rest, .start =>
    ({ D with loops := D.loops ++ [⟨ch.agentId, .free, false, false⟩] },
      .relay (ch :: rest) (.store D.loops.length))
  | ch :: rest, .store l => (D.storePull ch.agentId l, .relay rest .begin)

/-- One access of a control operation. -/
def serve (D : Daemon) (o : ServeOutcome) : RequestStage → Option (Daemon × RequestStage)
  | .registry op =>
    match op.perform D.registry o with
    | .ok (registry, changes) =>
      let world := { D.world with dispatcher := { D.world.dispatcher with registry } }
      some ({ D with world }, .dispatcher changes)
    | .error e => some (D, .returned (.error e))
  | .dispatcher changes =>
    let world := { D.world with dispatcher := D.world.dispatcher.applyChanges changes }
    some ({ D with world }, .relay changes .begin)
  | .relay changes stage => some (D.applyRelay o changes stage)
  | .returned _ => none

/-- One access of a pull loop that is being polled: what the daemon and the loop become. -/
def pull (C : DispatcherConfig) (D : Daemon) (agent : AgentId) :
    LoopStage → LoopMove → Option (Daemon × LoopStage)
  | .free, .advance => do
    let world ← World.step C D.world (.call agent)
    return ({ D with world }, .counting D.world.calls.length)
  | .counting c, .advance =>
    match D.world.calls[c]? with
    | some ⟨_, .done slots⟩ => some (D, if slots = 0 then .asleep else .requesting slots)
    | _ => do
      let world ← World.step C D.world (.pollCall c)
      return ({ D with world }, .counting c)
  | .asleep, .advance => some (D, .free)
  | .requesting slots, .advance => some (D, .receiving slots [])
  | .requesting _, .fail => some (D, .asleep)
  | .requesting _, .stall => some (D, .free)
  | .receiving credit (d :: inbox), .advance => some (D, .spawning d credit inbox)
  | .receiving credit (_ :: inbox), .skip => some (D, .receiving credit inbox)
  | .receiving _ _, .fail => some (D, .free)
  | .spawning d credit inbox, .advance =>
    if D.shutdown = some .join then none
    else do
      let world ← World.step C D.world (.deliver d)
      return ({ D with world, dispatchTasks := D.dispatchTasks ++ [D.world.tasks.length] },
        .receiving credit inbox)
  | _, _ => none

/-- One step of the task of a pull loop. -/
def pullTask (C : DispatcherConfig) (D : Daemon) (p : PullLoop) :
    LoopMove → Option (Daemon × PullLoop)
  | .resume => if !p.polling && !p.aborted then some (D, { p with polling := true }) else none
  | .suspend =>
    if p.polling && p.stage.awaits then some (D, { p with polling := false }) else none
  | move =>
    if p.polling then
      (D.pull C p.agent p.stage move).map fun (D', stage) => (D', { p with stage })
    else none

/-- The loops whose handles are stored. -/
def handles (D : Daemon) : List ℕ :=
  (List.range D.loops.length).filter fun l =>
    D.loops[l]?.any fun p => D.pulls p.agent == some l

/-- One access of `Relay::shutdown` before the dispatches are joined.  The table is drained in any
order: `pick` is the position of the handle that is aborted next. -/
def stop (D : Daemon) (pick : ℕ) : Option Daemon :=
  match D.shutdown with
  | some .drain => some { D with pulls := fun _ => none, shutdown := some (.abort D.handles) }
  | some (.abort []) => some { D with shutdown := some .join }
  | some (.abort handles) =>
    (handles[pick]?).map fun l =>
      { D with
        loops := D.loops.modify l PullLoop.abort
        shutdown := some (.abort (handles.eraseIdx pick)) }
  | some .join => if D.dispatchTasks = [] then some { D with shutdown := some .returned } else none
  | _ => none

end Daemon

/-- An ack or a term of a message of the agent's consumer. -/
def Emission.resolves (em : Emission) (agent : AgentId) (seq : ℕ) : Bool :=
  em.delivery.agent == agent && em.delivery.streamSequence == seq &&
    match em.effect with
    | .acked _ | .termed => true
    | _ => false

/-- The atomic actions of the daemon and the server. -/
inductive DaemonAction where
  /-- The dispatch `t` makes its next access. -/
  | poll (t : ℕ) (o : Outcome)
  /-- A step of the pull loop `l`. -/
  | pull (l : ℕ) (move : LoopMove)
  /-- The server sends a message to the pull request of a loop, or to an abandoned one. -/
  | send (loop : Option ℕ) (agent : AgentId) (sending : Sending)
  /-- An ack or a term arrives at the server. -/
  | settle (agent : AgentId) (seq : ℕ)
  /-- A control operation arrives. -/
  | request (op : ControlOp)
  /-- The control operation `r` makes its next access. -/
  | serve (r : ℕ) (o : ServeOutcome)
  /-- `Relay::shutdown` is called. -/
  | shutdown
  /-- `Relay::shutdown` makes its next access; the abort is of the handle at position `pick`. -/
  | stop (pick : ℕ := 0)
  /-- `Relay::shutdown` joins the finished dispatch `t`. -/
  | join (t : ℕ)
  /-- The daemon crashes and starts again. -/
  | restart (registry : Registry) (now ttl : UInt64)

namespace Daemon

/-- The startup: `Relay::sync_consumers` applies an `Added` for every enabled agent. -/
def startup (registry : Registry) : RequestStage :=
  .relay ((registry.snapshot.filter AgentConfig.enabled).map .added) .begin

/-- The control socket is bound once the startup is done. -/
def ready (D : Daemon) : Bool :=
  D.requests.head?.any RequestStage.hasReturned

/-- One action of the daemon or the server. -/
def step (C : DispatcherConfig) (D : Daemon) : DaemonAction → Option Daemon
  | .poll t o => (World.step C D.world (.poll t o)).map fun world => { D with world }
  | .pull l move => do
    let p ← D.loops[l]?
    let (D', p') ← D.pullTask C p move
    return { D' with loops := D'.loops.set l p' }
  | .send loop agent sending => do
    let (consumer, d) ← (← D.consumers agent).send agent sending
    let D' := { D with consumers := Function.update D.consumers agent (some consumer) }
    match loop with
    | none => return D'
    | some l =>
      let p ← D.loops[l]?
      if p.agent = agent then
        let stage ← p.stage.accept d
        return { D' with loops := D.loops.set l { p with stage } }
      else none
  | .settle agent seq => do
    let consumer ← D.consumers agent
    if D.world.trace.any fun em => em.resolves agent seq then
      return { D with consumers := Function.update D.consumers agent (some (consumer.settle seq)) }
    else none
  | .request op =>
    if D.ready then some { D with requests := D.requests ++ [.registry op] } else none
  | .serve r o => do
    let stage ← D.requests[r]?
    let (D', stage') ← D.serve o stage
    return { D' with requests := D'.requests.set r stage' }
  | .shutdown => if D.shutdown = none then some { D with shutdown := some .drain } else none
  | .stop pick => D.stop pick
  | .join t =>
    if D.shutdown = some .join ∧ t ∈ D.dispatchTasks ∧
        D.world.tasks[t]?.any fun task => task.stage.isFinished then
      some { D with dispatchTasks := D.dispatchTasks.erase t }
    else none
  | .restart registry now ttl => do
    let world ← World.step C D.world (.restart registry now ttl)
    return { D with
      world
      pulls := fun _ => none
      loops := []
      dispatchTasks := []
      requests := [startup registry]
      shutdown := none }

/-- A daemon that has just loaded its registry and opened its store, and the consumers the server
has. -/
def start (registry : Registry) (dedup : DedupStore) (consumers : AgentId → Option Consumer) :
    Daemon where
  world := .start registry dedup
  pulls := fun _ => none
  loops := []
  dispatchTasks := []
  requests := [startup registry]
  shutdown := none
  consumers := consumers

end Daemon

/-- The daemon and the server under every interleaving of their tasks. -/
def daemonSystem (C : DispatcherConfig) : TransitionSystem Daemon DaemonAction where
  step := Daemon.step C

/-! ## Sample steps -/

namespace Sample

/-- The control operation `r` makes `n` accesses, none of which fails. -/
def serves (r n : ℕ) : List DaemonAction := List.replicate n (.serve r {})

/-- The dispatch `t` makes `n` accesses, none of which fails. -/
def dispatches (t n : ℕ) : List DaemonAction := List.replicate n (.poll t {})

/-- The pull loop `l` makes `n` accesses without a failure. -/
def advances (l n : ℕ) : List DaemonAction := List.replicate n (.pull l .advance)

/-- The first message of the stream, with the event `e`. -/
def message : Message := ⟨1, (delivery "e").raw⟩

/-- The daemon starts, and the pull loop of the agent spawns the dispatch of the first message. -/
def pullFirst : List DaemonAction :=
  serves 0 5 ++ [.pull 0 .resume] ++ advances 0 6 ++ [.send (some 0) agent (.new message)] ++
    advances 0 2

end Sample

end Agentd
