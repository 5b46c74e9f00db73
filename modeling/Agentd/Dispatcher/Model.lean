import Agentd.Foundation.TransitionSystem
import Agentd.Foundation.Semaphore
import Agentd.Registry.Memory
import Agentd.Event
import Agentd.Dedup

/-!
# The dispatcher as a system of interleaved tasks

`Dispatcher` holds the shared fields of the dispatcher; an `Arc<Semaphore>` is a position in the
heap `semaphores`.  Each call of `dispatch` is a task, whose `Stage` says where it stands between
two of its accesses to shared state: the registry lookup, `ensure_state`, the acquisition of a
permit, the completed lookup, the in-flight check-and-insert, the spawn, the exit of the handler,
the mark, the in-flight removal, the ack or term, and the drop of the permit.  `Dispatcher.poll`
runs a task through exactly one of them, so that every interleaving of concurrent dispatches is a
sequence of polls.  `available` is a second kind of call with three such accesses.

What the environment decides at a poll is an `Outcome`: whether the store or the spawn fails, how
the handler ended, what the clock says.  A wait that returns, with a status or with an error, means
that the process is gone.  Everything observable is recorded in the trace of a `World`, newest
first.  Log lines that no property reads are left out, and so is the slow-handler threshold, which
only produces one.
-/

namespace Agentd

/-- One message handed from the relay to the dispatcher.  `agent` is the consumer's agent. -/
structure Delivery where
  agent : AgentId
  raw : List UInt8
  streamSequence : ℕ
  consumerSequence : ℕ
  deliveryCount : ℕ
  deriving DecidableEq

/-- The state kept for one agent: its semaphore and its in-flight event ids. -/
structure AgentState where
  permits : ℕ
  inFlight : Finset String

/-- The fixed fields of the dispatcher, with the JSON text parser it calls. -/
structure DispatcherConfig where
  maxEventBytes : ℕ
  fromSlice : List UInt8 → Except String Json

/-- The shared mutable state: the registry, the store, the per-agent states and the heap of
semaphores they point into. -/
structure Dispatcher where
  registry : Registry
  dedup : DedupStore
  states : AgentId → Option AgentState
  semaphores : List Semaphore

namespace Dispatcher

/-- `ensure_state`: the agent's semaphore, created with `maxConcurrency` permits when the agent has
no state. -/
def ensureState (D : Dispatcher) (agent : AgentId) (maxConcurrency : UInt32) : Dispatcher × ℕ :=
  match D.states agent with
  | some st => (D, st.permits)
  | none =>
    ({ D with
        states := Function.update D.states agent (some ⟨D.semaphores.length, ∅⟩)
        semaphores := D.semaphores ++ [.new maxConcurrency.toNat] }, D.semaphores.length)

/-- The in-flight check-and-insert: `none` when the id is in flight, else the id is inserted, into
a state made of the semaphore `permits` when the agent has none. -/
def checkInsert (D : Dispatcher) (agent : AgentId) (event : String) (permits : ℕ) :
    Option Dispatcher :=
  let entry := (D.states agent).getD ⟨permits, ∅⟩
  if event ∈ entry.inFlight then none
  else some
    { D with
      states :=
        Function.update D.states agent
          (some { entry with inFlight := insert event entry.inFlight }) }

/-- `remove_in_flight`. -/
def removeInFlight (D : Dispatcher) (agent : AgentId) (event : String) : Dispatcher :=
  match D.states agent with
  | some st =>
    { D with
      states :=
        Function.update D.states agent
          (some { st with inFlight := st.inFlight.erase event }) }
  | none => D

/-- `Dispatcher::apply_changes`: the state of every agent named is discarded. -/
def applyChanges (D : Dispatcher) (changes : List Change) : Dispatcher :=
  { D with
    states :=
      changes.foldl (fun states ch => Function.update states ch.agentId none) D.states }

/-- The permits available of the semaphore `permits`. -/
def availablePermits (D : Dispatcher) (permits : ℕ) : ℕ :=
  (D.semaphores[permits]?).elim 0 Semaphore.available

/-- The in-flight ids of an agent. -/
def inFlightIds (D : Dispatcher) (agent : AgentId) : Finset String :=
  (D.states agent).elim ∅ AgentState.inFlight

end Dispatcher

/-! ## What a dispatch does to the outside -/

/-- The command a dispatch spawns: the handler itself, never a shell. -/
structure Command where
  program : PathBuf
  env : List (String × String)
  currentDir : Option PathBuf
  stdin : List UInt8
  deriving DecidableEq

/-- The command for an event. -/
def Command.forEvent (config : AgentConfig) (envelope : EventEnvelope) (d : Delivery) :
    Command where
  program := config.handler
  env :=
    [("AGENTD_AGENT_ID", d.agent.asStr), ("AGENTD_EVENT_ID", envelope.eventId),
      ("AGENTD_EVENT_TYPE", envelope.eventType),
      ("AGENTD_STREAM_SEQUENCE", toString d.streamSequence),
      ("AGENTD_CONSUMER_SEQUENCE", toString d.consumerSequence),
      ("AGENTD_DELIVERY_COUNT", toString d.deliveryCount)]
  currentDir := config.workingDirectory
  stdin := d.raw

/-- The status of a process that is gone. -/
structure ExitStatus where
  code : Option ℤ
  signal : Option ℤ

/-- `exit_status_of`: the exit code, or the negated signal number. -/
def exitStatusOf (status : ExitStatus) : ℤ :=
  match status.code with
  | some code => code
  | none =>
    match status.signal with
    | some sig => -sig
    | none => -1

/-- The reasons of an `invalid event` line. -/
inductive InvalidEvent where
  /-- `event exceeds size limit ({} > {})` -/
  | tooLarge (len max : ℕ)
  /-- The error of the envelope parser. -/
  | unparseable (e : EnvelopeError)
  /-- `envelope agent_id {} does not match consumer agent {agent}` -/
  | wrongAgent (envelopeAgent agent : AgentId)
  deriving DecidableEq

/-- What a dispatch does that can be seen from outside. -/
inductive Effect where
  | invalidEvent (reason : InvalidEvent)
  /-- `delivery for unregistered agent` -/
  | unregistered
  /-- `delivery for disabled agent` -/
  | disabled
  | dedupHit (event : String)
  | duplicateDropped (event : String)
  | spawned (event : String) (command : Command)
  | spawnFailed (event : String)
  | exited (event : String) (status : ℤ)
  | marked (event : String) (ok : Bool)
  /-- `Acker::ack` was called. -/
  | acked (event : String)
  /-- `Acker::term` was called. -/
  | termed
  deriving DecidableEq

/-- An effect with the task it comes from and the delivery of that task. -/
structure Emission where
  task : ℕ
  delivery : Delivery
  effect : Effect
  deriving DecidableEq

/-! ## One dispatch -/

/-- What a dispatch has read once it passed the gates. -/
structure Job where
  envelope : EventEnvelope
  config : AgentConfig

/-- The position of a dispatch that holds a permit: what it does next. -/
inductive Phase where
  /-- Look the event up in the completed store. -/
  | lookup
  /-- The event is completed: ack. -/
  | hit
  /-- Check and insert the in-flight id. -/
  | check
  /-- Spawn the handler. -/
  | spawn
  /-- The handler is running: wait for its exit. -/
  | wait
  /-- Record completion. -/
  | mark
  /-- Remove the in-flight id. -/
  | remove
  /-- Call the final ack. -/
  | ack
  /-- The spawn failed: remove the in-flight id. -/
  | abort
  /-- The spawn failed: call term. -/
  | term
  /-- Drop the permit. -/
  | release
  deriving DecidableEq, Repr

/-- The position of a dispatch. -/
inductive Stage where
  /-- Not polled yet. -/
  | received
  /-- A gate before the slot rejected the delivery: call term. -/
  | rejected
  /-- The registration was read: get the semaphore. -/
  | configured (job : Job)
  /-- Waiting for a permit of the semaphore. -/
  | waiting (job : Job) (permits : ℕ)
  /-- Holding a permit of the semaphore. -/
  | slot (job : Job) (permits : ℕ) (phase : Phase)
  /-- Returned. -/
  | finished

/-- The dispatch has returned. -/
def Stage.isFinished : Stage → Bool
  | .finished => true
  | _ => false

/-- What the environment decides at one poll of a dispatch. -/
structure Outcome where
  lookupFails : Bool := false
  spawnFails : Bool := false
  /-- The result of waiting for the handler; `none` is an error. -/
  wait : Option ExitStatus := some ⟨some 0, none⟩
  markFails : Bool := false
  now : UInt64 := 0

namespace Dispatcher

/-- The gates before the slot: size, envelope, agent, registration. -/
def gate (C : DispatcherConfig) (D : Dispatcher) (d : Delivery) : Stage × List Effect :=
  if d.raw.length > C.maxEventBytes then
    (.rejected, [.invalidEvent (.tooLarge d.raw.length C.maxEventBytes)])
  else match EventEnvelope.parse C.fromSlice d.raw with
    | .error e => (.rejected, [.invalidEvent (.unparseable e)])
    | .ok envelope =>
      if envelope.agentId ≠ d.agent then
        (.rejected, [.invalidEvent (.wrongAgent envelope.agentId d.agent)])
      else match D.registry.get d.agent with
        | none => (.rejected, [.unregistered])
        | some config =>
          if !config.enabled then (.rejected, [.disabled])
          else (.configured ⟨envelope, config⟩, [])

/-- `DedupCheck::is_completed`, which may fail. -/
def isCompleted (D : Dispatcher) (o : Outcome) (agent : AgentId) (event : String) :
    Except Unit Bool :=
  if o.lookupFails then .error () else .ok (D.dedup.isCompleted agent event)

/-- `DedupCheck::mark_completed`, which may fail; a failed insert leaves the table as it was. -/
def markCompleted (D : Dispatcher) (o : Outcome) (agent : AgentId) (event : String) :
    Except Unit Dispatcher :=
  if o.markFails then .error ()
  else .ok { D with dedup := D.dedup.markCompleted agent event o.now }

/-- One access of a dispatch that holds a permit: the shared state, the next phase, and what it
emits. -/
def pollSlot (D : Dispatcher) (d : Delivery) (o : Outcome) (job : Job) (permits : ℕ) :
    Phase → Dispatcher × Option Phase × List Effect
  | .lookup =>
    match D.isCompleted o d.agent job.envelope.eventId with
    | .ok true => (D, some .hit, [.dedupHit job.envelope.eventId])
    | .ok false => (D, some .check, [])
    | .error _ => (D, some .check, []) -- a broken store never blocks dispatch
  | .hit => (D, some .release, [.acked job.envelope.eventId])
  | .check =>
    match D.checkInsert d.agent job.envelope.eventId permits with
    | none => (D, some .release, [.duplicateDropped job.envelope.eventId])
    | some D' => (D', some .spawn, [])
  | .spawn =>
    if o.spawnFails then (D, some .abort, [.spawnFailed job.envelope.eventId])
    else (D, some .wait, [.spawned job.envelope.eventId (.forEvent job.config job.envelope d)])
  | .wait => (D, some .mark, [.exited job.envelope.eventId (o.wait.elim (-1) exitStatusOf)])
  | .mark =>
    match D.markCompleted o d.agent job.envelope.eventId with
    | .ok D' => (D', some .remove, [.marked job.envelope.eventId true])
    | .error _ => (D, some .remove, [.marked job.envelope.eventId false])
  | .remove => (D.removeInFlight d.agent job.envelope.eventId, some .ack, [])
  | .ack => (D, some .release, [.acked job.envelope.eventId])
  | .abort => (D.removeInFlight d.agent job.envelope.eventId, some .term, [])
  | .term => (D, some .release, [.termed])
  | .release => ({ D with semaphores := Semaphore.release D.semaphores permits }, none, [])

/-- One access of a dispatch to shared state; `none` when it is blocked or has returned. -/
def poll (C : DispatcherConfig) (D : Dispatcher) (d : Delivery) (o : Outcome) :
    Stage → Option (Dispatcher × Stage × List Effect)
  | .received =>
    let (stage, effects) := D.gate C d
    some (D, stage, effects)
  | .rejected => some (D, .finished, [.termed])
  | .configured job =>
    let (D', permits) := D.ensureState d.agent job.config.maxConcurrency
    some (D', .waiting job permits, [])
  | .waiting job permits =>
    (Semaphore.tryAcquire D.semaphores permits).map fun heap =>
      ({ D with semaphores := heap }, .slot job permits .lookup, [])
  | .slot job permits phase =>
    let (D', next, effects) := D.pollSlot d o job permits phase
    some (D', next.elim .finished (.slot job permits), effects)
  | .finished => none

end Dispatcher

/-! ## One call of `available` -/

/-- The position of a call of `available`. -/
inductive CallStage where
  /-- Not polled yet. -/
  | start
  /-- The registration was read: get the semaphore. -/
  | configured (config : AgentConfig)
  /-- The semaphore is known: read its available permits. -/
  | counting (permits : ℕ)
  /-- Returned. -/
  | done (slots : ℕ)

/-- One access of `available` to shared state. -/
def Dispatcher.pollAvailable (D : Dispatcher) (agent : AgentId) :
    CallStage → Option (Dispatcher × CallStage)
  | .start =>
    match D.registry.get agent with
    | some config => if config.enabled then some (D, .configured config) else some (D, .done 0)
    | none => some (D, .done 0)
  | .configured config =>
    let (D', permits) := D.ensureState agent config.maxConcurrency
    some (D', .counting permits)
  | .counting permits => some (D, .done (D.availablePermits permits))
  | .done _ => none

/-- `Dispatcher::available`, when nothing happens between its accesses. -/
def Dispatcher.available (D : Dispatcher) (agent : AgentId) : ℕ :=
  match D.registry.get agent with
  | some config =>
    if config.enabled then
      let (D', permits) := D.ensureState agent config.maxConcurrency
      D'.availablePermits permits
    else 0
  | none => 0

/-! ## The system -/

/-- A dispatch: its delivery and its position. -/
structure Task where
  delivery : Delivery
  stage : Stage

/-- A call of `available`: its agent and its position. -/
structure Call where
  agent : AgentId
  stage : CallStage

/-- The dispatcher with all its calls and everything emitted so far, newest first. -/
structure World where
  dispatcher : Dispatcher
  tasks : List Task
  calls : List Call
  trace : List Emission

/-- The atomic actions of the system.  `setRegistry` stands for any change of the in-memory
registry, `restart` for a crash followed by a start with the registry then on disk. -/
inductive Action where
  /-- The relay calls `dispatch`. -/
  | deliver (d : Delivery)
  /-- The dispatch `t` makes its next access. -/
  | poll (t : ℕ) (o : Outcome)
  /-- The relay calls `available`. -/
  | call (agent : AgentId)
  /-- The call `c` of `available` makes its next access. -/
  | pollCall (c : ℕ)
  | setRegistry (registry : Registry)
  | applyChanges (changes : List Change)
  | purge (now ttl : UInt64)
  | restart (registry : Registry) (now ttl : UInt64)

namespace World

/-- The task `t` moves to `stage`, leaves the shared state `D` and emits `effects`. -/
def commit (w : World) (t : ℕ) (task : Task) (D : Dispatcher) (stage : Stage)
    (effects : List Effect) : World :=
  { w with
    dispatcher := D
    tasks := w.tasks.set t { task with stage }
    trace := effects.map (fun effect => ⟨t, task.delivery, effect⟩) ++ w.trace }

/-- One action of the system. -/
def step (C : DispatcherConfig) (w : World) : Action → Option World
  | .deliver d => some { w with tasks := w.tasks ++ [⟨d, .received⟩] }
  | .poll t o => do
    let task ← w.tasks[t]?
    let (D, stage, effects) ← w.dispatcher.poll C task.delivery o task.stage
    return w.commit t task D stage effects
  | .call agent => some { w with calls := w.calls ++ [⟨agent, .start⟩] }
  | .pollCall c => do
    let call ← w.calls[c]?
    let (D, stage) ← w.dispatcher.pollAvailable call.agent call.stage
    return { w with dispatcher := D, calls := w.calls.set c { call with stage } }
  | .setRegistry registry => some { w with dispatcher := { w.dispatcher with registry } }
  | .applyChanges changes =>
    some { w with dispatcher := w.dispatcher.applyChanges changes }
  | .purge now ttl =>
    some { w with dispatcher :=
      { w.dispatcher with dedup := (w.dispatcher.dedup.purgeExpired now ttl).1 } }
  | .restart registry now ttl =>
    some { w with
      dispatcher :=
        { registry
          dedup := (w.dispatcher.dedup.purgeExpired now ttl).1
          states := fun _ => none
          semaphores := [] }
      tasks := []
      calls := [] }

/-- A daemon that has just started on the given registry and store. -/
def start (registry : Registry) (dedup : DedupStore) : World where
  dispatcher := { registry, dedup, states := fun _ => none, semaphores := [] }
  tasks := []
  calls := []
  trace := []

end World

/-- The dispatcher under every interleaving of its calls with the rest of the daemon. -/
def dispatchSystem (C : DispatcherConfig) : TransitionSystem World Action where
  step := World.step C

/-! ## Sample events

The closed runs of the later modules are about the events `e` and `f` of the agent `a`. -/

namespace Sample

/-- The text of the event with the given id. -/
def text (event : String) : String :=
  "\x7b\"version\":1,\"event_id\":\"" ++ event ++
    "\",\"agent_id\":\"a\",\"type\":\"t\",\"created_at\":\"c\",\"payload\":null\x7d"

/-- The value of that text. -/
def json (event : String) : Json :=
  .object [("version", .integer 1), ("event_id", .string event), ("agent_id", .string "a"),
    ("type", .string "t"), ("created_at", .string "c"), ("payload", .null)]

/-- The text parser, as far as the sample events need it. -/
def fromSlice (bytes : List UInt8) : Except String Json :=
  match ["e", "f"].find? fun event => (text event).toUTF8.data.toList == bytes with
  | some event => .ok (json event)
  | none => .error "expected value"

/-- The dispatcher's fixed fields: the default size limit of 256 KiB. -/
def dispatcherConfig : DispatcherConfig where
  maxEventBytes := 262144
  fromSlice := fromSlice

/-- A delivery of the event with the given id. -/
def delivery (event : String) (streamSequence deliveryCount : ℕ := 1) : Delivery where
  agent := agent
  raw := (text event).toUTF8.data.toList
  streamSequence := streamSequence
  consumerSequence := streamSequence
  deliveryCount := deliveryCount

/-- The dispatch `t` makes `n` accesses, none of which fails. -/
def polls (t n : ℕ) : List Action := List.replicate n (.poll t {})

end Sample

end Agentd
