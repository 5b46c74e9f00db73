import Agentd.Foundation.TransitionSystem
import Agentd.Foundation.TaskPool
import Agentd.Registry.Persistence

/-!
# The registry operations step by step

Threads call the operations of the registry.  An operation stands at a stage between two of its
accesses to the file system, to the memory or to the mutation mutex, and `Store.step` lets one
thread make its next access, whose failure the environment decides (`IoOutcome`).  The process may
die between any two accesses: `restart` drops the threads and the memory and loads the directory
again.

`FileOp.apply` is what an operation does to the map as a whole; it is one of the atomic operations
of `Registry/Memory`.  Names in errors are relative to the registry directory, which is `.`.
-/

namespace Agentd

/-- An operation of the registry. -/
inductive FileOp where
  | register (config : AgentConfig)
  | update (config : AgentConfig)
  | setEnabled (id : AgentId) (enabled : Bool)
  | unregister (id : AgentId)
  | reload

/-- The validation that comes before the mutex is taken. -/
def FileOp.validate : FileOp → Except ConfigError Unit
  | .register config | .update config => config.validate
  | _ => .ok ()

/-- What the operation makes of the map when nothing fails. -/
def FileOp.apply (op : FileOp) (r : Registry) : Except ConfigError Registry :=
  match op with
  | .register config => r.register config (.ok ())
  | .update config => r.update config (.ok ())
  | .setEnabled id enabled => r.setEnabled id enabled (.ok ())
  | .unregister id => r.unregister id (.ok ())
  | .reload => .ok r

/-- The position in `Registry::persist`. -/
inductive PersistStage where
  | createDir
  | serialize
  | create (contents : List UInt8)
  | write (contents : List UInt8)
  | sync
  | rename
  deriving DecidableEq

/-- The position of an operation. -/
inductive OpStage where
  | start (op : FileOp)
  /-- Validated; take the mutation mutex. -/
  | locking (op : FileOp) (valid : op.validate = .ok ())
  /-- The mutex is held; look at the map. -/
  | checking (op : FileOp) (valid : op.validate = .ok ())
  | persisting (config : AgentConfig) (valid : config.validate = .ok ()) (stage : PersistStage)
  /-- The file is in place; insert the entry. -/
  | inserting (config : AgentConfig) (valid : config.validate = .ok ())
  /-- Remove the file. -/
  | removing (id : AgentId)
  /-- The file is gone; remove the entry. -/
  | erasing (id : AgentId)
  /-- List the directory. -/
  | listing
  | loading (pending : List String) (agents : Registry)
  /-- Everything is loaded; replace the map. -/
  | replacing (agents : Registry)
  /-- Give the mutex back; a reload returns the changes, the others return none. -/
  | unlocking (result : Except ConfigError (List Change))
  | returned (result : Except ConfigError (List Change))

/-- The operation is between taking the mutex and giving it back. -/
def OpStage.critical : OpStage → Bool
  | .start _ | .locking .. | .returned _ => false
  | _ => true

/-- What the environment decides at one access. -/
structure IoOutcome where
  fails : Bool := false
  /-- What a failed write leaves in the file. -/
  torn : List UInt8 := []
  /-- The order in which the directory is listed. -/
  order : List String := []

/-- The accesses of `Registry::persist`: the directory, and the next stage. -/
def persistStep (T : Toml) (pid : ℕ) (o : IoOutcome) (dir : Option Directory)
    (config : AgentConfig) (valid : config.validate = .ok ()) :
    PersistStage → Option Directory × OpStage
  | .createDir =>
    match dir with
    | some files => (some files, .persisting config valid .serialize)
    | none =>
      if o.fails then (none, .unlocking (.error (.io ".")))
      else (some ∅, .persisting config valid .serialize)
  | .serialize =>
    match T.toStringPretty config with
    | some contents => (dir, .persisting config valid (.create contents))
    | none => (dir, .unlocking (.error (.serialize config.agentId)))
  | .create contents =>
    if o.fails then (dir, .unlocking (.error (.io (tempName config.agentId pid))))
    else
      (dir.map fun files => files.insert (tempName config.agentId pid) [],
        .persisting config valid (.write contents))
  | .write contents =>
    if o.fails then
      (dir.map fun files => files.insert (tempName config.agentId pid) o.torn,
        .unlocking (.error (.io (tempName config.agentId pid))))
    else
      (dir.map fun files => files.insert (tempName config.agentId pid) contents,
        .persisting config valid .sync)
  | .sync =>
    if o.fails then (dir, .unlocking (.error (.io (tempName config.agentId pid))))
    else (dir, .persisting config valid .rename)
  | .rename =>
    match dir.bind fun files => files.lookup (tempName config.agentId pid) with
    | some contents =>
      if o.fails then (dir, .unlocking (.error (.io (fileName config.agentId))))
      else
        (dir.map fun files =>
            (files.erase (tempName config.agentId pid)).insert (fileName config.agentId) contents,
          .inserting config valid)
    | none => (dir, .unlocking (.error (.io (fileName config.agentId))))

/-- The first access under the mutex: the check of the map, and what is left to do. -/
def checkStep (memory : Registry) : (op : FileOp) → op.validate = .ok () → OpStage
  | .register config, valid =>
    if (memory.get config.agentId).isSome then
      .unlocking (.error (.alreadyRegistered config.agentId))
    else .persisting config valid .createDir
  | .update config, valid =>
    if (memory.get config.agentId).isNone then
      .unlocking (.error (.notRegistered config.agentId))
    else .persisting config valid .createDir
  | .setEnabled id enabled, _ =>
    match h : memory.get id with
    | none => .unlocking (.error (.notRegistered id))
    | some existing =>
      if existing.enabled == enabled then .unlocking (.ok [])
      else .persisting { existing with enabled } (memory.valid id existing h) .createDir
  | .unregister id, _ =>
    if (memory.get id).isNone then .unlocking (.error (.notRegistered id)) else .removing id
  | .reload, _ => .listing

/-- One access of an operation that holds the mutex: the directory, the memory and the next
stage. -/
def criticalStep (T : Toml) (pid : ℕ) (o : IoOutcome) (dir : Option Directory)
    (memory : Registry) : OpStage → Option (Option Directory × Registry × OpStage)
  | .checking op valid => some (dir, memory, checkStep memory op valid)
  | .persisting config valid stage =>
    let (dir', stage') := persistStep T pid o dir config valid stage
    some (dir', memory, stage')
  | .inserting config valid => some (dir, memory.insert config valid, .unlocking (.ok []))
  | .removing id =>
    if o.fails ∨ fileName id ∉ dir.getD ∅ then
      some (dir, memory, .unlocking (.error (.io (fileName id))))
    else some (dir.map fun files => files.erase (fileName id), memory, .erasing id)
  | .erasing id => some (dir, memory.erase id, .unlocking (.ok []))
  | .listing =>
    match dir with
    | none => some (none, memory, .replacing .empty)
    | some files =>
      if o.fails then some (some files, memory, .unlocking (.error (.io ".")))
      else if Lists (some files) o.order then some (some files, memory, .loading o.order .empty)
      else none
  | .loading [] agents => some (dir, memory, .replacing agents)
  | .loading (name :: pending) agents =>
    if classify name = .temp then
      -- the removal is best-effort
      some (if o.fails then dir else dir.map fun files => files.erase name, memory,
        .loading pending agents)
    else if o.fails then
      -- the entry or the file cannot be read
      some (dir, memory, .unlocking (.error (.io name)))
    else match loadFile T (dir.getD ∅) agents name with
      | .ok agents' => some (dir, memory, .loading pending agents')
      | .error e => some (dir, memory, .unlocking (.error e))
  | .replacing agents => some (dir, agents, .unlocking (.ok (memory.diff agents)))
  | .start _ | .locking .. | .unlocking _ | .returned _ => none

/-- A process with a registry, and its directory. -/
structure Store where
  /-- The registry directory, if it exists. -/
  dir : Option Directory
  /-- The map in memory. -/
  memory : Registry
  /-- The thread that holds the mutation mutex. -/
  mutation : Option ℕ
  threads : List OpStage
  pid : ℕ

/-- The atomic actions. -/
inductive StoreAction where
  /-- A thread calls an operation. -/
  | call (op : FileOp)
  /-- The thread `t` makes its next access. -/
  | advance (t : ℕ) (o : IoOutcome)
  /-- The process dies, and another one loads the directory, listed in the given order, and sweeps
  some of the temporary files. -/
  | restart (pid : ℕ) (order swept : List String)

namespace Store

/-- The thread `t` makes its next access. -/
def advance (T : Toml) (S : Store) (t : ℕ) (o : IoOutcome) : OpStage → Option Store
  | .start op =>
    match h : op.validate with
    | .ok () => some { S with threads := S.threads.set t (.locking op h) }
    | .error e => some { S with threads := S.threads.set t (.returned (.error e)) }
  | .locking op valid =>
    if S.mutation = none then
      some { S with mutation := some t, threads := S.threads.set t (.checking op valid) }
    else none
  | .unlocking result =>
    some { S with mutation := none, threads := S.threads.set t (.returned result) }
  | stage =>
    (criticalStep T S.pid o S.dir S.memory stage).map fun (dir, memory, stage') =>
      { S with dir, memory, threads := S.threads.set t stage' }

/-- One action. -/
def step (T : Toml) (S : Store) : StoreAction → Option Store
  | .call op => some { S with threads := S.threads ++ [.start op] }
  | .advance t o => S.threads[t]?.bind (S.advance T t o)
  | .restart pid order swept =>
    if Lists S.dir order ∧ ∀ name ∈ swept, classify name = .temp then
      match load T S.dir order with
      | .ok memory =>
        some
          { dir := S.dir.map fun files => swept.foldl (fun files name => files.erase name) files
            memory
            mutation := none
            threads := []
            pid }
      | .error _ => none
    else none

/-- A process that has just loaded its directory. -/
def start (dir : Option Directory) (memory : Registry) (pid : ℕ) : Store :=
  ⟨dir, memory, none, [], pid⟩

end Store

/-- The registry under every interleaving of its threads, every failure and every crash. -/
def registrySystem (T : Toml) : TransitionSystem Store StoreAction where
  step := Store.step T

end Agentd
