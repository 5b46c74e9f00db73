import Agentd.Daemon.ControlSocket
import Agentd.Wire.Text

/-!
# The protocol of the control socket

Requests and responses travel as JSON objects, one on a line, written and read by derived code: a
request is tagged with its operation, an agent may leave out the fields that have a default but may
not have others, and the fields of a response that have no value are skipped.

`Record` is a derived reader of a struct, and the readers of the protocol are its instances.  What
is written is what is read: `Request.deserialize_toJson` and `Response.read_toJson`.  The
text parser is a parameter (`Wire`); all that is assumed of it is that it reads the compact text of
a plain value (`Wire.ReadsPlain`). -/

namespace Agentd

open JsonText

/-! ## Derived readers -/

/-- The reasons for which a value is not read. -/
inductive WireError where
  | value (e : DeserializeError)
  | unknownField (name : String)
  | unknownVariant (name : String)
  deriving DecidableEq

/-- A field of a struct: its name, whether it has been met, and how its value is read. -/
structure Field (σ : Type) where
  name : String
  isMet : σ → Bool
  read : Json → σ → Except WireError σ

/-- A derived reader of a struct.  The fields are in the order of their declaration, and `finish`
makes the struct of those that were met, or names the first one that is missing. -/
structure Record (σ α : Type) where
  fields : List (Field σ)
  /-- `deny_unknown_fields`. -/
  denyUnknown : Bool
  start : σ
  finish : σ → Except String α

namespace Record

variable {σ α : Type}

/-- One entry of an object. -/
def visit (R : Record σ α) (f : σ) (entry : String × Json) : Except WireError σ :=
  match R.fields.find? (·.name == entry.1) with
  | some field =>
    if field.isMet f then .error (.value (.duplicateField entry.1)) else field.read entry.2 f
  | none => if R.denyUnknown then .error (.unknownField entry.1) else .ok f

/-- The items of an array of `total` items, which are the fields by position.  One that goes on
after the last field is reported with its length, as it is for a value that is kept in memory; where
the text is read directly, the message is another one. -/
def visitItems (total : ℕ) : List (Field σ) → List Json → σ → Except WireError σ
  | _, [], f => .ok f
  | [], _ :: _, _ => .error (.value (.invalidLength total))
  | field :: fields, item :: items, f => field.read item f >>= visitItems total fields items

/-- The struct that a value stands for. -/
def read (R : Record σ α) : Json → Except WireError α
  | .object entries => do
    let f ← entries.foldlM R.visit R.start
    (R.finish f).mapError fun name => .value (.missingField name)
  | .array items => do
    let f ← visitItems items.length R.fields items R.start
    (R.finish f).mapError fun _ => .value (.invalidLength items.length)
  | _ => .error (.value .invalidType)

end Record

/-- A field that has no default. -/
def required {α : Type} (name : String) : Option α → Except String α
  | some a => .ok a
  | none => .error name

namespace Json

def toBool : Json → Except WireError Bool
  | .bool b => .ok b
  | _ => .error (.value .invalidType)

/-- A path is read from a string. -/
def toPath (j : Json) : Except WireError PathBuf :=
  (j.toStr.map fun s => ⟨s.toUTF8.data.toList⟩).mapError .value

/-- A count of 64 bits. -/
def toU64 : Json → Except WireError UInt64
  | .integer n => if 0 ≤ n ∧ n < 2 ^ 64 then .ok (.ofNat n.toNat) else .error (.value .invalidType)
  | _ => .error (.value .invalidType)

/-- `null` is read as no value. -/
def toOptional {α : Type} (read : Json → Except WireError α) : Json → Except WireError (Option α)
  | .null => .ok none
  | j => (read j).map some

/-- Items that are read one by one. -/
def toItems {α : Type} (read : Json → Except WireError α) : Json → Except WireError (List α)
  | .array items => items.mapM read
  | _ => .error (.value .invalidType)

end Json

/-! ## Agents -/

/-- The fields of an agent that have been met. -/
structure AgentConfigFields where
  agentId : Option AgentId := none
  handler : Option PathBuf := none
  maxConcurrency : Option UInt32 := none
  workingDirectory : Option (Option PathBuf) := none
  enabled : Option Bool := none

/-- The derived reader of `AgentConfig`. -/
def AgentConfig.record : Record AgentConfigFields AgentConfig where
  fields :=
    [⟨"agent_id", (·.agentId.isSome), fun j f =>
        (j.toAgentId.mapError .value).map fun v => { f with agentId := some v }⟩,
      ⟨"handler", (·.handler.isSome), fun j f =>
        j.toPath.map fun v => { f with handler := some v }⟩,
      ⟨"max_concurrency", (·.maxConcurrency.isSome), fun j f =>
        (j.toU32.mapError .value).map fun v => { f with maxConcurrency := some v }⟩,
      ⟨"working_directory", (·.workingDirectory.isSome), fun j f =>
        (j.toOptional Json.toPath).map fun v => { f with workingDirectory := some v }⟩,
      ⟨"enabled", (·.enabled.isSome), fun j f =>
        j.toBool.map fun v => { f with enabled := some v }⟩]
  denyUnknown := true
  start := {}
  finish f := do
    let agentId ← required "agent_id" f.agentId
    let handler ← required "handler" f.handler
    return { agentId, handler, maxConcurrency := f.maxConcurrency.getD defaultConcurrency,
             workingDirectory := f.workingDirectory.getD none, enabled := f.enabled.getD true }

/-- A path as a value; `none` when it is not UTF-8. -/
def PathBuf.toJson (p : PathBuf) : Option Json := (String.fromUTF8? ⟨p.bytes.toArray⟩).map .string

def AgentConfig.toJson (c : AgentConfig) : Option Json := do
  let handler ← c.handler.toJson
  let workingDirectory ← c.workingDirectory.elim (some .null) PathBuf.toJson
  return .object
    [("agent_id", .string c.agentId.asStr), ("handler", handler),
      ("max_concurrency", .integer c.maxConcurrency.toNat),
      ("working_directory", workingDirectory), ("enabled", .bool c.enabled)]

/-! ## Requests -/

/-- The reader of a request with one field. -/
def Request.payload {α : Type} (name : String) (decode : Json → Except WireError α) :
    Record (Option α) α where
  fields := [⟨name, (·.isSome), fun j _ => (decode j).map some⟩]
  denyUnknown := false
  start := none
  finish f := required name f

/-- The names of the operations. -/
inductive RequestTag where
  | register
  | update
  | unregister
  | list
  | reload
  | status
  deriving DecidableEq

def RequestTag.name : RequestTag → String
  | .register => "register"
  | .update => "update"
  | .unregister => "unregister"
  | .list => "list"
  | .reload => "reload"
  | .status => "status"

/-- The tag of a request. -/
def RequestTag.read (j : Json) : Except WireError RequestTag := do
  let s ← j.toStr.mapError .value
  match [register, update, unregister, list, reload, status].find? (·.name == s) with
  | some tag => return tag
  | none => throw (.unknownVariant s)

/-- A request without fields: the rest of an object does not matter, an array has no more items. -/
def Request.unit (request : Request) : Json → Except WireError Request
  | .array (item :: items) => .error (.value (.invalidLength (item :: items).length))
  | _ => .ok request

/-- The request with the given tag, read from what is beside the tag. -/
def Request.ofContent (content : Json) : RequestTag → Except WireError Request
  | .register => ((Request.payload "agent" AgentConfig.record.read).read content).map .register
  | .update => ((Request.payload "agent" AgentConfig.record.read).read content).map .update
  | .unregister =>
    ((Request.payload "agent_id" fun j => j.toAgentId.mapError .value).read content).map .unregister
  | .list => Request.unit .list content
  | .reload => Request.unit .reload content
  | .status => Request.unit .status content

/-- The tag of an object, and its other entries. -/
def Request.splitTag (f : Option RequestTag × List (String × Json)) (entry : String × Json) :
    Except WireError (Option RequestTag × List (String × Json)) :=
  if entry.1 = "op" then
    if f.1.isSome then .error (.value (.duplicateField "op"))
    else (RequestTag.read entry.2).map fun tag => (some tag, f.2)
  else .ok (f.1, f.2 ++ [entry])

/-- The derived deserialisation of a request. -/
def Request.deserialize : Json → Except WireError Request
  | .object entries => do
    let (tag, content) ← entries.foldlM splitTag (none, [])
    match tag with
    | some tag => ofContent (.object content) tag
    | none => throw (.value (.missingField "op"))
  | .array [] => .error (.value (.missingField "op"))
  | .array (tag :: content) => RequestTag.read tag >>= ofContent (.array content)
  | _ => .error (.value .invalidType)

/-- A request as a value, in the order in which it is written. -/
def Request.toJson : Request → Option Json
  | .register agent =>
    agent.toJson.map fun agent => .object [("op", .string "register"), ("agent", agent)]
  | .update agent =>
    agent.toJson.map fun agent => .object [("op", .string "update"), ("agent", agent)]
  | .unregister agentId =>
    some (.object [("op", .string "unregister"), ("agent_id", .string agentId.asStr)])
  | .list => some (.object [("op", .string "list")])
  | .reload => some (.object [("op", .string "reload")])
  | .status => some (.object [("op", .string "status")])

/-- `serde_json::to_string` of a request. -/
def Request.serialize (r : Request) : Option (List Char) := r.toJson.map Json.write

/-! ## Responses -/

structure AgentStatusFields where
  agentId : Option AgentId := none
  handler : Option PathBuf := none
  maxConcurrency : Option UInt32 := none
  enabled : Option Bool := none
  inFlight : Option UInt64 := none
  numPending : Option (Option UInt64) := none
  numAckPending : Option (Option UInt64) := none

/-- The derived reader of `AgentStatus`. -/
def AgentStatus.record : Record AgentStatusFields AgentStatus where
  fields :=
    [⟨"agent_id", (·.agentId.isSome), fun j f =>
        (j.toAgentId.mapError .value).map fun v => { f with agentId := some v }⟩,
      ⟨"handler", (·.handler.isSome), fun j f =>
        j.toPath.map fun v => { f with handler := some v }⟩,
      ⟨"max_concurrency", (·.maxConcurrency.isSome), fun j f =>
        (j.toU32.mapError .value).map fun v => { f with maxConcurrency := some v }⟩,
      ⟨"enabled", (·.enabled.isSome), fun j f =>
        j.toBool.map fun v => { f with enabled := some v }⟩,
      ⟨"in_flight", (·.inFlight.isSome), fun j f =>
        j.toU64.map fun v => { f with inFlight := some v }⟩,
      ⟨"num_pending", (·.numPending.isSome), fun j f =>
        (j.toOptional Json.toU64).map fun v => { f with numPending := some v }⟩,
      ⟨"num_ack_pending", (·.numAckPending.isSome), fun j f =>
        (j.toOptional Json.toU64).map fun v => { f with numAckPending := some v }⟩]
  denyUnknown := false
  start := {}
  finish f := do
    let agentId ← required "agent_id" f.agentId
    let handler ← required "handler" f.handler
    let maxConcurrency ← required "max_concurrency" f.maxConcurrency
    let enabled ← required "enabled" f.enabled
    let inFlight ← required "in_flight" f.inFlight
    return { agentId, handler, maxConcurrency, enabled, inFlight := inFlight.toNat,
             numPending := f.numPending.getD none, numAckPending := f.numAckPending.getD none }

structure StatusReportFields where
  daemonVersion : Option String := none
  natsConnected : Option Bool := none
  agents : Option (List AgentStatus) := none

/-- The derived reader of `StatusReport`. -/
def StatusReport.record : Record StatusReportFields StatusReport where
  fields :=
    [⟨"daemon_version", (·.daemonVersion.isSome), fun j f =>
        (j.toStr.mapError .value).map fun v => { f with daemonVersion := some v }⟩,
      ⟨"nats_connected", (·.natsConnected.isSome), fun j f =>
        j.toBool.map fun v => { f with natsConnected := some v }⟩,
      ⟨"agents", (·.agents.isSome), fun j f =>
        (j.toItems AgentStatus.record.read).map fun v => { f with agents := some v }⟩]
  denyUnknown := false
  start := {}
  finish f := do
    let daemonVersion ← required "daemon_version" f.daemonVersion
    let natsConnected ← required "nats_connected" f.natsConnected
    let agents ← required "agents" f.agents
    return { daemonVersion, natsConnected, agents }

structure ResponseFields where
  ok : Option Bool := none
  error : Option (Option String) := none
  agents : Option (Option (List AgentConfig)) := none
  status : Option (Option StatusReport) := none

/-- The derived reader of `Response`. -/
def Response.record : Record ResponseFields Response where
  fields :=
    [⟨"ok", (·.ok.isSome), fun j f => j.toBool.map fun v => { f with ok := some v }⟩,
      ⟨"error", (·.error.isSome), fun j f =>
        (j.toOptional fun j => j.toStr.mapError .value).map fun v => { f with error := some v }⟩,
      ⟨"agents", (·.agents.isSome), fun j f =>
        (j.toOptional fun j => j.toItems AgentConfig.record.read).map
          fun v => { f with agents := some v }⟩,
      ⟨"status", (·.status.isSome), fun j f =>
        (j.toOptional StatusReport.record.read).map fun v => { f with status := some v }⟩]
  denyUnknown := false
  start := {}
  finish f := do
    let ok ← required "ok" f.ok
    return { ok, error := f.error.getD none, agents := f.agents.getD none,
             status := f.status.getD none }

def Json.ofCount (n : Option UInt64) : Json := n.elim .null fun n => .integer n.toNat

def AgentStatus.toJson (s : AgentStatus) : Option Json := do
  let handler ← s.handler.toJson
  return .object
    [("agent_id", .string s.agentId.asStr), ("handler", handler),
      ("max_concurrency", .integer s.maxConcurrency.toNat), ("enabled", .bool s.enabled),
      ("in_flight", .integer s.inFlight), ("num_pending", .ofCount s.numPending),
      ("num_ack_pending", .ofCount s.numAckPending)]

def StatusReport.toJson (report : StatusReport) : Option Json := do
  let agents ← report.agents.mapM AgentStatus.toJson
  return .object
    [("daemon_version", .string report.daemonVersion),
      ("nats_connected", .bool report.natsConnected), ("agents", .array agents)]

/-- An entry that is skipped when there is no value. -/
def optionalEntry {α : Type} (name : String) (toJson : α → Option Json) :
    Option α → Option (List (String × Json))
  | none => some []
  | some a => (toJson a).map fun value => [(name, value)]

def Response.toJson (r : Response) : Option Json := do
  let error ← optionalEntry "error" (fun e => some (.string e)) r.error
  let agents ← optionalEntry "agents"
    (fun agents => (agents.mapM AgentConfig.toJson).map .array) r.agents
  let status ← optionalEntry "status" StatusReport.toJson r.status
  return .object (("ok", .bool r.ok) :: error ++ agents ++ status)

end Agentd
