import Agentd.Connect
import Agentd.Daemon.Steps
import Agentd.Foundation.JsonText
import Agentd.Foundation.Lines

/-!
# The control socket

A connection to the control socket is served by a task of its own, which reads one request a line
and writes one response for each.  A mutation goes through the operations of the daemon, and the
task waits for its operation to return; the listing and the status are read off the registry.

`controlSystem` is the daemon with its connections: the tasks of the connections make their accesses
beside everything else that happens in the daemon, and the clients send what they like.  What a
connection has to do with its client and with the daemon is logged as `ConnectionDeed`s.

The parser of the requests and the texts of errors that come from elsewhere are parameters.
-/

namespace Agentd

open Lines JsonText

/-! ## Requests and responses -/

/-- One control request. -/
inductive Request where
  | register (agent : AgentConfig)
  | update (agent : AgentConfig)
  | unregister (agentId : AgentId)
  | list
  | reload
  | status

/-- The operation of the daemon that a request asks for. -/
def Request.op : Request → Option ControlOp
  | .register agent => some (.register agent)
  | .update agent => some (.update agent)
  | .unregister agentId => some (.unregister agentId)
  | .reload => some .reload
  | .list | .status => none

/-- Per-agent status view. -/
structure AgentStatus where
  agentId : AgentId
  handler : PathBuf
  maxConcurrency : UInt32
  enabled : Bool
  inFlight : ℕ
  numPending : Option UInt64
  numAckPending : Option UInt64

structure StatusReport where
  daemonVersion : String
  natsConnected : Bool
  agents : List AgentStatus

structure Response where
  ok : Bool
  error : Option String
  agents : Option (List AgentConfig)
  status : Option StatusReport

/-- `Response::ok`. -/
def Response.okay : Response := ⟨true, none, none, none⟩

/-- `Response::err`. -/
def Response.err (e : String) : Response := ⟨false, some e, none, none⟩

/-! ## Serialization -/

/-- A path is written as a string; `none` when it is not UTF-8. -/
def PathBuf.serialize (p : PathBuf) : Option (List Char) :=
  (String.fromUTF8? ⟨p.bytes.toArray⟩).map writeString

def AgentConfig.serialize (c : AgentConfig) : Option (List Char) := do
  let handler ← c.handler.serialize
  let workingDirectory ← c.workingDirectory.elim (some writeNull) PathBuf.serialize
  return writeObject
    [("agent_id", writeString c.agentId.asStr), ("handler", handler),
      ("max_concurrency", writeNat c.maxConcurrency.toNat),
      ("working_directory", workingDirectory), ("enabled", writeBool c.enabled)]

/-- A number that may be missing. -/
def writeCount (n : Option UInt64) : List Char := n.elim writeNull fun n => writeNat n.toNat

def AgentStatus.serialize (s : AgentStatus) : Option (List Char) := do
  let handler ← s.handler.serialize
  return writeObject
    [("agent_id", writeString s.agentId.asStr), ("handler", handler),
      ("max_concurrency", writeNat s.maxConcurrency.toNat), ("enabled", writeBool s.enabled),
      ("in_flight", writeNat s.inFlight), ("num_pending", writeCount s.numPending),
      ("num_ack_pending", writeCount s.numAckPending)]

def StatusReport.serialize (report : StatusReport) : Option (List Char) := do
  let agents ← report.agents.mapM AgentStatus.serialize
  return writeObject
    [("daemon_version", writeString report.daemonVersion),
      ("nats_connected", writeBool report.natsConnected), ("agents", writeArray agents)]

/-- A member that is skipped when there is no value. -/
def optionalMember {α : Type} (name : String) (serialize : α → Option (List Char)) :
    Option α → Option (List (String × List Char))
  | none => some []
  | some a => (serialize a).map fun value => [(name, value)]

/-- `serde_json::to_string` of a response. -/
def Response.serialize (r : Response) : Option (List Char) := do
  let error ← optionalMember "error" (fun e => some (writeString e)) r.error
  let agents ← optionalMember "agents"
    (fun agents => (agents.mapM AgentConfig.serialize).map writeArray) r.agents
  let status ← optionalMember "status" StatusReport.serialize r.status
  return writeObject (("ok", writeBool r.ok) :: error ++ agents ++ status)

/-- What is written when a response cannot be serialized. -/
def serializationFailed : List Char :=
  "\x7b\"ok\":false,\"error\":\"response serialization failed\"\x7d".toList

/-- The text of a response. -/
def Response.text (r : Response) : List Char := r.serialize.getD serializationFailed

/-- The bytes that are written for a response. -/
def Response.frame (r : Response) : List UInt8 := encode (r.text ++ ['\n'])

/-! ## Texts from elsewhere -/

/-- The request parser, and the parts of error texts that are made by the standard library or by
other libraries. -/
structure ControlConfig where
  /-- `serde_json::from_str`, with the text of its error. -/
  fromStr : String → Except String Request
  /-- `Debug` of a path. -/
  debugPath : PathBuf → String
  /-- The path of a file of the registry as it is displayed. -/
  displayFile : String → String
  /-- The error of the TOML library about a configuration that it cannot write. -/
  tomlWrite : AgentId → String
  /-- The error of the TOML library about a file that it cannot read. -/
  tomlRead : String → String
  /-- The reason given for a failed step on a file. -/
  ioReason : String → String

/-- The text of a reason. -/
def ConfigError.reason (T : ControlConfig) : ConfigError → String
  | .handlerNotAbsolute agent handler =>
    "agent " ++ agent.asStr ++ ": handler path must be absolute, got " ++ T.debugPath handler
  | .zeroConcurrency agent => "agent " ++ agent.asStr ++ ": max_concurrency must be >= 1"
  | .workingDirectoryNotAbsolute agent cwd =>
    "agent " ++ agent.asStr ++ ": working_directory must be absolute: " ++ T.debugPath cwd
  | .alreadyRegistered agent => "agent " ++ agent.asStr ++ " already registered"
  | .notRegistered agent => "agent " ++ agent.asStr ++ " is not registered"
  | .misnamed file agent stem =>
    "file " ++ T.displayFile file ++ " declares agent_id " ++ agent.asStr ++ " but is named " ++
      stem ++ ".toml; filenames must match the agent_id (ADR-0004)"
  | .serialize agent => "cannot serialize " ++ agent.asStr ++ ": " ++ T.tomlWrite agent
  | .malformed file => "invalid agent config " ++ T.displayFile file ++ ": " ++ T.tomlRead file
  | .io file => T.ioReason file

/-- `into_resp`. -/
def intoResp (T : ControlConfig) : Except ConfigError Unit → Response
  | .ok () => .okay
  | .error e => .err (AgentdError.config (e.reason T)).display

/-! ## Lines -/

/-- The text of a line without its end: `\n` or `\r\n`. -/
def stripEnd (text : List Char) : List Char :=
  if text.getLast? = some '\n' then
    if text.dropLast.getLast? = some '\r' then text.dropLast.dropLast else text.dropLast
  else text

/-- A line as `next_line` returns it; `none` when it is not UTF-8. -/
def decodeLine (piece : List UInt8) : Option String :=
  (String.fromUTF8? ⟨piece.toArray⟩).map fun text => String.ofList (stripEnd text.toList)

/-- Nothing is left of the line when it is trimmed. -/
def isBlank (line : String) : Bool := line.toList.all EventEnvelope.isWhiteSpace

/-! ## Connections -/

/-- The errors with which the service of a connection ends. -/
inductive ConnectionError where
  /-- A line is not UTF-8. -/
  | invalidData
  | read
  | write

/-- The position of `serve_connection`. -/
inductive ConnectionStage where
  /-- In `next_line`. -/
  | reading
  /-- `handle_request` is called. -/
  | received (request : Request)
  /-- Waiting for the operation `r` of the daemon. -/
  | waiting (r : ℕ)
  /-- Collecting the status: the agents that remain, and what is collected. -/
  | collecting (remaining : List AgentConfig) (agents : List AgentStatus)
  /-- In `write_all`. -/
  | writing (response : Response)
  | returned (result : Except ConnectionError Unit)

/-- A connection: what the client has sent and is not read, whether it has ended its input, and the
task that serves it. -/
structure Connection where
  unread : List UInt8
  ended : Bool
  stage : ConnectionStage

/-- What the environment decides about one step of a connection. -/
structure ConnectionOutcome where
  readFails : Bool := false
  writeFails : Bool := false
  /-- `consumer_backlog`. -/
  backlog : Option (UInt64 × UInt64) := none
  natsConnected : Bool := true

/-- The version of the package. -/
def daemonVersion : String := "0.1.0"

/-- What a line that is read leads to. -/
def ControlConfig.onLine (T : ControlConfig) (piece : List UInt8) : ConnectionStage :=
  match decodeLine piece with
  | none => .returned (.error .invalidData)
  | some line =>
    if isBlank line then .reading
    else match T.fromStr line with
      | .ok request => .received request
      | .error e => .writing (.err ("malformed request: " ++ e))

/-- `next_line`: the next line, or the last one without an end, or the end of the input. -/
def Connection.nextLine (T : ControlConfig) (conn : Connection) : Option Connection :=
  match chop newline conn.unread with
  | [] => if conn.ended then some { conn with stage := .returned (.ok ()) } else none
  | piece :: rest =>
    if piece.getLast? = some newline ∨ conn.ended = true then
      some { conn with unread := rest.flatten, stage := T.onLine piece }
    else none

namespace Daemon

/-- An operation of the daemon is called. -/
def callOp (D : Daemon) (op : ControlOp) : Daemon × ConnectionStage :=
  ({ D with requests := D.requests ++ [.registry op] }, .waiting D.requests.length)

/-- The first access of `handle_request`. -/
def handleRequest (D : Daemon) : Request → Daemon × ConnectionStage
  | .register agent => D.callOp (.register agent)
  | .update agent => D.callOp (.update agent)
  | .unregister agentId => D.callOp (.unregister agentId)
  | .list => (D, .writing { Response.okay with agents := some D.registry.snapshot })
  | .reload => D.callOp .reload
  | .status => (D, .collecting D.registry.snapshot [])

/-- The status of an agent. -/
def statusOf (D : Daemon) (config : AgentConfig) (backlog : Option (UInt64 × UInt64)) :
    AgentStatus where
  agentId := config.agentId
  handler := config.handler
  maxConcurrency := config.maxConcurrency
  enabled := config.enabled
  inFlight := (D.world.dispatcher.inFlightIds config.agentId).card
  numPending := backlog.map Prod.fst
  numAckPending := backlog.map Prod.snd

/-- One access of `serve_connection`. -/
def serveConnection (T : ControlConfig) (D : Daemon) (conn : Connection) (o : ConnectionOutcome) :
    Option (Daemon × Connection) :=
  match conn.stage with
  | .reading =>
    if o.readFails then some (D, { conn with stage := .returned (.error .read) })
    else (conn.nextLine T).map (D, ·)
  | .received request =>
    some ((D.handleRequest request).1, { conn with stage := (D.handleRequest request).2 })
  | .waiting r =>
    match D.requests[r]? with
    | some (.returned result) => some (D, { conn with stage := .writing (intoResp T result) })
    | _ => none
  | .collecting (config :: remaining) agents =>
    some (D, { conn with stage := .collecting remaining (agents ++ [D.statusOf config o.backlog]) })
  | .collecting [] agents =>
    let report := ⟨daemonVersion, o.natsConnected, agents⟩
    some (D, { conn with stage := .writing { Response.okay with status := some report } })
  | .writing _ =>
    if o.writeFails then some (D, { conn with stage := .returned (.error .write) })
    else some (D, { conn with stage := .reading })
  | .returned _ => none

end Daemon

/-! ## The daemon with its connections -/

structure ControlPlane where
  daemon : Daemon
  connections : List Connection

/-- An action of the daemon, of a client, or of the task of a connection. -/
inductive ControlAction where
  | act (a : DaemonAction)
  /-- A client connects. -/
  | accept
  /-- The client of the connection `c` sends bytes. -/
  | send (c : ℕ) (bytes : List UInt8)
  /-- The client of the connection `c` ends its input. -/
  | finish (c : ℕ)
  /-- The task of the connection `c` makes its next access. -/
  | serve (c : ℕ) (o : ConnectionOutcome)

namespace ControlPlane

/-- One action; a crash takes the connections away. -/
def step (C : DispatcherConfig) (T : ControlConfig) (S : ControlPlane) :
    ControlAction → Option ControlPlane
  | .act (.restart registry now ttl) =>
    (S.daemon.step C (.restart registry now ttl)).map fun daemon => ⟨daemon, []⟩
  | .act a => (S.daemon.step C a).map fun daemon => { S with daemon }
  | .accept =>
    if S.daemon.ready then some { S with connections := S.connections ++ [⟨[], false, .reading⟩] }
    else none
  | .send c bytes => do
    let conn ← S.connections[c]?
    if conn.ended then none
    else
      let conn' := { conn with unread := conn.unread ++ bytes }
      some { S with connections := S.connections.set c conn' }
  | .finish c => do
    let conn ← S.connections[c]?
    let conn' := { conn with ended := true }
    return { S with connections := S.connections.set c conn' }
  | .serve c o => do
    let conn ← S.connections[c]?
    let (daemon, conn') ← S.daemon.serveConnection T conn o
    return { daemon, connections := S.connections.set c conn' }

end ControlPlane

/-- The daemon and its connections under every interleaving. -/
def controlSystem (C : DispatcherConfig) (T : ControlConfig) :
    TransitionSystem ControlPlane ControlAction where
  step := ControlPlane.step C T

/-- What can be observed of a connection. -/
inductive ConnectionDeed where
  /-- The client sends bytes. -/
  | sent (bytes : List UInt8)
  /-- The operation called is performed on the registry, with the given result. -/
  | performed (op : ControlOp) (result : Except ConfigError Unit)
  /-- The registry is read for a listing. -/
  | listed (agents : List AgentConfig)
  /-- The registry is read for a status. -/
  | reported (agents : List AgentConfig)
  /-- A response is written. -/
  | wrote (bytes : List UInt8)
  /-- A read or a write fails. -/
  | failed

/-- What an access of `serve_connection` does that can be observed. -/
def Connection.deeds (conn : Connection) (D : Daemon) (o : ConnectionOutcome) :
    List ConnectionDeed :=
  match conn.stage with
  | .reading => if o.readFails then [.failed] else []
  | .received .list => [.listed D.registry.snapshot]
  | .received .status => [.reported D.registry.snapshot]
  | .writing response => if o.writeFails then [.failed] else [.wrote response.frame]
  | _ => []

/-- The operation a connection waits for is performed by an access of the daemon. -/
def Connection.performs (conn : Connection) (D : Daemon) (r : ℕ) (o : ServeOutcome) :
    List ConnectionDeed :=
  match conn.stage, D.requests[r]? with
  | .waiting r', some (.registry op) =>
    if r' = r then [.performed op ((op.perform D.registry o).map fun _ => ())] else []
  | _, _ => []

/-- What an action does that can be observed of the connection `c`. -/
def ControlPlane.deeds (c : ℕ) (S : ControlPlane) : ControlAction → List ConnectionDeed
  | .act (.serve r o) => S.connections[c]?.elim [] fun conn => conn.performs S.daemon r o
  | .send c' bytes => if c' = c then [.sent bytes] else []
  | .serve c' o =>
    if c' = c then S.connections[c]?.elim [] fun conn => conn.deeds S.daemon o else []
  | _ => []

/-! ## What an access does -/

/-- What an access of `serve_connection` can do: the daemon and the connection after it, and what
can be observed of it. -/
inductive Attends (T : ControlConfig) (D : Daemon) (conn : Connection) :
    Daemon → Connection → List ConnectionDeed → Prop
  | readFail (hstage : conn.stage = .reading) :
      Attends T D conn D { conn with stage := .returned (.error .read) } [.failed]
  | inputEnd (hstage : conn.stage = .reading) (hunread : conn.unread = [])
      (hended : conn.ended = true) :
      Attends T D conn D { conn with stage := .returned (.ok ()) } []
  | line {piece : List UInt8} {rest : List (List UInt8)} (hstage : conn.stage = .reading)
      (hchop : chop newline conn.unread = piece :: rest)
      (hline : piece.getLast? = some newline ∨ conn.ended = true) :
      Attends T D conn D { conn with unread := rest.flatten, stage := T.onLine piece } []
  | call {request : Request} {op : ControlOp} (hstage : conn.stage = .received request)
      (hop : request.op = some op) :
      Attends T D conn { D with requests := D.requests ++ [.registry op] }
        { conn with stage := .waiting D.requests.length } []
  | list (hstage : conn.stage = .received .list) :
      Attends T D conn D
        { conn with stage := .writing { Response.okay with agents := some D.registry.snapshot } }
        [.listed D.registry.snapshot]
  | status (hstage : conn.stage = .received .status) :
      Attends T D conn D { conn with stage := .collecting D.registry.snapshot [] }
        [.reported D.registry.snapshot]
  | answer {r : ℕ} {result : Except ConfigError Unit} (hstage : conn.stage = .waiting r)
      (hresult : D.requests[r]? = some (.returned result)) :
      Attends T D conn D { conn with stage := .writing (intoResp T result) } []
  | collect {config : AgentConfig} {remaining : List AgentConfig} {agents : List AgentStatus}
      {backlog : Option (UInt64 × UInt64)}
      (hstage : conn.stage = .collecting (config :: remaining) agents) :
      Attends T D conn D
        { conn with stage := .collecting remaining (agents ++ [D.statusOf config backlog]) } []
  | report {report : StatusReport} (hstage : conn.stage = .collecting [] report.agents) :
      Attends T D conn D
        { conn with stage := .writing { Response.okay with status := some report } } []
  | writeFail {response : Response} (hstage : conn.stage = .writing response) :
      Attends T D conn D { conn with stage := .returned (.error .write) } [.failed]
  | write {response : Response} (hstage : conn.stage = .writing response) :
      Attends T D conn D { conn with stage := .reading } [.wrote response.frame]

variable {C : DispatcherConfig} {T : ControlConfig} {D D' : Daemon} {conn conn' : Connection}
variable {o : ConnectionOutcome} {S S' : ControlPlane} {c : ℕ}

theorem attends_of_serveConnection (h : D.serveConnection T conn o = some (D', conn')) :
    Attends T D conn D' conn' (conn.deeds D o) := by
  cases hstage : conn.stage with
  | reading =>
    simp only [Daemon.serveConnection, Connection.deeds, hstage] at h ⊢
    split at h
    · rename_i hfails
      cases h
      rw [if_pos hfails]
      exact .readFail hstage
    · rename_i hfails
      obtain ⟨next, hnext, heq⟩ := Option.map_eq_some_iff.mp h
      cases heq
      rw [if_neg hfails]
      unfold Connection.nextLine at hnext
      split at hnext
      · rename_i hchop
        split at hnext
        · rename_i hended
          cases hnext
          exact .inputEnd hstage (chop_eq_nil.mp hchop) hended
        · cases hnext
      · rename_i piece rest hchop
        split at hnext
        · rename_i hline
          cases hnext
          exact .line hstage hchop hline
        · cases hnext
  | received request =>
    simp only [Daemon.serveConnection, Connection.deeds, hstage] at h ⊢
    cases request with
    | register agent | update agent | unregister agentId | reload =>
      cases h
      exact .call hstage rfl
    | list =>
      cases h
      exact .list hstage
    | status =>
      cases h
      exact .status hstage
  | waiting r =>
    simp only [Daemon.serveConnection, Connection.deeds, hstage] at h ⊢
    split at h
    · rename_i result hresult
      cases h
      exact .answer hstage hresult
    · cases h
  | collecting remaining agents =>
    simp only [Daemon.serveConnection, Connection.deeds, hstage] at h ⊢
    cases remaining with
    | nil =>
      cases h
      exact @Attends.report T D conn ⟨daemonVersion, o.natsConnected, agents⟩ hstage
    | cons config remaining =>
      cases h
      exact .collect hstage
  | writing response =>
    simp only [Daemon.serveConnection, Connection.deeds, hstage] at h ⊢
    split at h
    · rename_i hfails
      cases h
      rw [if_pos hfails]
      exact .writeFail hstage
    · rename_i hfails
      cases h
      rw [if_neg hfails]
      exact .write hstage
  | returned result => simp [Daemon.serveConnection, hstage] at h

namespace Connection

variable {r r' : ℕ} {op : ControlOp} {outcome : ServeOutcome}

theorem performs_eq (hstage : conn.stage = .waiting r) (hr : D.requests[r]? = some (.registry op)) :
    conn.performs D r outcome =
      [.performed op ((op.perform D.registry outcome).map fun _ => ())] := by
  simp [performs, hstage, hr]

/-- The accesses of other operations do not perform the one that the connection waits for. -/
theorem performs_of_ne (hstage : conn.stage = .waiting r') (hne : r' ≠ r) :
    conn.performs D r outcome = [] := by
  simp only [performs, hstage]
  cases D.requests[r]? with
  | none => rfl
  | some stage => cases stage <;> simp [hne]

end Connection

/-- An access of a connection leaves the operations of the daemon alone, or calls one more. -/
theorem Attends.requests_cases {deeds : List ConnectionDeed} (h : Attends T D conn D' conn' deeds) :
    D'.requests = D.requests ∨ ∃ op, D'.requests = D.requests ++ [.registry op] := by
  cases h with
  | call => exact .inr ⟨_, rfl⟩
  | _ => exact .inl rfl

namespace ControlPlane

theorem step_serve (h : (controlSystem C T).step S (.serve c o) = some S') :
    ∃ conn D' conn', S.connections[c]? = some conn ∧
      S.daemon.serveConnection T conn o = some (D', conn') ∧
      S' = ⟨D', S.connections.set c conn'⟩ := by
  simp only [controlSystem, step, Option.bind_eq_bind, Option.bind_eq_some_iff] at h
  obtain ⟨conn, hconn, ⟨D', conn'⟩, hserve, heq⟩ := h
  exact ⟨conn, D', conn', hconn, hserve, by simpa using heq.symm⟩

theorem step_send {bytes : List UInt8} (h : (controlSystem C T).step S (.send c bytes) = some S') :
    ∃ conn, S.connections[c]? = some conn ∧ conn.ended = false ∧
      S' = { S with
        connections := S.connections.set c { conn with unread := conn.unread ++ bytes } } := by
  simp only [controlSystem, step, Option.bind_eq_bind, Option.bind_eq_some_iff] at h
  obtain ⟨conn, hconn, h⟩ := h
  split at h
  · cases h
  · rename_i hended
    cases h
    exact ⟨conn, hconn, by simpa using hended, rfl⟩

theorem step_finish (h : (controlSystem C T).step S (.finish c) = some S') :
    ∃ conn, S.connections[c]? = some conn ∧
      S' = { S with connections := S.connections.set c { conn with ended := true } } := by
  simp only [controlSystem, step, Option.bind_eq_bind, Option.bind_eq_some_iff] at h
  obtain ⟨conn, hconn, heq⟩ := h
  exact ⟨conn, hconn, by simpa using heq.symm⟩

end ControlPlane

end Agentd
