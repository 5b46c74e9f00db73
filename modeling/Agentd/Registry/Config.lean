import Agentd.AgentId

/-!
# Registered agents and registry changes

`AgentConfig` mirrors the per-agent file, `validate` is its structural validation, and `Change` is
the unit in which the registry tells the dispatcher and the relay what happened to an agent.

Paths are byte strings, as on the platform the daemon supports.  Two paths are compared by their
components (`PathBuf.partialEq`), so `AgentConfig.partialEq`, the comparison a reload uses, is
coarser than equality of the files.  Liveness warnings only produce log lines and are left out.
-/

namespace Agentd

/-- A path: the bytes of its text. -/
structure PathBuf where
  /-- The bytes of the path. -/
  bytes : List UInt8
  deriving DecidableEq, Repr

namespace PathBuf

/-- The byte `/`. -/
def separator : UInt8 := 47

/-- The component `.`. -/
def currentDir : List UInt8 := [46]

/-- A path is absolute when it starts with the separator. -/
def isAbsolute (p : PathBuf) : Bool := p.bytes.head? == some separator

/-- What comparison of paths looks at: whether the path is rooted, whether it starts with an
explicit `.`, and its names, with empty and `.` components skipped. -/
def components (p : PathBuf) : Bool × Bool × List (List UInt8) :=
  let pieces := p.bytes.splitOn separator
  (p.isAbsolute, !p.isAbsolute && pieces.head? == some currentDir,
    pieces.filter fun c => !c.isEmpty && c != currentDir)

/-- Paths are compared by their components. -/
def partialEq (p q : PathBuf) : Bool := p.components == q.components

@[simp] theorem partialEq_refl (p : PathBuf) : p.partialEq p = true := by simp [partialEq]

end PathBuf

/-- Default `max_concurrency`: one handler at a time. -/
def defaultConcurrency : UInt32 := 1

/-- A registered agent. -/
structure AgentConfig where
  /-- The id of the agent. -/
  agentId : AgentId
  /-- Path to the handler executable. -/
  handler : PathBuf
  /-- How many handlers may run at once. -/
  maxConcurrency : UInt32 := defaultConcurrency
  /-- The directory handlers are started in. -/
  workingDirectory : Option PathBuf := none
  /-- Whether the agent consumes events. -/
  enabled : Bool := true
  deriving DecidableEq

/-- The reasons for which a registry operation fails (`AgentdError::Config`), with the values that
the message quotes; `io` covers the steps that touch the file system. -/
inductive ConfigError where
  /-- `agent {}: handler path must be absolute, got {:?}` -/
  | handlerNotAbsolute (agent : AgentId) (handler : PathBuf)
  /-- `agent {}: max_concurrency must be >= 1` -/
  | zeroConcurrency (agent : AgentId)
  /-- `agent {}: working_directory must be absolute: {:?}` -/
  | workingDirectoryNotAbsolute (agent : AgentId) (workingDirectory : PathBuf)
  /-- `agent {} already registered` -/
  | alreadyRegistered (agent : AgentId)
  /-- `agent {} is not registered` -/
  | notRegistered (agent : AgentId)
  /-- `file {} declares agent_id {id} but is named {stem}.toml` -/
  | misnamed (file : String) (agent : AgentId) (stem : String)
  /-- `cannot serialize {}` -/
  | serialize (agent : AgentId)
  /-- `invalid agent config {}` -/
  | malformed (file : String)
  /-- A failed file-system step on the named file. -/
  | io (file : String)
  deriving DecidableEq

namespace AgentConfig

/-- Structural validation: absolute handler path, positive concurrency, absolute working
directory. -/
def validate (c : AgentConfig) : Except ConfigError Unit :=
  if !c.handler.isAbsolute then .error (.handlerNotAbsolute c.agentId c.handler)
  else if c.maxConcurrency = 0 then .error (.zeroConcurrency c.agentId)
  else match c.workingDirectory with
    | some cwd =>
      if !cwd.isAbsolute then .error (.workingDirectoryNotAbsolute c.agentId cwd) else .ok ()
    | none => .ok ()

/-- The derived comparison of configurations, in which paths are compared by components. -/
def partialEq (a b : AgentConfig) : Bool :=
  a.agentId == b.agentId && a.handler.partialEq b.handler &&
    a.maxConcurrency == b.maxConcurrency &&
    (match a.workingDirectory, b.workingDirectory with
      | some p, some q => p.partialEq q
      | none, none => true
      | _, _ => false) &&
    a.enabled == b.enabled

@[simp] theorem partialEq_refl (c : AgentConfig) : c.partialEq c = true := by
  unfold partialEq
  cases c.workingDirectory <;> simp

/-- Configurations that are equal to the derived comparison have the same limit and flag. -/
theorem eq_of_partialEq {a b : AgentConfig} (h : a.partialEq b = true) :
    a.maxConcurrency = b.maxConcurrency ∧ a.enabled = b.enabled := by
  simp only [partialEq, Bool.and_eq_true, beq_iff_eq] at h
  exact ⟨h.1.1.2, h.2⟩

/-- A configuration that passes validation allows at least one handler. -/
theorem maxConcurrency_pos {c : AgentConfig} (h : c.validate = .ok ()) :
    0 < c.maxConcurrency.toNat := by
  unfold validate at h
  split at h
  · cases h
  split at h
  · cases h
  rename_i hne
  rw [Nat.pos_iff_ne_zero]
  exact fun hz => hne (UInt32.toNat_inj.mp (by simpa using hz))

end AgentConfig

/-- One registry change.  When `enabled` flips together with other fields only `enabled` or
`disabled` is emitted, with the full new configuration. -/
inductive Change where
  | added (config : AgentConfig)
  | updated (config : AgentConfig)
  | enabled (config : AgentConfig)
  | disabled (config : AgentConfig)
  | removed (id : AgentId)
  deriving DecidableEq

/-- The affected agent id. -/
def Change.agentId : Change → AgentId
  | .added c | .updated c | .enabled c | .disabled c => c.agentId
  | .removed id => id

end Agentd
