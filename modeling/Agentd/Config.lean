import Agentd.Clock
import Agentd.Connect

/-!
# The daemon's configuration file

`FileConfig` adds to the keys that `connect` reads those that the stream and the completed-event
store are set up with.  `load` reads the file, `validate` is what it checks, `dedupTtl` is the
retention of completed events and `ensureStream` the stream that an operator creates.  Reading TOML
is left to the library that does it.
-/

namespace Agentd

/-- `DaemonConfig`, with more of its keys. -/
structure FileConfig extends DaemonConfig where
  streamName : String
  maxEventBytes : UInt64
  /-- Completed-event retention. -/
  dedupTtlDays : UInt64
  /-- Consumer AckWait. -/
  ackWaitSecs : UInt64
  /-- In-progress ack interval. -/
  ackProgressIntervalSecs : UInt64

/-- Multiplication that stops at the largest value. -/
def saturatingMul (a b : UInt64) : UInt64 :=
  if a.toNat * b.toNat < 2 ^ 64 then a * b else 0xffffffffffffffff

theorem toNat_saturatingMul (a b : UInt64) :
    (saturatingMul a b).toNat = min (a.toNat * b.toNat) (2 ^ 64 - 1) := by
  unfold saturatingMul
  split
  · rename_i hlt
    rw [UInt64.toNat_mul, Nat.mod_eq_of_lt hlt]
    omega
  · have hmax : (0xffffffffffffffff : UInt64).toNat = 2 ^ 64 - 1 := rfl
    rw [hmax]
    omega

namespace FileConfig

/-- `DaemonConfig::default`. -/
def default : FileConfig where
  natsUrl := "nats://127.0.0.1:4222"
  natsCreds := none
  streamName := "AGENT_EVENTS"
  maxEventBytes := 256 * 1024
  dedupTtlDays := 14
  ackWaitSecs := 300
  ackProgressIntervalSecs := 90

/-- The largest `i32`. -/
def maxI32 : UInt64 := 0x7fffffff

/-- `DaemonConfig::validate`. -/
def validate (config : FileConfig) : Except AgentdError Unit :=
  if config.dedupTtlDays = 0 then .error (.config "dedup_ttl_days must be > 0")
  else if config.maxEventBytes = 0 then .error (.config "max_event_bytes must be > 0")
  else if config.maxEventBytes > maxI32 then
    .error (.config "max_event_bytes exceeds the JetStream limit (i32::MAX)")
  else if config.ackProgressIntervalSecs ≥ config.ackWaitSecs then
    .error (.config "ack_progress_interval_secs must be < ack_wait_secs")
  else .ok ()

/-- `DaemonConfig::load` of the file at the path, which was read with the given result. -/
def load (fromStr : String → Except String FileConfig) (path : String)
    (readToString : Except String String) : Except AgentdError FileConfig :=
  match readToString with
  | .error e => .error (.config ("cannot read " ++ path ++ ": " ++ e))
  | .ok raw =>
    match fromStr raw with
    | .error e => .error (.config ("invalid config " ++ path ++ ": " ++ e))
    | .ok config =>
      match config.validate with
      | .error e => .error e
      | .ok () => .ok config

/-- `DaemonConfig::dedup_ttl`. -/
def dedupTtl (config : FileConfig) : Duration :=
  .fromSecs (saturatingMul config.dedupTtlDays (24 * 3600))

variable {config : FileConfig}

/-- The retention is the configured number of days, unless the seconds saturate. -/
theorem toNat_asSecs_dedupTtl (config : FileConfig) :
    config.dedupTtl.asSecs.toNat = min (config.dedupTtlDays.toNat * 86400) (2 ^ 64 - 1) := by
  have hday : (24 * 3600 : UInt64).toNat = 86400 := rfl
  rw [dedupTtl, Duration.asSecs_fromSecs, toNat_saturatingMul, hday]

/-- The defaults pass their own check. -/
theorem validate_default : default.validate = .ok () := rfl

/-- A configuration that was loaded passed the check. -/
theorem validate_of_load {fromStr : String → Except String FileConfig} {path : String}
    {readToString : Except String String}
    (h : load fromStr path readToString = .ok config) : config.validate = .ok () := by
  unfold load at h
  split at h
  · cases h
  split at h
  · cases h
  split at h
  · cases h
  · rename_i hvalid
    cases h
    exact hvalid

/-- What the check guarantees. -/
theorem bounds_of_validate (h : config.validate = .ok ()) :
    0 < config.dedupTtlDays.toNat ∧ 0 < config.maxEventBytes.toNat ∧
      config.maxEventBytes.toNat < 2 ^ 31 ∧
      config.ackProgressIntervalSecs < config.ackWaitSecs := by
  unfold validate at h
  split at h
  · cases h
  rename_i hdays
  split at h
  · cases h
  rename_i hbytes
  split at h
  · cases h
  rename_i hmax
  split at h
  · cases h
  rename_i hprogress
  refine ⟨?_, ?_, ?_, UInt64.not_le.mp hprogress⟩
  · exact Nat.pos_of_ne_zero fun hz => hdays (UInt64.toNat_inj.mp hz)
  · exact Nat.pos_of_ne_zero fun hz => hbytes (UInt64.toNat_inj.mp hz)
  · have hle : config.maxEventBytes.toNat ≤ maxI32.toNat :=
      UInt64.le_iff_toNat_le.mp (UInt64.not_lt.mp hmax)
    have hconst : maxI32.toNat = 2 ^ 31 - 1 := rfl
    omega

end FileConfig

/-! ## The stream -/

/-- What the server is told about the stream and the properties below depend on. -/
structure StreamConfig where
  name : String
  subjects : List String
  /-- How long a message is held. -/
  maxAge : Duration
  maxMessageSize : Int32

/-- The stream that `ensure_stream` creates. -/
def ensureStream (config : FileConfig) : StreamConfig where
  name := config.streamName
  subjects := ["agent.events.>"]
  maxAge := .fromSecs (7 * 24 * 3600)
  maxMessageSize := config.maxEventBytes.toUInt32.toInt32

/-- The stream's message size is the configured one, since the check bounds it. -/
theorem toInt_maxMessageSize {config : FileConfig} (h : config.validate = .ok ()) :
    (ensureStream config).maxMessageSize.toInt = config.maxEventBytes.toNat := by
  obtain ⟨-, -, hlt, -⟩ := FileConfig.bounds_of_validate h
  have h32 : config.maxEventBytes.toUInt32.toNat = config.maxEventBytes.toNat := by
    rw [UInt64.toNat_toUInt32, Nat.mod_eq_of_lt (by omega)]
  have hbits : config.maxEventBytes.toUInt32.toBitVec.toNat = config.maxEventBytes.toNat := h32
  change config.maxEventBytes.toUInt32.toBitVec.toInt = _
  rw [BitVec.toInt_eq_toNat_of_lt (by omega), hbits]

end Agentd
