import Agentd.AgentId

/-!
# The event envelope

`EventEnvelope.parse` turns the bytes of a message into an envelope in three stages: the JSON text
parser, the derived deserialisation into the envelope's fields, and the hand-written validation.
The text parser is not part of the repository; it is the argument `fromSlice`, a function from
bytes to a `Json` value or an error text.

The derived deserialisation accepts an object, whose unknown keys are skipped and whose known keys
may occur once, and also an array that lists the fields in the order of their declaration.
-/

namespace Agentd

/-- A parsed JSON value.  An object keeps its entries in the order of the text, repetitions
included; a number is an integer when the text parser reads it as one. -/
inductive Json where
  | null
  | bool (b : Bool)
  | integer (n : ℤ)
  | float (text : String)
  | string (s : String)
  | array (items : List Json)
  | object (entries : List (String × Json))

/-- The reasons for which the derived deserialisation rejects a value. -/
inductive DeserializeError where
  | invalidType
  | duplicateField (name : String)
  | missingField (name : String)
  /-- An array ends before the item at this position. -/
  | invalidLength (len : ℕ)
  /-- An array goes on after the last field. -/
  | trailingCharacters
  | agentId (e : AgentIdError)
  deriving DecidableEq, Repr

/-- The reasons for which an envelope is rejected (`AgentdError::InvalidEnvelope`). -/
inductive EnvelopeError where
  /-- `unparseable JSON: {e}`, from the text parser -/
  | invalidJson (message : String)
  /-- `unparseable JSON: {e}`, from the derived deserialisation -/
  | deserialize (e : DeserializeError)
  /-- `unsupported version {} (only {ENVELOPE_VERSION})` -/
  | unsupportedVersion (version : UInt32)
  /-- `missing event_id` -/
  | missingEventId
  deriving DecidableEq, Repr

/-- The only envelope version accepted. -/
def envelopeVersion : UInt32 := 1

/-- A parsed event envelope; `payload` and `metadata` are passed through. -/
structure EventEnvelope where
  version : UInt32
  eventId : String
  agentId : AgentId
  eventType : String
  createdAt : String
  payload : Json
  metadata : Option Json

/-! ## Deserialisation of the fields -/

namespace Json

/-- A `u32` is read from an integer in range, never from a float. -/
def toU32 : Json → Except DeserializeError UInt32
  | .integer n => if 0 ≤ n ∧ n < 2 ^ 32 then .ok (.ofNat n.toNat) else .error .invalidType
  | _ => .error .invalidType

/-- A `String` is read from a string. -/
def toStr : Json → Except DeserializeError String
  | .string s => .ok s
  | _ => .error .invalidType

/-- An agent id is read from a string that passes the id parser. -/
def toAgentId (j : Json) : Except DeserializeError AgentId :=
  match j.toStr with
  | .ok s =>
    match AgentId.parse s with
    | .ok id => .ok id
    | .error e => .error (.agentId e)
  | .error e => .error e

/-- An optional value is absent when the field is `null`. -/
def toOption : Json → Option Json
  | .null => none
  | j => some j

end Json

/-- The fields met so far while an object is read. -/
structure EnvelopeFields where
  version : Option UInt32 := none
  eventId : Option String := none
  agentId : Option AgentId := none
  eventType : Option String := none
  createdAt : Option String := none
  payload : Option Json := none
  metadata : Option (Option Json) := none

namespace EnvelopeFields

/-- Fill the slot of a known key: it must be empty, and the value must decode. -/
def fill {α : Type} (name : String) (slot : Option α) (value : Except DeserializeError α) :
    Except DeserializeError (Option α) :=
  if slot.isSome then .error (.duplicateField name) else value.map some

/-- One entry of the object; unknown keys are skipped. -/
def visit (f : EnvelopeFields) (entry : String × Json) :
    Except DeserializeError EnvelopeFields :=
  let (key, value) := entry
  if key = "version" then
    (fill key f.version value.toU32).map fun v => { f with version := v }
  else if key = "event_id" then
    (fill key f.eventId value.toStr).map fun v => { f with eventId := v }
  else if key = "agent_id" then
    (fill key f.agentId value.toAgentId).map fun v => { f with agentId := v }
  else if key = "type" then
    (fill key f.eventType value.toStr).map fun v => { f with eventType := v }
  else if key = "created_at" then
    (fill key f.createdAt value.toStr).map fun v => { f with createdAt := v }
  else if key = "payload" then
    (fill key f.payload (.ok value)).map fun v => { f with payload := v }
  else if key = "metadata" then
    (fill key f.metadata (.ok value.toOption)).map fun v => { f with metadata := v }
  else .ok f

/-- A field without default must have been met. -/
def require {α : Type} (name : String) : Option α → Except DeserializeError α
  | some v => .ok v
  | none => .error (.missingField name)

/-- The envelope made of the fields met; only `metadata` has a default. -/
def finish (f : EnvelopeFields) : Except DeserializeError EventEnvelope := do
  let version ← require "version" f.version
  let eventId ← require "event_id" f.eventId
  let agentId ← require "agent_id" f.agentId
  let eventType ← require "type" f.eventType
  let createdAt ← require "created_at" f.createdAt
  let payload ← require "payload" f.payload
  return { version, eventId, agentId, eventType, createdAt, payload,
           metadata := f.metadata.getD none }

end EnvelopeFields

namespace EventEnvelope

/-- The field at position `i` of an array. -/
def readItem {α : Type} (items : List Json) (i : ℕ) (read : Json → Except DeserializeError α) :
    Except DeserializeError α :=
  match items[i]? with
  | some item => read item
  | none => .error (.invalidLength i)

/-- The derived deserialisation: an object by keys, an array by position, one item after the
other. -/
def deserialize : Json → Except DeserializeError EventEnvelope
  | .object entries => do
    let fields ← entries.foldlM EnvelopeFields.visit {}
    fields.finish
  | .array items => do
    let version ← readItem items 0 Json.toU32
    let eventId ← readItem items 1 Json.toStr
    let agentId ← readItem items 2 Json.toAgentId
    let eventType ← readItem items 3 Json.toStr
    let createdAt ← readItem items 4 Json.toStr
    let payload ← readItem items 5 .ok
    if items.length > 7 then throw .trailingCharacters
    return { version, eventId, agentId, eventType, createdAt, payload,
             metadata := (items[6]?).bind Json.toOption }
  | _ => .error .invalidType

/-- The characters `str::trim` removes: those with the Unicode property `White_Space`. -/
def isWhiteSpace (c : Char) : Bool :=
  let n := c.toNat
  (9 ≤ n && n ≤ 13) || n == 0x20 || n == 0x85 || n == 0xA0 || n == 0x1680 ||
    (0x2000 ≤ n && n ≤ 0x200A) || n == 0x2028 || n == 0x2029 || n == 0x202F || n == 0x205F ||
    n == 0x3000

/-- `EventEnvelope::validate`: the version is supported and the event id is not blank. -/
def validate (e : EventEnvelope) : Except EnvelopeError Unit :=
  if e.version != envelopeVersion then .error (.unsupportedVersion e.version)
  else if e.eventId.toList.all isWhiteSpace then .error .missingEventId
  else .ok ()

/-- `EventEnvelope::parse`. -/
def parse (fromSlice : List UInt8 → Except String Json) (bytes : List UInt8) :
    Except EnvelopeError EventEnvelope :=
  match fromSlice bytes with
  | .error message => .error (.invalidJson message)
  | .ok json =>
    match deserialize json with
    | .error e => .error (.deserialize e)
    | .ok envelope =>
      match envelope.validate with
      | .error e => .error e
      | .ok () => .ok envelope

/-- An accepted envelope passed validation. -/
theorem validate_of_parse {fromSlice : List UInt8 → Except String Json} {bytes : List UInt8}
    {e : EventEnvelope} (h : parse fromSlice bytes = .ok e) : e.validate = .ok () := by
  unfold parse at h
  split at h
  · cases h
  split at h
  · cases h
  split at h
  · cases h
  · rename_i hv
    cases h
    exact hv

end EventEnvelope

end Agentd
