import Agentd.Event
import Agentd.Foundation.Pattern

/-!
# The published schema and the parser

`docs/envelope.schema.json` describes the events that may be published, and `EventEnvelope.parse`
decides which are accepted.  The first section says which objects the parser accepts, field by field
(`exists_parse_iff`); the second one gives the schema its meaning; the third one compares them.

They differ on purpose in four places.  The parser does not look at `metadata`; it asks for an
`event_id` that is not blank, for at most sixteen tokens in the `agent_id`, and for a `version` that
is written as an integer.
-/

namespace Agentd

variable {entries : List (String × Json)} {name : String} {value : Json}

/-! ## What the parser accepts -/

namespace EnvelopeFields

variable {f f' : EnvelopeFields}

/-- The fields after one more entry, when it decodes and its slot is empty. -/
def put (f : EnvelopeFields) (entry : String × Json) : EnvelopeFields where
  version := if entry.1 = "version" then entry.2.toU32.toOption else f.version
  eventId := if entry.1 = "event_id" then entry.2.toStr.toOption else f.eventId
  agentId := if entry.1 = "agent_id" then entry.2.toAgentId.toOption else f.agentId
  eventType := if entry.1 = "type" then entry.2.toStr.toOption else f.eventType
  createdAt := if entry.1 = "created_at" then entry.2.toStr.toOption else f.createdAt
  payload := if entry.1 = "payload" then some entry.2 else f.payload
  metadata := if entry.1 = "metadata" then some entry.2.toOption else f.metadata

/-- The value decodes as the field of that name asks for. -/
def Decodes (entry : String × Json) : Prop :=
  (entry.1 = "version" → ∃ v, entry.2.toU32 = .ok v) ∧
  (entry.1 = "event_id" ∨ entry.1 = "type" ∨ entry.1 = "created_at" →
    ∃ s, entry.2.toStr = .ok s) ∧
  (entry.1 = "agent_id" → ∃ id, entry.2.toAgentId = .ok id)

/-- The slot of the name is empty. -/
def Vacant (f : EnvelopeFields) (name : String) : Prop :=
  (name = "version" → f.version = none) ∧ (name = "event_id" → f.eventId = none) ∧
  (name = "agent_id" → f.agentId = none) ∧ (name = "type" → f.eventType = none) ∧
  (name = "created_at" → f.createdAt = none) ∧ (name = "payload" → f.payload = none) ∧
  (name = "metadata" → f.metadata = none)

theorem fill_of_vacant {α : Type} {slot : Option α} {result : Except DeserializeError α}
    (h : slot = none) : fill name slot result = result.map some := by
  simp [fill, h]

/-- An entry that decodes is put into its empty slot. -/
theorem visit_of_vacant {entry : String × Json} (hvacant : f.Vacant entry.1)
    (hdecodes : Decodes entry) : f.visit entry = .ok (f.put entry) := by
  obtain ⟨key, value⟩ := entry
  obtain ⟨hversion, heventId, hagentId, htype, hcreatedAt, hpayload, hmetadata⟩ := hvacant
  obtain ⟨hnumber, hstring, hid⟩ := hdecodes
  simp only [visit]
  split
  · rename_i hkey
    obtain ⟨v, hv⟩ := hnumber hkey
    subst hkey
    simp [fill_of_vacant (hversion rfl), hv, put, Except.map, Except.toOption]
  split
  · rename_i hkey
    obtain ⟨v, hv⟩ := hstring (.inl hkey)
    subst hkey
    simp [fill_of_vacant (heventId rfl), hv, put, Except.map, Except.toOption]
  split
  · rename_i hkey
    obtain ⟨v, hv⟩ := hid hkey
    subst hkey
    simp [fill_of_vacant (hagentId rfl), hv, put, Except.map, Except.toOption]
  split
  · rename_i hkey
    obtain ⟨v, hv⟩ := hstring (.inr (.inl hkey))
    subst hkey
    simp [fill_of_vacant (htype rfl), hv, put, Except.map, Except.toOption]
  split
  · rename_i hkey
    obtain ⟨v, hv⟩ := hstring (.inr (.inr hkey))
    subst hkey
    simp [fill_of_vacant (hcreatedAt rfl), hv, put, Except.map, Except.toOption]
  split
  · rename_i hkey
    subst hkey
    simp [fill_of_vacant (hpayload rfl), put, Except.map]
  split
  · rename_i hkey
    subst hkey
    simp [fill_of_vacant (hmetadata rfl), put, Except.map]
  · simp [put, *]

/-- An entry that is visited without an error decodes. -/
theorem decodes_of_visit {entry : String × Json} (h : f.visit entry = .ok f') :
    Decodes entry := by
  have hfill : ∀ {α : Type} {slot : Option α} {result : Except DeserializeError α}
      {g : Option α → EnvelopeFields}, (fill entry.1 slot result).map g = .ok f' →
      ∃ v, result = .ok v := by
    intro α slot result g hmap
    unfold fill at hmap
    split at hmap
    · cases hmap
    · cases result with
      | error e => cases hmap
      | ok v => exact ⟨v, rfl⟩
  obtain ⟨key, value⟩ := entry
  refine ⟨?_, ?_, ?_⟩
  · rintro (rfl : key = "version")
    exact hfill h
  · rintro ((rfl : key = "event_id") | (rfl : key = "type") | (rfl : key = "created_at"))
    · exact hfill h
    · exact hfill h
    · exact hfill h
  · rintro (rfl : key = "agent_id")
    exact hfill h

/-- Putting an entry leaves the other slots alone. -/
theorem Vacant.put {entry : String × Json} (h : f.Vacant name) (hne : entry.1 ≠ name) :
    (f.put entry).Vacant name := by
  obtain ⟨hversion, heventId, hagentId, htype, hcreatedAt, hpayload, hmetadata⟩ := h
  refine ⟨?_, ?_, ?_, ?_, ?_, ?_, ?_⟩
  · rintro rfl
    simp [EnvelopeFields.put, hne, hversion]
  · rintro rfl
    simp [EnvelopeFields.put, hne, heventId]
  · rintro rfl
    simp [EnvelopeFields.put, hne, hagentId]
  · rintro rfl
    simp [EnvelopeFields.put, hne, htype]
  · rintro rfl
    simp [EnvelopeFields.put, hne, hcreatedAt]
  · rintro rfl
    simp [EnvelopeFields.put, hne, hpayload]
  · rintro rfl
    simp [EnvelopeFields.put, hne, hmetadata]

/-- Entries with different keys that all decode are put into their slots one after the other. -/
theorem foldlM_visit (hkeys : (entries.map Prod.fst).Nodup)
    (hvacant : ∀ entry ∈ entries, f.Vacant entry.1) (hdecodes : ∀ entry ∈ entries, Decodes entry) :
    entries.foldlM visit f = .ok (entries.foldl put f) := by
  induction entries generalizing f with
  | nil => rfl
  | cons entry rest ih =>
    obtain ⟨hfirst, hrest⟩ := List.nodup_cons.mp hkeys
    have hvisit := visit_of_vacant (hvacant entry List.mem_cons_self)
      (hdecodes entry List.mem_cons_self)
    rw [List.foldlM_cons, hvisit, List.foldl_cons]
    apply ih hrest
    · intro entry' hentry'
      apply (hvacant entry' (List.mem_cons_of_mem entry hentry')).put
      intro heq
      exact hfirst (heq ▸ List.mem_map_of_mem hentry')
    · intro entry' hentry'
      exact hdecodes entry' (List.mem_cons_of_mem entry hentry')

/-- Entries that are visited without an error decode. -/
theorem decodes_of_foldlM (h : entries.foldlM visit f = .ok f') :
    ∀ entry ∈ entries, Decodes entry := by
  induction entries generalizing f with
  | nil => simp
  | cons entry rest ih =>
    rw [List.foldlM_cons] at h
    cases hvisit : f.visit entry with
    | error e =>
      rw [hvisit] at h
      cases h
    | ok f₁ =>
      rw [hvisit] at h
      intro entry' hentry'
      rcases List.mem_cons.mp hentry' with rfl | hentry'
      · exact decodes_of_visit hvisit
      · exact ih h entry' hentry'

/-- A slot that is empty at first holds in the end what the entry of its name decodes to. -/
theorem slot_eq_some_iff {α : Type} {get : EnvelopeFields → Option α} {decode : Json → Option α}
    (hput : ∀ f entry, get (put f entry) = if entry.1 = name then decode entry.2 else get f)
    (hkeys : (entries.map Prod.fst).Nodup) (hempty : get f = none) {a : α} :
    get (entries.foldl put f) = some a ↔ ∃ v, (name, v) ∈ entries ∧ decode v = some a := by
  -- a slot without an entry of its name stays as it is
  have hkeep : ∀ (rest : List (String × Json)) (f : EnvelopeFields), name ∉ rest.map Prod.fst →
      get (rest.foldl put f) = get f := by
    intro rest
    induction rest with
    | nil => intro f _; rfl
    | cons entry rest ih =>
      intro f hnot
      rw [List.map_cons, List.mem_cons, not_or] at hnot
      rw [List.foldl_cons, ih _ hnot.2, hput, if_neg (Ne.symm hnot.1)]
  induction entries generalizing f with
  | nil => simp [hempty]
  | cons entry rest ih =>
    obtain ⟨hfirst, hrest⟩ := List.nodup_cons.mp hkeys
    rw [List.foldl_cons]
    by_cases hname : entry.1 = name
    · subst hname
      rw [hkeep rest _ hfirst, hput, if_pos rfl]
      constructor
      · intro hdecode
        exact ⟨entry.2, List.mem_cons_self, hdecode⟩
      · rintro ⟨v, hv, hdecode⟩
        rcases List.mem_cons.mp hv with heq | hv
        · rw [← heq]
          exact hdecode
        · exact absurd (List.mem_map_of_mem hv) hfirst
    · have hempty' : get (put f entry) = none := by rw [hput, if_neg hname, hempty]
      refine (ih hrest hempty').trans (exists_congr fun v => and_congr_left fun _ => ?_)
      rw [List.mem_cons]
      constructor
      · exact .inr
      · rintro (heq | hv)
        · exact absurd (congrArg Prod.fst heq).symm hname
        · exact hv

/-- A required field that was read is in its slot. -/
theorem exists_of_require {α β : Type} {slot : Option α} {g : α → Except DeserializeError β} {b : β}
    (h : (require name slot >>= g) = .ok b) : ∃ a, slot = some a ∧ g a = .ok b := by
  cases slot with
  | none => cases h
  | some a => exact ⟨a, rfl, h⟩

/-- The fields make a valid envelope when all are there, the version is 1 and the event id is not
blank. -/
theorem exists_finish_iff : (∃ e, f.finish = .ok e ∧ e.validate = .ok ()) ↔
    f.version = some 1 ∧
      (∃ s, f.eventId = some s ∧ s.toList.all EventEnvelope.isWhiteSpace = false) ∧
      f.agentId.isSome = true ∧ f.eventType.isSome = true ∧ f.createdAt.isSome = true ∧
      f.payload.isSome = true := by
  constructor
  · rintro ⟨e, hfinish, hvalid⟩
    obtain ⟨version, hversion, hfinish⟩ := exists_of_require hfinish
    obtain ⟨eventId, heventId, hfinish⟩ := exists_of_require hfinish
    obtain ⟨agentId, hagentId, hfinish⟩ := exists_of_require hfinish
    obtain ⟨eventType, htype, hfinish⟩ := exists_of_require hfinish
    obtain ⟨createdAt, hcreatedAt, hfinish⟩ := exists_of_require hfinish
    obtain ⟨payload, hpayload, hfinish⟩ := exists_of_require hfinish
    cases hfinish
    simp only [EventEnvelope.validate] at hvalid
    split at hvalid
    · cases hvalid
    rename_i hone
    split at hvalid
    · cases hvalid
    rename_i hblank
    refine ⟨?_, ⟨eventId, heventId, by simpa using hblank⟩, ?_, ?_, ?_, ?_⟩
    · rw [hversion]
      simpa [envelopeVersion] using hone
    · rw [hagentId]
      rfl
    · rw [htype]
      rfl
    · rw [hcreatedAt]
      rfl
    · rw [hpayload]
      rfl
  · rintro ⟨hversion, ⟨s, heventId, hblank⟩, hagentId, htype, hcreatedAt, hpayload⟩
    obtain ⟨id, hid⟩ := Option.isSome_iff_exists.mp hagentId
    obtain ⟨type, htype⟩ := Option.isSome_iff_exists.mp htype
    obtain ⟨createdAt, hcreatedAt⟩ := Option.isSome_iff_exists.mp hcreatedAt
    obtain ⟨payload, hpayload⟩ := Option.isSome_iff_exists.mp hpayload
    refine ⟨⟨1, s, id, type, createdAt, payload, f.metadata.getD none⟩, ?_, ?_⟩
    · simp only [finish, hversion, heventId, hid, htype, hcreatedAt, hpayload]
      rfl
    · simp [EventEnvelope.validate, envelopeVersion, hblank]

end EnvelopeFields

namespace Json

variable {j : Json}

theorem toU32_eq_one_iff : j.toU32.toOption = some 1 ↔ j = .integer 1 := by
  cases j with
  | integer n =>
    simp only [toU32, integer.injEq]
    split
    · rename_i hn
      simp only [Except.toOption, Option.some.injEq]
      constructor
      · intro h
        have hnat := congrArg UInt32.toNat h
        rw [UInt32.toNat_ofNat'] at hnat
        simp only [UInt32.reduceToNat] at hnat
        omega
      · rintro rfl
        rfl
    · rename_i hn
      simp only [Except.toOption, reduceCtorEq, false_iff]
      omega
  | _ => simp [toU32, Except.toOption]

theorem toStr_eq_ok_iff {s : String} : j.toStr = .ok s ↔ j = .string s := by
  cases j <;> simp [toStr]

/-- An agent id is read from a string that passes the checks of the id parser. -/
theorem exists_toAgentId_iff :
    (∃ id, j.toAgentId = .ok id) ↔ ∃ s, j = .string s ∧ AgentId.check s.toList = .ok () := by
  cases j with
  | string s =>
    simp only [toAgentId, toStr, string.injEq, exists_eq_left']
    cases hparse : AgentId.parse s with
    | ok id =>
      have hraw := AgentId.raw_of_parse hparse
      exact iff_of_true ⟨id, rfl⟩ (hraw ▸ id.valid)
    | error e =>
      refine iff_of_false (by simp) fun hcheck => ?_
      have hok := AgentId.parse_raw ⟨s, hcheck⟩
      rw [show (AgentId.mk s hcheck).raw = s from rfl, hparse] at hok
      cases hok
  | _ => simp [toAgentId, toStr]

end Json

/-- What the parser asks of the entries of an object. -/
structure EventEnvelope.Accepted (entries : List (String × Json)) : Prop where
  version : ("version", .integer 1) ∈ entries
  eventId : ∃ s, ("event_id", .string s) ∈ entries ∧ s.toList.all isWhiteSpace = false
  agentId : ∃ s, ("agent_id", .string s) ∈ entries ∧ AgentId.check s.toList = .ok ()
  eventType : ∃ s, ("type", .string s) ∈ entries
  createdAt : ∃ s, ("created_at", .string s) ∈ entries
  payload : ∃ v, ("payload", v) ∈ entries

/-- The value of a key is the only one. -/
theorem eq_of_mem_of_nodup {v w : Json} (hkeys : (entries.map Prod.fst).Nodup)
    (hv : (name, v) ∈ entries) (hw : (name, w) ∈ entries) : v = w :=
  congrArg Prod.snd (List.inj_on_of_nodup_map hkeys hv hw rfl)

namespace EventEnvelope

open EnvelopeFields

/-- The fields of an object whose entries decode. -/
theorem exists_finish_foldl_iff (hkeys : (entries.map Prod.fst).Nodup) :
    (∃ e, (entries.foldl put {}).finish = .ok e ∧ e.validate = .ok ()) ↔ Accepted entries := by
  have hversion : (entries.foldl put {}).version = some 1 ↔
      ∃ v, ("version", v) ∈ entries ∧ v.toU32.toOption = some 1 :=
    slot_eq_some_iff (fun _ _ => rfl) hkeys rfl
  have heventId : ∀ s, (entries.foldl put {}).eventId = some s ↔
      ∃ v, ("event_id", v) ∈ entries ∧ v.toStr.toOption = some s :=
    fun s => slot_eq_some_iff (fun _ _ => rfl) hkeys rfl
  have hagentId : ∀ id, (entries.foldl put {}).agentId = some id ↔
      ∃ v, ("agent_id", v) ∈ entries ∧ v.toAgentId.toOption = some id :=
    fun id => slot_eq_some_iff (fun _ _ => rfl) hkeys rfl
  have htype : ∀ s, (entries.foldl put {}).eventType = some s ↔
      ∃ v, ("type", v) ∈ entries ∧ v.toStr.toOption = some s :=
    fun s => slot_eq_some_iff (fun _ _ => rfl) hkeys rfl
  have hcreatedAt : ∀ s, (entries.foldl put {}).createdAt = some s ↔
      ∃ v, ("created_at", v) ∈ entries ∧ v.toStr.toOption = some s :=
    fun s => slot_eq_some_iff (fun _ _ => rfl) hkeys rfl
  have hpayload : ∀ p, (entries.foldl put {}).payload = some p ↔
      ∃ v, ("payload", v) ∈ entries ∧ some v = some p :=
    fun p => slot_eq_some_iff (fun _ _ => rfl) hkeys rfl
  have hstr : ∀ (v : Json) (s : String), v.toStr.toOption = some s ↔ v = .string s := by
    intro v s
    rw [← Json.toStr_eq_ok_iff]
    cases v.toStr <;> simp [Except.toOption]
  have hid : ∀ v : Json, (∃ id, v.toAgentId.toOption = some id) ↔
      ∃ s, v = .string s ∧ AgentId.check s.toList = .ok () := by
    intro v
    rw [← Json.exists_toAgentId_iff]
    cases v.toAgentId <;> simp [Except.toOption]
  simp only [Json.toU32_eq_one_iff, exists_eq_right] at hversion
  simp only [hstr, exists_eq_right] at heventId htype hcreatedAt
  rw [exists_finish_iff, hversion]
  simp only [Option.isSome_iff_exists, heventId, hagentId, htype, hcreatedAt, hpayload]
  constructor
  · rintro ⟨hversion, heventId, ⟨id, v, hv, hsome⟩, htype, hcreatedAt, ⟨p, v', hv', -⟩⟩
    obtain ⟨s, rfl, hcheck⟩ := (hid v).mp ⟨id, hsome⟩
    exact ⟨hversion, heventId, ⟨s, hv, hcheck⟩, htype, hcreatedAt, ⟨v', hv'⟩⟩
  · rintro ⟨hversion, heventId, ⟨s, hs, hcheck⟩, htype, hcreatedAt, ⟨v', hv'⟩⟩
    obtain ⟨id, hsome⟩ := (hid (.string s)).mpr ⟨s, rfl, hcheck⟩
    exact ⟨hversion, heventId, ⟨id, _, hs, hsome⟩, htype, hcreatedAt, ⟨v', v', hv', rfl⟩⟩

/-- The entries of an object that the parser accepts decode. -/
theorem Accepted.decodes (h : Accepted entries) (hkeys : (entries.map Prod.fst).Nodup) :
    ∀ entry ∈ entries, Decodes entry := by
  rintro ⟨key, v⟩ hv
  refine ⟨?_, ?_, ?_⟩
  · rintro (rfl : key = "version")
    obtain rfl := eq_of_mem_of_nodup hkeys hv h.version
    exact ⟨1, rfl⟩
  · rintro ((rfl : key = "event_id") | (rfl : key = "type") | (rfl : key = "created_at"))
    · obtain ⟨s, hs, -⟩ := h.eventId
      exact ⟨s, eq_of_mem_of_nodup hkeys hv hs ▸ rfl⟩
    · obtain ⟨s, hs⟩ := h.eventType
      exact ⟨s, eq_of_mem_of_nodup hkeys hv hs ▸ rfl⟩
    · obtain ⟨s, hs⟩ := h.createdAt
      exact ⟨s, eq_of_mem_of_nodup hkeys hv hs ▸ rfl⟩
  · rintro (rfl : key = "agent_id")
    obtain ⟨s, hs, hcheck⟩ := h.agentId
    exact Json.exists_toAgentId_iff.mpr ⟨s, eq_of_mem_of_nodup hkeys hv hs, hcheck⟩

/-- A value is accepted when it deserialises to a valid envelope. -/
theorem exists_parse_iff_deserialize {fromSlice : List UInt8 → Except String Json}
    {bytes : List UInt8} {json : Json} (h : fromSlice bytes = .ok json) :
    (∃ e, parse fromSlice bytes = .ok e) ↔ ∃ e, deserialize json = .ok e ∧ e.validate = .ok () := by
  simp only [parse, h]
  constructor
  · rintro ⟨e, hparse⟩
    split at hparse
    · cases hparse
    rename_i envelope hdeserialize
    split at hparse
    · cases hparse
    rename_i hvalid
    exact ⟨envelope, hdeserialize, hvalid⟩
  · rintro ⟨e, hdeserialize, hvalid⟩
    exact ⟨e, by simp only [hdeserialize, hvalid]⟩

/-- An object with different keys is accepted exactly when its fields are. -/
theorem exists_parse_iff {fromSlice : List UInt8 → Except String Json} {bytes : List UInt8}
    (h : fromSlice bytes = .ok (.object entries)) (hkeys : (entries.map Prod.fst).Nodup) :
    (∃ e, parse fromSlice bytes = .ok e) ↔ Accepted entries := by
  have hvacant : ∀ entry ∈ entries, EnvelopeFields.Vacant {} entry.1 := by
    intro entry _
    exact ⟨fun _ => rfl, fun _ => rfl, fun _ => rfl, fun _ => rfl, fun _ => rfl, fun _ => rfl,
      fun _ => rfl⟩
  have hdeserialize : (∀ entry ∈ entries, Decodes entry) →
      deserialize (.object entries) = (entries.foldl put {}).finish := by
    intro hdecodes
    simp only [deserialize, foldlM_visit hkeys hvacant hdecodes]
    rfl
  rw [exists_parse_iff_deserialize h]
  constructor
  · rintro ⟨e, he, hvalid⟩
    have hdecodes : ∀ entry ∈ entries, Decodes entry := by
      cases hfold : entries.foldlM EnvelopeFields.visit {} with
      | error err =>
        simp only [deserialize, hfold] at he
        cases he
      | ok fields => exact decodes_of_foldlM hfold
    rw [hdeserialize hdecodes] at he
    exact (exists_finish_foldl_iff hkeys).mp ⟨e, he, hvalid⟩
  · intro haccepted
    rw [hdeserialize (haccepted.decodes hkeys)]
    exact (exists_finish_foldl_iff hkeys).mpr haccepted

end EventEnvelope

/-! ## The schema -/

/-- The number that a row of digits denotes. -/
def digitsValue (digits : List Char) : ℕ :=
  digits.foldl (fun n c => 10 * n + (c.toNat - '0'.toNat)) 0

/-- The number that a row of digits with a decimal point denotes. -/
def mantissaValue (cs : List Char) : ℚ :=
  let fraction := (cs.dropWhile (· != '.')).drop 1
  digitsValue (cs.takeWhile (· != '.') ++ fraction) / 10 ^ fraction.length

/-- The number that an exponent denotes. -/
def exponentValue : List Char → ℤ
  | '-' :: digits => -digitsValue digits
  | '+' :: digits => digitsValue digits
  | digits => digitsValue digits

/-- The number that the text of a decimal denotes. -/
def decimalValue (text : List Char) : ℚ :=
  let isMark := fun c => c == 'e' || c == 'E'
  let mantissa := text.takeWhile fun c => !isMark c
  let scale : ℚ := 10 ^ exponentValue ((text.dropWhile fun c => !isMark c).drop 1)
  match mantissa with
  | '-' :: rest => -mantissaValue rest * scale
  | _ => mantissaValue mantissa * scale

/-- The value of a number, which does not depend on how it is written. -/
def Json.number : Json → Option ℚ
  | .integer n => some n
  | .float text => some (decimalValue text.toList)
  | _ => none

/-- The types that the schema asks for. -/
inductive JsonType where
  | object
  | string

/-- The value is of the type. -/
def JsonType.Admits : JsonType → Json → Prop
  | .object, .object _ => True
  | .string, .string _ => True
  | _, _ => False

/-- A keyword of the schema of a field. -/
inductive Keyword where
  | type (t : JsonType)
  | const (n : ℚ)
  | minLength (n : ℕ)
  | maxLength (n : ℕ)
  /-- A pattern with the anchors `^` and `$`. -/
  | pattern (r : RegularExpression Char)

/-- The value meets the keyword.  Length and pattern say something about strings only. -/
def Keyword.Holds (value : Json) : Keyword → Prop
  | .type t => t.Admits value
  | .const n => value.number = some n
  | .minLength n => ∀ s, value = .string s → n ≤ s.toList.length
  | .maxLength n => ∀ s, value = .string s → s.toList.length ≤ n
  | .pattern r => ∀ s, value = .string s → s.toList ∈ r.matches'

/-- A schema with `"type": "object"` and `"additionalProperties": true`. -/
structure ObjectSchema where
  required : List String
  properties : List (String × List Keyword)

/-- The value validates against the schema. -/
def ObjectSchema.Validates (S : ObjectSchema) : Json → Prop
  | .object entries =>
    (∀ name ∈ S.required, ∃ v, (name, v) ∈ entries) ∧
      ∀ p ∈ S.properties, ∀ v, (p.1, v) ∈ entries → ∀ k ∈ p.2, k.Holds v
  | _ => False

/-- The schema with nothing said about the field. -/
def ObjectSchema.without (S : ObjectSchema) (name : String) : ObjectSchema :=
  { S with properties := S.properties.filter fun p => p.1 != name }

open Pattern in
/-- `[a-z0-9][a-z0-9-]{0,62}` -/
def tokenPattern : RegularExpression Char :=
  oneOf (charRange 'a' 'z' ++ charRange '0' '9') *
    atMost 62 (oneOf (charRange 'a' 'z' ++ charRange '0' '9' ++ ['-']))

/-- `^[a-z0-9][a-z0-9-]{0,62}(_[a-z0-9][a-z0-9-]{0,62})*$` -/
def agentIdPattern : RegularExpression Char := Pattern.separated '_' tokenPattern

/-- `docs/envelope.schema.json`. -/
def envelopeSchema : ObjectSchema where
  required := ["version", "event_id", "agent_id", "type", "created_at", "payload"]
  properties :=
    [("version", [.const 1]),
      ("event_id", [.type .string, .minLength 1]),
      ("agent_id", [.type .string, .pattern agentIdPattern, .maxLength 1024]),
      ("type", [.type .string]),
      ("created_at", [.type .string]),
      ("payload", []),
      ("metadata", [.type .object])]

/-! ## The agent id -/

theorem isTokenStart_iff {c : Char} :
    isTokenStart c = true ↔ c ∈ Pattern.charRange 'a' 'z' ++ Pattern.charRange '0' '9' := by
  rw [List.mem_append, Pattern.mem_charRange (by decide), Pattern.mem_charRange (by decide)]
  simp only [isTokenStart, Char.isLower, Char.isDigit, Bool.or_eq_true, Bool.and_eq_true,
    decide_eq_true_eq, ge_iff_le, UInt32.le_iff_toNat_le]
  rfl

theorem isTokenChar_iff {c : Char} : isTokenChar c = true ↔
    c ∈ Pattern.charRange 'a' 'z' ++ Pattern.charRange '0' '9' ++ ['-'] := by
  rw [List.mem_append, ← isTokenStart_iff]
  simp [isTokenChar, isTokenStart]

/-- The characters of a token take one byte each. -/
theorem utf8Size_of_isTokenChar {c : Char} (h : isTokenChar c = true) : c.utf8Size = 1 := by
  rw [Char.utf8Size_eq_one_iff, UInt32.le_iff_toNat_le]
  simp only [isTokenChar, Char.isLower, Char.isDigit, Bool.or_eq_true, Bool.and_eq_true,
    decide_eq_true_eq, ge_iff_le, UInt32.le_iff_toNat_le, beq_iff_eq] at h
  rcases h with (h | h) | rfl
  · exact h.2.trans (by decide)
  · exact h.2.trans (by decide)
  · decide

/-- A token passes when it starts and goes on with allowed characters and is not too long. -/
theorem validateToken_cons_iff {first : Char} {chars : List Char} :
    validateToken (first :: chars) = .ok () ↔
      isTokenStart first = true ∧ chars.length ≤ 62 ∧ ∀ c ∈ chars, isTokenChar c = true := by
  have hsize : (∀ c ∈ chars, isTokenChar c = true) →
      (chars.map Char.utf8Size).sum = chars.length := by
    intro hchars
    rw [List.map_congr_left fun c hc => utf8Size_of_isTokenChar (hchars c hc)]
    simp
  have hone : isTokenStart first = true → first.utf8Size = 1 := by
    intro hstart
    apply utf8Size_of_isTokenChar
    simp only [isTokenStart, Bool.or_eq_true] at hstart
    simp [isTokenChar, hstart]
  constructor
  · intro h
    simp only [validateToken] at h
    split at h
    · cases h
    rename_i hstart
    split at h
    · cases h
    rename_i hlen
    split at h
    · cases h
    rename_i hfind
    have hstart : isTokenStart first = true := by simpa using hstart
    have hchars : ∀ c ∈ chars, isTokenChar c = true := by simpa using hfind
    refine ⟨hstart, ?_, hchars⟩
    rw [hsize hchars, hone hstart, maxTokenLen] at hlen
    omega
  · rintro ⟨hstart, hlen, hchars⟩
    have hfind : chars.find? (fun c => !isTokenChar c) = none := by simpa using hchars
    have hle : ¬first.utf8Size + (chars.map Char.utf8Size).sum > maxTokenLen := by
      rw [hsize hchars, hone hstart, maxTokenLen]
      omega
    simp [validateToken, hstart, hle, hfind]

/-- A token passes exactly when it matches. -/
theorem validateToken_iff {token : List Char} :
    validateToken token = .ok () ↔ token ∈ tokenPattern.matches' := by
  rw [tokenPattern, RegularExpression.matches'_mul, Language.mem_mul]
  constructor
  · intro h
    cases token with
    | nil => cases h
    | cons first chars =>
      obtain ⟨hstart, hlen, hchars⟩ := validateToken_cons_iff.mp h
      refine ⟨[first], Pattern.mem_oneOf.mpr ⟨first, isTokenStart_iff.mp hstart, rfl⟩, chars,
        Pattern.mem_atMost_oneOf.mpr ⟨hlen, ?_⟩, rfl⟩
      intro c hc
      exact isTokenChar_iff.mp (hchars c hc)
  · rintro ⟨a, ha, chars, hchars, rfl⟩
    obtain ⟨first, hfirst, rfl⟩ := Pattern.mem_oneOf.mp ha
    obtain ⟨hlen, hmem⟩ := Pattern.mem_atMost_oneOf.mp hchars
    refine validateToken_cons_iff.mpr ⟨isTokenStart_iff.mpr hfirst, hlen, ?_⟩
    intro c hc
    exact isTokenChar_iff.mpr (hmem c hc)

namespace AgentId

/-- A list of tokens passes when every token does. -/
theorem forM_validateToken {tokens : List (List Char)}
    (h : ∀ token ∈ tokens, validateToken token = .ok ()) :
    tokens.forM validateToken = Except.ok () := by
  induction tokens with
  | nil => rfl
  | cons first rest ih =>
    show (validateToken first >>= fun _ => rest.forM validateToken) = _
    rw [h first List.mem_cons_self]
    exact ih fun token htoken => h token (List.mem_cons_of_mem first htoken)

/-- A text matches the pattern of the schema exactly when all its tokens pass. -/
theorem mem_agentIdPattern_iff {input : List Char} : input ∈ agentIdPattern.matches' ↔
    ∀ token ∈ input.splitOn '_', validateToken token = .ok () := by
  have hsep : ∀ token ∈ tokenPattern.matches', '_' ∉ token := by
    intro token htoken hmem
    have hchar := isTokenChar_of_validateToken (validateToken_iff.mpr htoken) hmem
    exact absurd hchar (by decide)
  rw [agentIdPattern, Pattern.mem_separated hsep]
  simp only [validateToken_iff]

/-- A text passes exactly when it matches the pattern of the schema and has at most sixteen
tokens. -/
theorem check_eq_ok_iff {input : List Char} : check input = .ok () ↔
    input ∈ agentIdPattern.matches' ∧ (input.splitOn '_').length ≤ maxTokens := by
  rw [mem_agentIdPattern_iff]
  constructor
  · intro h
    refine ⟨fun token htoken => validateToken_of_check h htoken, ?_⟩
    simp only [check] at h
    split at h
    · cases h
    · omega
  · rintro ⟨htokens, hlen⟩
    simp only [check]
    rw [if_neg (by omega)]
    exact forM_validateToken htokens

/-- A text that passes has at most 1023 characters. -/
theorem length_le_of_check {input : List Char} (h : check input = .ok ()) :
    input.length ≤ 1023 := by
  have htoken : ∀ n ∈ (input.splitOn '_').map fun token => token.length + 1, n ≤ 64 := by
    intro n hn
    obtain ⟨token, htoken, rfl⟩ := List.mem_map.mp hn
    have hpass := validateToken_of_check h htoken
    cases token with
    | nil => cases hpass
    | cons first chars =>
      have hlen := (validateToken_cons_iff.mp hpass).2.1
      rw [List.length_cons]
      omega
  have hsum := List.sum_le_card_nsmul _ 64 htoken
  rw [Pattern.sum_length_splitOn, List.length_map, smul_eq_mul] at hsum
  have hcount := (check_eq_ok_iff.mp h).2
  rw [maxTokens] at hcount
  omega

end AgentId

/-! ## The two compared -/

/-- The keys of an object are different. -/
def Json.DistinctKeys : Json → Prop
  | .object entries => (entries.map Prod.fst).Nodup
  | _ => True

/-- What the parser asks for beyond the schema. -/
def Json.MeetsGuards : Json → Prop
  | .object entries =>
    (∀ v, ("version", v) ∈ entries → ∃ n, v = .integer n) ∧
      (∀ s, ("event_id", .string s) ∈ entries →
        s.toList.all EventEnvelope.isWhiteSpace = false) ∧
      ∀ s, ("agent_id", .string s) ∈ entries → (s.toList.splitOn '_').length ≤ maxTokens
  | _ => True

/-- The field is there, and its value meets the keywords. -/
def HasField (entries : List (String × Json)) (name : String) (keywords : List Keyword) : Prop :=
  ∃ v, (name, v) ∈ entries ∧ ∀ k ∈ keywords, k.Holds v

/-- A string field is there when a string is. -/
theorem hasField_string_iff {keywords : List Keyword} :
    HasField entries name (.type .string :: keywords) ↔
      ∃ s, (name, .string s) ∈ entries ∧ ∀ k ∈ keywords, k.Holds (.string s) := by
  constructor
  · rintro ⟨v, hv, hkeywords⟩
    have htype : JsonType.string.Admits v := hkeywords _ List.mem_cons_self
    cases v with
    | string s => exact ⟨s, hv, fun k hk => hkeywords k (List.mem_cons_of_mem _ hk)⟩
    | _ => exact htype.elim
  · rintro ⟨s, hs, hkeywords⟩
    refine ⟨_, hs, fun k hk => ?_⟩
    rcases List.mem_cons.mp hk with rfl | hk
    · trivial
    · exact hkeywords k hk

/-- An object validates without regard to its metadata when it has the six fields that are
required. -/
theorem validates_without_metadata_iff (hkeys : (entries.map Prod.fst).Nodup) :
    (envelopeSchema.without "metadata").Validates (.object entries) ↔
      HasField entries "version" [.const 1] ∧
      HasField entries "event_id" [.type .string, .minLength 1] ∧
      HasField entries "agent_id" [.type .string, .pattern agentIdPattern, .maxLength 1024] ∧
      HasField entries "type" [.type .string] ∧ HasField entries "created_at" [.type .string] ∧
      HasField entries "payload" [] := by
  have hfield : ∀ (name : String) (keywords : List Keyword),
      HasField entries name keywords ↔ (∃ v, (name, v) ∈ entries) ∧
        ∀ v, (name, v) ∈ entries → ∀ k ∈ keywords, k.Holds v := by
    intro name keywords
    constructor
    · rintro ⟨v, hv, hholds⟩
      exact ⟨⟨v, hv⟩, fun w hw => eq_of_mem_of_nodup hkeys hv hw ▸ hholds⟩
    · rintro ⟨⟨v, hv⟩, hholds⟩
      exact ⟨v, hv, hholds v hv⟩
  have hproperties : (envelopeSchema.without "metadata").properties =
      [("version", [.const 1]), ("event_id", [.type .string, .minLength 1]),
        ("agent_id", [.type .string, .pattern agentIdPattern, .maxLength 1024]),
        ("type", [.type .string]), ("created_at", [.type .string]), ("payload", [])] := rfl
  have hrequired : (envelopeSchema.without "metadata").required =
      ["version", "event_id", "agent_id", "type", "created_at", "payload"] := rfl
  simp only [ObjectSchema.Validates, hproperties, hrequired, hfield, List.forall_mem_cons]
  constructor
  · rintro ⟨⟨hversion, heventId, hagentId, htype, hcreatedAt, hpayload, -⟩,
      hversion', heventId', hagentId', htype', hcreatedAt', hpayload', -⟩
    exact ⟨⟨hversion, hversion'⟩, ⟨heventId, heventId'⟩, ⟨hagentId, hagentId'⟩, ⟨htype, htype'⟩,
      ⟨hcreatedAt, hcreatedAt'⟩, ⟨hpayload, hpayload'⟩⟩
  · rintro ⟨⟨hversion, hversion'⟩, ⟨heventId, heventId'⟩, ⟨hagentId, hagentId'⟩, ⟨htype, htype'⟩,
      ⟨hcreatedAt, hcreatedAt'⟩, ⟨hpayload, hpayload'⟩⟩
    exact ⟨⟨hversion, heventId, hagentId, htype, hcreatedAt, hpayload, by simp⟩,
      hversion', heventId', hagentId', htype', hcreatedAt', hpayload', by simp⟩

/-- The parser's conditions on an object are those of the schema, without the one on the metadata,
and its own guards. -/
theorem accepted_iff_validates (hkeys : (entries.map Prod.fst).Nodup) :
    EventEnvelope.Accepted entries ↔
      (envelopeSchema.without "metadata").Validates (.object entries) ∧
        (Json.object entries).MeetsGuards := by
  rw [validates_without_metadata_iff hkeys]
  simp only [hasField_string_iff]
  constructor
  · rintro ⟨hversion, ⟨event, hevent, hblank⟩, ⟨agent, hagent, hcheck⟩, ⟨type, htype⟩,
      ⟨createdAt, hcreatedAt⟩, ⟨payload, hpayload⟩⟩
    obtain ⟨hpattern, htokens⟩ := AgentId.check_eq_ok_iff.mp hcheck
    have hlen := AgentId.length_le_of_check hcheck
    refine ⟨⟨⟨_, hversion, ?_⟩, ⟨event, hevent, ?_⟩, ⟨agent, hagent, ?_⟩, ⟨type, htype, by simp⟩,
      ⟨createdAt, hcreatedAt, by simp⟩, ⟨payload, hpayload, by simp⟩⟩, ?_, ?_, ?_⟩
    · simp [Keyword.Holds, Json.number]
    · have hne : event.toList ≠ [] := by
        intro hnil
        rw [hnil] at hblank
        cases hblank
      intro k hk
      obtain rfl := List.mem_singleton.mp hk
      intro s hs
      obtain rfl := Json.string.inj hs
      exact List.length_pos_iff.mpr hne
    · intro k hk
      rcases List.mem_cons.mp hk with rfl | hk
      · intro s hs
        obtain rfl := Json.string.inj hs
        exact hpattern
      · obtain rfl := List.mem_singleton.mp hk
        intro s hs
        obtain rfl := Json.string.inj hs
        omega
    · intro v hv
      exact ⟨1, eq_of_mem_of_nodup hkeys hv hversion⟩
    · intro s hs
      obtain rfl : s = event := Json.string.inj (eq_of_mem_of_nodup hkeys hs hevent)
      exact hblank
    · intro s hs
      obtain rfl : s = agent := Json.string.inj (eq_of_mem_of_nodup hkeys hs hagent)
      exact htokens
  · rintro ⟨⟨⟨v, hv, hone⟩, ⟨event, hevent, -⟩, ⟨agent, hagent, hholds⟩, ⟨type, htype, -⟩,
      ⟨createdAt, hcreatedAt, -⟩, ⟨payload, hpayload, -⟩⟩, hint, hblank, htokens⟩
    refine ⟨?_, ⟨event, hevent, hblank event hevent⟩, ⟨agent, hagent, ?_⟩, ⟨type, htype⟩,
      ⟨createdAt, hcreatedAt⟩, ⟨payload, hpayload⟩⟩
    · obtain ⟨n, rfl⟩ := hint v hv
      have hnumber : (Json.integer n).number = some 1 := hone _ List.mem_cons_self
      obtain rfl : n = 1 := by simpa [Json.number] using hnumber
      exact hv
    · have hpattern : agent.toList ∈ agentIdPattern.matches' :=
        hholds _ List.mem_cons_self agent rfl
      exact AgentId.check_eq_ok_iff.mpr ⟨hpattern, htokens agent hagent⟩

/-- A value other than an array, with different keys if it is an object, is accepted exactly when it
validates against the published schema without the keyword for `metadata`, its `version` is an
integer, its `event_id` is not blank, and its `agent_id` has at most sixteen tokens. -/
theorem exists_parse_iff_validates {fromSlice : List UInt8 → Except String Json}
    {bytes : List UInt8} {json : Json} (h : fromSlice bytes = .ok json)
    (hkeys : json.DistinctKeys) (harray : ∀ items, json ≠ .array items) :
    (∃ e, EventEnvelope.parse fromSlice bytes = .ok e) ↔
      (envelopeSchema.without "metadata").Validates json ∧ json.MeetsGuards := by
  cases json with
  | object entries => rw [EventEnvelope.exists_parse_iff h hkeys, accepted_iff_validates hkeys]
  | array items => exact absurd rfl (harray items)
  | null | bool | integer | float | string =>
    refine iff_of_false ?_ fun hvalidates => hvalidates.1
    rw [EventEnvelope.exists_parse_iff_deserialize h]
    rintro ⟨e, hdeserialize, -⟩
    cases hdeserialize

/-- The other fields, and then the one left out. -/
theorem ObjectSchema.validates_iff_without (S : ObjectSchema) (name : String) :
    S.Validates (.object entries) ↔ (S.without name).Validates (.object entries) ∧
      ∀ p ∈ S.properties, p.1 = name → ∀ v, (p.1, v) ∈ entries → ∀ k ∈ p.2, k.Holds v := by
  simp only [Validates, without, List.mem_filter, bne_iff_ne, and_imp]
  constructor
  · rintro ⟨hrequired, hproperties⟩
    exact ⟨⟨hrequired, fun p hp _ => hproperties p hp⟩, fun p hp _ => hproperties p hp⟩
  · rintro ⟨⟨hrequired, hother⟩, hself⟩
    refine ⟨hrequired, fun p hp => ?_⟩
    by_cases hname : p.1 = name
    · exact hself p hp hname
    · exact hother p hp hname

namespace Sample

/-- The text of an envelope with the given version, event id and agent id, and with more fields. -/
def envelopeText (version event agent more : String) : String :=
  "\x7b\"version\":" ++ version ++ ",\"event_id\":\"" ++ event ++ "\",\"agent_id\":\"" ++ agent ++
    "\",\"type\":\"t\",\"created_at\":\"c\",\"payload\":null" ++ more ++ "\x7d"

/-- The value of that text. -/
def envelopeJson (version : Json) (event agent : String) (more : List (String × Json)) : Json :=
  .object ([("version", version), ("event_id", .string event), ("agent_id", .string agent),
    ("type", .string "t"), ("created_at", .string "c"), ("payload", .null)] ++ more)

/-- The bytes of a text. -/
def bytes (text : String) : List UInt8 := text.toUTF8.data.toList

/-- The text parser, as far as the text is concerned. -/
def reads (text : String) (json : Json) (input : List UInt8) : Except String Json :=
  if input = bytes text then .ok json else .error "expected value"

theorem reads_bytes (text : String) (json : Json) : reads text json (bytes text) = .ok json :=
  if_pos rfl

theorem distinctKeys_envelopeJson (version : Json) (event agent : String) :
    (envelopeJson version event agent []).DistinctKeys := by
  simp [envelopeJson, Json.DistinctKeys]

/-- An envelope without more fields validates when the fields that the schema looks at do. -/
theorem validates_envelopeJson {version : Json} {event agent : String}
    (hversion : version.number = some 1) (hevent : 1 ≤ event.toList.length)
    (hagent : agent.toList ∈ agentIdPattern.matches') (hlen : agent.toList.length ≤ 1024) :
    envelopeSchema.Validates (envelopeJson version event agent []) := by
  have hkeys := distinctKeys_envelopeJson version event agent
  refine (ObjectSchema.validates_iff_without _ "metadata").mpr
    ⟨(validates_without_metadata_iff hkeys).mpr ?_, ?_⟩
  · simp only [hasField_string_iff]
    refine ⟨⟨version, by simp, ?_⟩, ⟨event, by simp, ?_⟩, ⟨agent, by simp, ?_⟩,
      ⟨"t", by simp, by simp⟩, ⟨"c", by simp, by simp⟩, ⟨.null, by simp, by simp⟩⟩
    · simpa [Keyword.Holds] using hversion
    · intro k hk
      obtain rfl := List.mem_singleton.mp hk
      intro s hs
      obtain rfl := Json.string.inj hs
      exact hevent
    · intro k hk
      rcases List.mem_cons.mp hk with rfl | hk
      · intro s hs
        obtain rfl := Json.string.inj hs
        exact hagent
      · obtain rfl := List.mem_singleton.mp hk
        intro s hs
        obtain rfl := Json.string.inj hs
        exact hlen
  · intro p _ hname v hv
    rw [hname] at hv
    simp at hv

/-- What an accepted envelope without more fields has. -/
theorem fields_of_parse {text event agent : String} {version : Json}
    (h : ∃ e, EventEnvelope.parse (reads text (envelopeJson version event agent [])) (bytes text) =
      .ok e) :
    version = .integer 1 ∧ event.toList.all EventEnvelope.isWhiteSpace = false ∧
      AgentId.check agent.toList = .ok () := by
  have hkeys := distinctKeys_envelopeJson version event agent
  have haccepted := (EventEnvelope.exists_parse_iff (reads_bytes _ _) hkeys).mp h
  obtain ⟨e, he, hblank⟩ := haccepted.eventId
  obtain ⟨a, ha, hcheck⟩ := haccepted.agentId
  refine ⟨eq_of_mem_of_nodup hkeys (by simp) haccepted.version, ?_, ?_⟩
  · obtain rfl : event = e := Json.string.inj (eq_of_mem_of_nodup hkeys (by simp) he)
    exact hblank
  · obtain rfl : agent = a := Json.string.inj (eq_of_mem_of_nodup hkeys (by simp) ha)
    exact hcheck

/-- The parser accepts the text of the value exactly when the value validates. -/
def Agrees (text : String) (json : Json) : Prop :=
  (∃ e, EventEnvelope.parse (reads text json) (bytes text) = .ok e) ↔ envelopeSchema.Validates json

/-- Seventeen tokens. -/
def manyTokens : String := "a_a_a_a_a_a_a_a_a_a_a_a_a_a_a_a_a"

end Sample

/-- An envelope with a `metadata` that is no object is accepted. -/
theorem exists_parse_iff_validates_metadata :
    let text := Sample.envelopeText "1" "e" "a" ",\"metadata\":0"
    let json := Sample.envelopeJson (.integer 1) "e" "a" [("metadata", .integer 0)]
    (∃ e, EventEnvelope.parse (Sample.reads text json) (Sample.bytes text) = .ok e) ∧
      (envelopeSchema.without "metadata").Validates json := by
  intro text json
  have hkeys : json.DistinctKeys := by simp [json, Sample.envelopeJson, Json.DistinctKeys]
  have hread := Sample.reads_bytes text json
  have haccepted :
      ∃ e, EventEnvelope.parse (Sample.reads text json) (Sample.bytes text) = .ok e := by
    refine (EventEnvelope.exists_parse_iff hread hkeys).mpr ?_
    exact ⟨by simp, ⟨"e", by simp, by decide⟩, ⟨"a", by simp, by decide⟩, ⟨"t", by simp⟩,
      ⟨"c", by simp⟩, ⟨.null, by simp⟩⟩
  have harray : ∀ items, json ≠ .array items := by simp [json, Sample.envelopeJson]
  exact ⟨haccepted, ((exists_parse_iff_validates hread hkeys harray).mp haccepted).1⟩

/-- The parser accepts a `metadata` that is no object; it rejects a blank `event_id`, an `agent_id`
of seventeen tokens and the `version` 1.0.  The schema has it the other way. -/
theorem parser_differs_from_schema :
    ¬Sample.Agrees (Sample.envelopeText "1" "e" "a" ",\"metadata\":0")
        (Sample.envelopeJson (.integer 1) "e" "a" [("metadata", .integer 0)]) ∧
      ¬Sample.Agrees (Sample.envelopeText "1" " " "a" "")
        (Sample.envelopeJson (.integer 1) " " "a" []) ∧
      ¬Sample.Agrees (Sample.envelopeText "1" "e" Sample.manyTokens "")
        (Sample.envelopeJson (.integer 1) "e" Sample.manyTokens []) ∧
      ¬Sample.Agrees (Sample.envelopeText "1.0" "e" "a" "")
        (Sample.envelopeJson (.float "1.0") "e" "a" []) := by
  have hpattern : "a".toList ∈ agentIdPattern.matches' :=
    AgentId.mem_agentIdPattern_iff.mpr (by decide)
  refine ⟨fun hagrees => ?_, fun hagrees => ?_, fun hagrees => ?_, fun hagrees => ?_⟩
  · have hkeys :
        (Sample.envelopeJson (.integer 1) "e" "a" [("metadata", .integer 0)]).DistinctKeys := by
      simp [Sample.envelopeJson, Json.DistinctKeys]
    have hvalidates := hagrees.mp
      ((EventEnvelope.exists_parse_iff (Sample.reads_bytes _ _) hkeys).mpr
        ⟨by simp, ⟨"e", by simp, by decide⟩, ⟨"a", by simp, by decide⟩, ⟨"t", by simp⟩,
          ⟨"c", by simp⟩, ⟨.null, by simp⟩⟩)
    have hobject : JsonType.object.Admits (.integer 0) :=
      hvalidates.2 ("metadata", [.type .object]) (by simp [envelopeSchema]) (.integer 0) (by simp) _
        List.mem_cons_self
    exact hobject
  · have hparse := hagrees.mpr (Sample.validates_envelopeJson rfl (by decide) hpattern (by decide))
    exact absurd (Sample.fields_of_parse hparse).2.1 (by decide)
  · have hmany : Sample.manyTokens.toList ∈ agentIdPattern.matches' :=
      AgentId.mem_agentIdPattern_iff.mpr (by decide)
    have hparse := hagrees.mpr (Sample.validates_envelopeJson rfl (by decide) hmany (by decide))
    exact absurd (Sample.fields_of_parse hparse).2.2 (by decide)
  · have hone : (Json.float "1.0").number = some 1 := by decide +kernel
    have hparse := hagrees.mpr (Sample.validates_envelopeJson hone (by decide) hpattern (by decide))
    cases (Sample.fields_of_parse hparse).1

end Agentd
