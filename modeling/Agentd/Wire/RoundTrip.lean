import Agentd.Daemon.Framing
import Agentd.Registry.NameLimit
import Agentd.Wire.Protocol

/-!
# What is written is read

The derived writers and readers of the protocol fit: a request that `agentdctl` can write is read by
the daemon as that request, and a response that the daemon can write is read as that response.  The
only values that cannot be written are those with a path that is not UTF-8; the daemon then answers
with an error.

The proofs go from the values up to the lines: the text of a record is the text of its value
(`serialize_eq`), the derived reader undoes the derived writer on values (`read_toJson`), and a line
is decoded to the text that was written (`decodeLine_encode`).
-/

namespace Agentd

open JsonText Lines

/-! ## The text of a record is the text of its value -/

theorem PathBuf.serialize_eq (p : PathBuf) : p.serialize = p.toJson.map Json.write := by
  rw [serialize, toJson, Option.map_map]
  rfl

theorem AgentConfig.serialize_eq (c : AgentConfig) : c.serialize = c.toJson.map Json.write := by
  have hcwd : (c.workingDirectory.elim (some writeNull) PathBuf.serialize) =
      (c.workingDirectory.elim (some .null) PathBuf.toJson).map Json.write := by
    cases c.workingDirectory with
    | none => rfl
    | some p => exact p.serialize_eq
  rw [serialize, toJson, hcwd, c.handler.serialize_eq]
  cases c.handler.toJson with
  | none => rfl
  | some handler =>
    cases c.workingDirectory.elim (some Json.null) PathBuf.toJson <;> rfl

theorem write_ofCount (n : Option UInt64) : Json.write (.ofCount n) = writeCount n := by
  cases n <;> rfl

theorem AgentStatus.serialize_eq (s : AgentStatus) : s.serialize = s.toJson.map Json.write := by
  rw [serialize, toJson, s.handler.serialize_eq]
  cases s.handler.toJson with
  | none => rfl
  | some handler =>
    simp [Json.write, Json.writeEntries, write_ofCount]

/-- Records that are written one by one. -/
theorem mapM_serialize_eq {α : Type} {serialize : α → Option (List Char)} {toJson : α → Option Json}
    (h : ∀ a, serialize a = (toJson a).map Json.write) (l : List α) :
    l.mapM serialize = (l.mapM toJson).map Json.writeItems := by
  induction l with
  | nil => rfl
  | cons a l ih =>
    rw [List.mapM_cons, List.mapM_cons, h, ih]
    cases toJson a <;> cases l.mapM toJson <;> rfl

theorem StatusReport.serialize_eq (report : StatusReport) :
    report.serialize = report.toJson.map Json.write := by
  rw [serialize, toJson, mapM_serialize_eq AgentStatus.serialize_eq]
  cases report.agents.mapM AgentStatus.toJson <;> rfl

theorem optionalMember_eq {α : Type} {name : String} {serialize : α → Option (List Char)}
    {toJson : α → Option Json} (h : ∀ a, serialize a = (toJson a).map Json.write) (a : Option α) :
    optionalMember name serialize a = (optionalEntry name toJson a).map Json.writeEntries := by
  cases a with
  | none => rfl
  | some a =>
    rw [optionalMember, optionalEntry, h]
    cases toJson a <;> rfl

theorem Json.writeEntries_append (l r : List (String × Json)) :
    writeEntries (l ++ r) = writeEntries l ++ writeEntries r := by
  simp [writeEntries_eq]

theorem Response.serialize_eq (r : Response) : r.serialize = r.toJson.map Json.write := by
  have hagents : ∀ agents : List AgentConfig,
      (agents.mapM AgentConfig.serialize).map writeArray =
        ((agents.mapM AgentConfig.toJson).map Json.array).map Json.write := by
    intro agents
    rw [mapM_serialize_eq AgentConfig.serialize_eq]
    cases agents.mapM AgentConfig.toJson <;> rfl
  have herror : optionalMember "error" (fun e => some (writeString e)) r.error =
      (optionalEntry "error" (fun e => some (.string e)) r.error).map Json.writeEntries :=
    optionalMember_eq (fun e => (rfl : _ = (some (Json.string e)).map Json.write)) r.error
  rw [serialize, toJson, herror, optionalMember_eq hagents,
    optionalMember_eq StatusReport.serialize_eq]
  cases optionalEntry "error" (fun e => some (Json.string e)) r.error with
  | none => rfl
  | some error =>
    cases optionalEntry "agents"
      (fun agents => (agents.mapM AgentConfig.toJson).map Json.array) r.agents with
    | none => rfl
    | some agents =>
      cases optionalEntry "status" StatusReport.toJson r.status with
      | none => rfl
      | some status => simp [Json.write, Json.writeEntries, Json.writeEntries_append]

/-! ## The values are plain -/

open Json (Plain)

variable {depth : ℕ} {j : Json}

theorem PathBuf.plain_toJson {p : PathBuf} (h : p.toJson = some j) : Plain depth j := by
  obtain ⟨s, -, rfl⟩ := Option.map_eq_some_iff.mp h
  exact .string s

theorem plain_ofUInt32 (n : UInt32) : Plain depth (.integer n.toNat) :=
  .count (n.toNat_lt.trans (by decide))

theorem AgentConfig.plain_toJson {c : AgentConfig} (h : c.toJson = some j) :
    Plain (depth + 1) j := by
  simp only [toJson, Option.bind_eq_bind, Option.bind_eq_some_iff] at h
  obtain ⟨handler, hhandler, cwd, hcwd, heq⟩ := h
  cases heq
  have hcwd' : Plain depth cwd := by
    cases hdir : c.workingDirectory with
    | none =>
      rw [hdir] at hcwd
      cases hcwd
      exact .null
    | some p =>
      rw [hdir] at hcwd
      exact PathBuf.plain_toJson hcwd
  refine .object fun entry hentry => ?_
  simp only [List.mem_cons, List.not_mem_nil, or_false] at hentry
  rcases hentry with rfl | rfl | rfl | rfl | rfl
  · exact .string _
  · exact PathBuf.plain_toJson hhandler
  · exact plain_ofUInt32 _
  · exact hcwd'
  · exact .bool _

theorem Request.plain_toJson {r : Request} (h : r.toJson = some j) : Plain (depth + 2) j := by
  have htagged : ∀ {tag name : String} {value : Json}, Plain (depth + 1) value →
      Plain (depth + 2) (.object [("op", .string tag), (name, value)]) := by
    refine fun hvalue => .object fun entry hentry => ?_
    simp only [List.mem_cons, List.not_mem_nil, or_false] at hentry
    rcases hentry with rfl | rfl
    · exact .string _
    · exact hvalue
  have hsingle : ∀ {tag : String}, Plain (depth + 2) (.object [("op", .string tag)]) := by
    refine .object fun entry hentry => ?_
    obtain rfl := List.mem_singleton.mp hentry
    exact .string _
  cases r with
  | register agent | update agent =>
    obtain ⟨value, hvalue, rfl⟩ := Option.map_eq_some_iff.mp h
    exact htagged (AgentConfig.plain_toJson hvalue)
  | unregister agentId =>
    cases h
    exact htagged (.string _)
  | list | reload | status =>
    cases h
    exact hsingle

theorem plain_ofCount (n : Option UInt64) : Plain depth (.ofCount n) := by
  cases n with
  | none => exact .null
  | some n => exact .count n.toNat_lt

theorem AgentStatus.plain_toJson {s : AgentStatus} (hfits : s.inFlight < 2 ^ 64)
    (h : s.toJson = some j) : Plain (depth + 1) j := by
  obtain ⟨handler, hhandler, heq⟩ := Option.bind_eq_some_iff.mp h
  cases heq
  refine .object fun entry hentry => ?_
  simp only [List.mem_cons, List.not_mem_nil, or_false] at hentry
  rcases hentry with rfl | rfl | rfl | rfl | rfl | rfl | rfl
  · exact .string _
  · exact PathBuf.plain_toJson hhandler
  · exact plain_ofUInt32 _
  · exact .bool _
  · exact .count hfits
  · exact plain_ofCount _
  · exact plain_ofCount _

/-- Values of records that are written one by one. -/
theorem mem_of_mapM {α β : Type} {f : α → Option β} {l : List α} {items : List β}
    (h : l.mapM f = some items) : ∀ b ∈ items, ∃ a ∈ l, f a = some b := by
  induction l generalizing items with
  | nil =>
    cases h
    simp
  | cons a l ih =>
    simp only [List.mapM_cons, Option.bind_eq_bind, Option.bind_eq_some_iff] at h
    obtain ⟨b, hb, rest, hrest, heq⟩ := h
    cases heq
    refine List.forall_mem_cons.mpr ⟨⟨a, List.mem_cons_self, hb⟩, fun b' hb' => ?_⟩
    obtain ⟨a', ha', heq⟩ := ih hrest b' hb'
    exact ⟨a', List.mem_cons_of_mem _ ha', heq⟩

/-- The numbers of dispatches in flight are numbers of the machine. -/
def Response.Fits (r : Response) : Prop :=
  ∀ report ∈ r.status, ∀ s ∈ report.agents, s.inFlight < 2 ^ 64

theorem StatusReport.plain_toJson {report : StatusReport}
    (hfits : ∀ s ∈ report.agents, s.inFlight < 2 ^ 64) (h : report.toJson = some j) :
    Plain (depth + 3) j := by
  obtain ⟨agents, hagents, heq⟩ := Option.bind_eq_some_iff.mp h
  cases heq
  refine .object fun entry hentry => ?_
  simp only [List.mem_cons, List.not_mem_nil, or_false] at hentry
  rcases hentry with rfl | rfl | rfl
  · exact .string _
  · exact .bool _
  · refine .array fun item hitem => ?_
    obtain ⟨s, hs, hjson⟩ := mem_of_mapM hagents item hitem
    exact AgentStatus.plain_toJson (hfits s hs) hjson

/-- An entry that may be skipped. -/
theorem plain_of_optionalEntry {α : Type} {name : String} {toJson : α → Option Json} {a : Option α}
    (hvalue : ∀ b ∈ a, ∀ value, toJson b = some value → Plain depth value)
    {entries : List (String × Json)} (h : optionalEntry name toJson a = some entries) :
    ∀ entry ∈ entries, Plain depth entry.2 := by
  cases a with
  | none =>
    cases h
    simp
  | some a =>
    obtain ⟨value, hjson, rfl⟩ := Option.map_eq_some_iff.mp h
    simpa using hvalue a rfl value hjson

theorem Response.plain_toJson {r : Response} (hfits : r.Fits) (h : r.toJson = some j) :
    Plain (depth + 4) j := by
  simp only [toJson, Option.bind_eq_bind, Option.bind_eq_some_iff] at h
  obtain ⟨error, herror, agents, hagents, status, hstatus, heq⟩ := h
  cases heq
  have herror' : ∀ entry ∈ error, Plain (depth + 3) entry.2 :=
    plain_of_optionalEntry (fun e _ value h => Option.some_inj.mp h ▸ .string e) herror
  have hagents' : ∀ entry ∈ agents, Plain (depth + 3) entry.2 := by
    refine plain_of_optionalEntry (fun configs _ value h => ?_) hagents
    obtain ⟨items, hitems, rfl⟩ := Option.map_eq_some_iff.mp h
    refine .array fun item hitem => ?_
    obtain ⟨c, -, hjson⟩ := mem_of_mapM hitems item hitem
    exact AgentConfig.plain_toJson hjson
  have hstatus' : ∀ entry ∈ status, Plain (depth + 3) entry.2 :=
    plain_of_optionalEntry
      (fun report hreport _ => StatusReport.plain_toJson (hfits report hreport)) hstatus
  refine .object fun entry hentry => ?_
  simp only [List.cons_append, List.mem_cons, List.mem_append] at hentry
  rcases hentry with rfl | (hentry | hentry) | hentry
  · exact .bool _
  · exact herror' entry hentry
  · exact hagents' entry hentry
  · exact hstatus' entry hentry

/-! ## The readers undo the writers -/

theorem PathBuf.toPath_toJson {p : PathBuf} (h : p.toJson = some j) : j.toPath = .ok p := by
  obtain ⟨s, hs, rfl⟩ := Option.map_eq_some_iff.mp h
  obtain ⟨hvalid, heq⟩ := Option.dite_none_right_eq_some.mp hs
  obtain rfl := Option.some_inj.mp heq
  rfl

theorem AgentId.toAgentId_asStr (id : AgentId) : (Json.string id.asStr).toAgentId = .ok id := by
  simp [Json.toAgentId, Json.toStr, asStr, parse_raw]

theorem toU32_ofUInt32 (n : UInt32) : (Json.integer n.toNat).toU32 = .ok n := by
  have hrange : 0 ≤ (n.toNat : ℤ) ∧ (n.toNat : ℤ) < 2 ^ 32 :=
    ⟨Int.natCast_nonneg _, by exact_mod_cast n.toNat_lt⟩
  rw [Json.toU32, if_pos hrange, Int.toNat_natCast, UInt32.ofNat_toNat]

theorem toU64_of_lt {n : ℕ} (h : n < 2 ^ 64) : (Json.integer n).toU64 = .ok (.ofNat n) := by
  have hrange : 0 ≤ (n : ℤ) ∧ (n : ℤ) < 2 ^ 64 := ⟨Int.natCast_nonneg _, by exact_mod_cast h⟩
  rw [Json.toU64, if_pos hrange, Int.toNat_natCast]

theorem toOptional_ofCount (n : Option UInt64) :
    (Json.ofCount n).toOptional Json.toU64 = .ok n := by
  cases n with
  | none => rfl
  | some n =>
    change (Json.toU64 (.integer n.toNat)).map some = _
    rw [toU64_of_lt n.toNat_lt, UInt64.ofNat_toNat]
    rfl

theorem AgentConfig.read_toJson {c : AgentConfig} (h : c.toJson = some j) :
    record.read j = .ok c := by
  simp only [toJson, Option.bind_eq_bind, Option.bind_eq_some_iff] at h
  obtain ⟨handler, hhandler, cwd, hcwd, heq⟩ := h
  cases heq
  have hcwd' : cwd.toOptional Json.toPath = .ok c.workingDirectory := by
    cases hdir : c.workingDirectory with
    | none =>
      rw [hdir] at hcwd
      cases hcwd
      rfl
    | some p =>
      rw [hdir] at hcwd
      obtain ⟨s, -, rfl⟩ := Option.map_eq_some_iff.mp hcwd
      exact congrArg (Except.map some) (PathBuf.toPath_toJson hcwd)
  simp [Record.read, Record.visit, record, AgentId.toAgentId_asStr, PathBuf.toPath_toJson hhandler,
    toU32_ofUInt32, hcwd', Json.toBool, required]
  rfl

theorem AgentStatus.read_toJson {s : AgentStatus} (hfits : s.inFlight < 2 ^ 64)
    (h : s.toJson = some j) : record.read j = .ok s := by
  obtain ⟨handler, hhandler, heq⟩ := Option.bind_eq_some_iff.mp h
  cases heq
  have hsame : { s with inFlight := (UInt64.ofNat s.inFlight).toNat } = s := by
    rw [UInt64.toNat_ofNat_of_lt' hfits]
  simp [Record.read, Record.visit, record, AgentId.toAgentId_asStr, PathBuf.toPath_toJson hhandler,
    toU32_ofUInt32, toU64_of_lt hfits, toOptional_ofCount, Json.toBool, required]
  exact congrArg Except.ok hsame

/-- Items that were written one by one are read one by one. -/
theorem toItems_mapM {α : Type} {toJson : α → Option Json} {read : Json → Except WireError α}
    {l : List α} (hread : ∀ a ∈ l, ∀ j, toJson a = some j → read j = .ok a) {items : List Json}
    (h : l.mapM toJson = some items) : (Json.array items).toItems read = .ok l := by
  change items.mapM read = .ok l
  induction l generalizing items with
  | nil =>
    cases h
    rfl
  | cons a l ih =>
    simp only [List.mapM_cons, Option.bind_eq_bind, Option.bind_eq_some_iff] at h
    obtain ⟨j, hj, rest, hrest, heq⟩ := h
    cases heq
    obtain ⟨ha, hl⟩ := List.forall_mem_cons.mp hread
    rw [List.mapM_cons, ha j hj, ih hl hrest]
    rfl

theorem StatusReport.read_toJson {report : StatusReport}
    (hfits : ∀ s ∈ report.agents, s.inFlight < 2 ^ 64) (h : report.toJson = some j) :
    record.read j = .ok report := by
  obtain ⟨agents, hagents, heq⟩ := Option.bind_eq_some_iff.mp h
  cases heq
  have hitems : (Json.array agents).toItems AgentStatus.record.read = .ok report.agents :=
    toItems_mapM (fun s hs j => AgentStatus.read_toJson (hfits s hs)) hagents
  simp [Record.read, Record.visit, record, Json.toStr, Json.toBool, hitems, required]
  rfl

theorem Response.read_toJson {r : Response} (hfits : r.Fits) (h : r.toJson = some j) :
    record.read j = .ok r := by
  obtain ⟨ok, error, agents, status⟩ := r
  simp only [toJson, Option.bind_eq_bind, Option.bind_eq_some_iff] at h
  obtain ⟨error', herror, agents', hagents, status', hstatus, heq⟩ := h
  cases heq
  have herror' : error'.foldlM record.visit { ok := some ok } =
      .ok { ok := some ok, error := error.map some } := by
    cases error with
    | none =>
      cases herror
      rfl
    | some e =>
      cases herror
      simp [Record.visit, record, Json.toOptional, Json.toStr]
      rfl
  have hagents' : agents'.foldlM record.visit { ok := some ok, error := error.map some } =
      .ok { ok := some ok, error := error.map some, agents := agents.map some } := by
    cases agents with
    | none =>
      cases hagents
      rfl
    | some configs =>
      obtain ⟨value, hvalue, rfl⟩ := Option.map_eq_some_iff.mp hagents
      obtain ⟨items, hitems, rfl⟩ := Option.map_eq_some_iff.mp hvalue
      have hread : (Json.array items).toItems AgentConfig.record.read = .ok configs :=
        toItems_mapM (fun _ _ _ => AgentConfig.read_toJson) hitems
      simp [Record.visit, record, Json.toOptional, hread]
      rfl
  have hstatus' : status'.foldlM record.visit
      { ok := some ok, error := error.map some, agents := agents.map some } =
      .ok { ok := some ok, error := error.map some, agents := agents.map some,
            status := status.map some } := by
    cases status with
    | none =>
      cases hstatus
      rfl
    | some report =>
      obtain ⟨value, hvalue, rfl⟩ := Option.map_eq_some_iff.mp hstatus
      have hread : value.toOptional StatusReport.record.read = .ok (some report) := by
        have hreport := StatusReport.read_toJson (hfits report rfl) hvalue
        obtain ⟨items, -, heq⟩ := Option.bind_eq_some_iff.mp hvalue
        cases heq
        exact congrArg (Except.map some) hreport
      simp [Record.visit, record, hread]
      rfl
  have hvisit : record.visit {} ("ok", .bool ok) = .ok { ok := some ok } := by
    simp [Record.visit, record, Json.toBool]
    rfl
  have hfold : (("ok", .bool ok) :: error' ++ agents' ++ status').foldlM record.visit {} =
      .ok { ok := some ok, error := error.map some, agents := agents.map some,
            status := status.map some } := by
    rw [List.cons_append, List.cons_append, List.foldlM_cons, hvisit]
    change (error' ++ agents' ++ status').foldlM record.visit { ok := some ok } = _
    rw [List.foldlM_append, List.foldlM_append, herror']
    change agents'.foldlM record.visit { ok := some ok, error := error.map some } >>= _ = _
    rw [hagents']
    exact hstatus'
  have hget : ∀ {α : Type} (a : Option α), (a.map some).getD none = a := fun a => by
    cases a <;> rfl
  rw [Record.read]
  change List.foldlM record.visit {} (("ok", .bool ok) :: error' ++ agents' ++ status') >>= _ = _
  rw [hfold]
  change Except.ok _ = _
  simp only [hget]

/-! ## Requests -/

theorem payload_read {α : Type} (name : String) {decode : Json → Except WireError α} {a : α}
    (h : decode j = .ok a) : (Request.payload name decode).read (.object [(name, j)]) = .ok a := by
  simp [Record.read, Record.visit, Request.payload, required, h]
  rfl

namespace Request

theorem read_name (tag : RequestTag) : RequestTag.read (.string tag.name) = .ok tag := by
  cases tag <;> rfl

/-- An object with the tag in front. -/
theorem deserialize_tagged (tag : RequestTag) {content : List (String × Json)}
    (h : ∀ entry ∈ content, entry.1 ≠ "op") :
    deserialize (.object (("op", .string tag.name) :: content)) =
      ofContent (.object content) tag := by
  have hcontent : ∀ met,
      content.foldlM splitTag (some tag, met) = .ok (some tag, met ++ content) := by
    induction content with
    | nil => exact fun met => by rw [List.append_nil]; rfl
    | cons entry content ih =>
      intro met
      obtain ⟨hentry, hrest⟩ := List.forall_mem_cons.mp h
      rw [List.foldlM_cons, splitTag, if_neg hentry]
      change content.foldlM splitTag (some tag, met ++ [entry]) = _
      rw [ih hrest, List.append_assoc, List.singleton_append]
  have htag : splitTag (none, []) ("op", .string tag.name) = .ok (some tag, []) := by
    rw [splitTag, if_pos rfl, read_name]
    rfl
  rw [deserialize, List.foldlM_cons, htag]
  change (content.foldlM splitTag (some tag, []) >>= _) = _
  rw [hcontent]
  rfl

theorem deserialize_toJson {r : Request} (h : r.toJson = some j) : deserialize j = .ok r := by
  cases r with
  | register agent =>
    obtain ⟨value, hvalue, rfl⟩ := Option.map_eq_some_iff.mp h
    refine (deserialize_tagged .register (by simp)).trans ?_
    rw [ofContent, payload_read "agent" (AgentConfig.read_toJson hvalue)]
    rfl
  | update agent =>
    obtain ⟨value, hvalue, rfl⟩ := Option.map_eq_some_iff.mp h
    refine (deserialize_tagged .update (by simp)).trans ?_
    rw [ofContent, payload_read "agent" (AgentConfig.read_toJson hvalue)]
    rfl
  | unregister agentId =>
    cases h
    refine (deserialize_tagged .unregister (by simp)).trans ?_
    have hid : ((Json.string agentId.asStr).toAgentId.mapError WireError.value) = .ok agentId := by
      rw [AgentId.toAgentId_asStr]
      rfl
    rw [ofContent, payload_read "agent_id" hid]
    rfl
  | list =>
    cases h
    exact deserialize_tagged .list (by simp)
  | reload =>
    cases h
    exact deserialize_tagged .reload (by simp)
  | status =>
    cases h
    exact deserialize_tagged .status (by simp)

end Request

/-! ## What can be written -/

theorem PathBuf.isSome_toJson (p : PathBuf) : p.toJson.isSome = true ↔ p.IsUtf8 := by
  rw [toJson, Option.isSome_map]
  constructor
  · intro h
    obtain ⟨s, hs⟩ := Option.isSome_iff_exists.mp h
    obtain ⟨hvalid, heq⟩ := Option.dite_none_right_eq_some.mp hs
    obtain rfl := Option.some_inj.mp heq
    exact ⟨String.fromUTF8 _ hvalid, by rw [String.toUTF8_eq_toByteArray]; rfl⟩
  · rintro ⟨s, hs⟩
    have hvalid := s.isValidUTF8
    have hdecode : String.fromUTF8? ⟨s.toUTF8.data.toList.toArray⟩ = some s := dif_pos hvalid
    rw [hs, hdecode]
    rfl

theorem AgentConfig.isSome_toJson (c : AgentConfig) :
    c.toJson.isSome = true ↔ c.HasUtf8Paths := by
  have hcwd : (c.workingDirectory.elim (some Json.null) PathBuf.toJson).isSome = true ↔
      ∀ p ∈ c.workingDirectory, p.IsUtf8 := by
    cases c.workingDirectory with
    | none => simp
    | some p => simpa using p.isSome_toJson
  rw [HasUtf8Paths, ← PathBuf.isSome_toJson, ← hcwd, toJson]
  cases c.handler.toJson with
  | none => simp
  | some handler => cases c.workingDirectory.elim (some Json.null) PathBuf.toJson <;> simp

theorem isSome_mapM {α β : Type} {f : α → Option β} {p : α → Prop}
    (h : ∀ a, (f a).isSome = true ↔ p a) (l : List α) :
    (l.mapM f).isSome = true ↔ ∀ a ∈ l, p a := by
  induction l with
  | nil => simp
  | cons a l ih =>
    rw [List.forall_mem_cons, ← h a, ← ih, List.mapM_cons]
    cases f a with
    | none => simp
    | some b => cases l.mapM f <;> simp

/-- The paths of the agent that a request is about are UTF-8. -/
def Request.HasUtf8Paths : Request → Prop
  | .register agent | .update agent => agent.HasUtf8Paths
  | .unregister _ | .list | .reload | .status => True

/-- The paths in a response are UTF-8. -/
def Response.HasUtf8Paths (r : Response) : Prop :=
  (∀ agents ∈ r.agents, ∀ c ∈ agents, c.HasUtf8Paths) ∧
    ∀ report ∈ r.status, ∀ s ∈ report.agents, s.handler.IsUtf8

/-- The requests that can be written. -/
theorem Request.isSome_serialize (r : Request) : r.serialize.isSome = true ↔ r.HasUtf8Paths := by
  rw [serialize, Option.isSome_map]
  cases r with
  | register agent | update agent =>
    rw [toJson, Option.isSome_map]
    exact agent.isSome_toJson
  | unregister agentId | list | reload | status => simp [toJson, HasUtf8Paths]

/-- The responses that can be written. -/
theorem Response.isSome_serialize (r : Response) : r.serialize.isSome = true ↔ r.HasUtf8Paths := by
  have hstatus : ∀ s : AgentStatus, s.toJson.isSome = true ↔ s.handler.IsUtf8 := by
    intro s
    rw [← PathBuf.isSome_toJson, AgentStatus.toJson]
    cases s.handler.toJson <;> simp
  have hentry : ∀ {α : Type} (name : String) {toJson : α → Option Json} {p : α → Prop},
      (∀ a, (toJson a).isSome = true ↔ p a) → ∀ a : Option α,
        (optionalEntry name toJson a).isSome = true ↔ ∀ b ∈ a, p b := by
    intro α name toJson p h a
    cases a with
    | none => simp [optionalEntry]
    | some a => simpa [optionalEntry] using h a
  have hconfigs : ∀ agents : List AgentConfig,
      ((agents.mapM AgentConfig.toJson).map Json.array).isSome = true ↔
        ∀ c ∈ agents, c.HasUtf8Paths := by
    intro agents
    rw [Option.isSome_map]
    exact isSome_mapM AgentConfig.isSome_toJson agents
  have hreport : ∀ report : StatusReport, report.toJson.isSome = true ↔
      ∀ s ∈ report.agents, s.handler.IsUtf8 := by
    intro report
    rw [← isSome_mapM hstatus report.agents, StatusReport.toJson]
    cases report.agents.mapM AgentStatus.toJson <;> simp
  obtain ⟨error, herror⟩ : ∃ error,
      optionalEntry "error" (fun e => some (Json.string e)) r.error = some error := by
    cases r.error <;> exact ⟨_, rfl⟩
  rw [serialize_eq, Option.isSome_map, HasUtf8Paths, ← hentry "agents" hconfigs,
    ← hentry "status" hreport, toJson, herror]
  cases optionalEntry "agents"
      (fun agents => (agents.mapM AgentConfig.toJson).map Json.array) r.agents with
  | none => simp
  | some agents => cases optionalEntry "status" StatusReport.toJson r.status <;> simp

/-! ## Lines -/

/-- The text parser, and the texts of the errors of the derived readers. -/
structure Wire where
  /-- `serde_json::from_str`, up to the value. -/
  parse : String → Except String Json
  display : WireError → String

namespace Wire

/-- `serde_json::from_str::<Request>`. -/
def readRequest (W : Wire) (line : String) : Except String Request := do
  let j ← W.parse line
  (Request.deserialize j).mapError W.display

/-- `serde_json::from_str::<Response>`. -/
def readResponse (W : Wire) (line : String) : Except String Response := do
  let j ← W.parse line
  (Response.record.read j).mapError W.display

/-- The parser reads the compact text of a plain value, up to the depth to which it nests. -/
def ReadsPlain (W : Wire) : Prop :=
  ∀ j, Plain 127 j → W.parse (String.ofList j.write) = .ok j

/-- The control socket with this parser. -/
def config (W : Wire) (T : ControlConfig) : ControlConfig := { T with fromStr := W.readRequest }

end Wire

/-- A text that does not end in a carriage return is decoded from its line. -/
theorem decodeLine_encode {text : List Char} (h : text.getLast? ≠ some '\r') :
    decodeLine (encode (text ++ ['\n'])) = some (String.ofList text) := by
  have hbytes : (⟨(encode (text ++ ['\n'])).toArray⟩ : ByteArray) =
      (String.ofList (text ++ ['\n'])).toByteArray := by
    rw [String.toByteArray_ofList]
    exact ByteArray.ext List.data_toByteArray.symm
  have hvalid := (String.ofList (text ++ ['\n'])).isValidUTF8
  have hdecode : String.fromUTF8? (String.ofList (text ++ ['\n'])).toByteArray =
      some (String.ofList (text ++ ['\n'])) := dif_pos hvalid
  rw [decodeLine, hbytes, hdecode, Option.map_some, String.toList_ofList, stripEnd,
    List.getLast?_concat, if_pos rfl, List.dropLast_concat, if_neg h]

/-- The text of an object is not blank, and it ends in a brace. -/
theorem object_line {entries : List (String × Json)} :
    (Json.write (.object entries)).getLast? ≠ some '\r' ∧
      isBlank (String.ofList (Json.write (.object entries))) = false := by
  constructor
  · rw [Json.write, writeObject, List.getLast?_concat]
    decide
  · rw [isBlank, String.toList_ofList, Json.write, writeObject]
    rfl

theorem Request.exists_object {r : Request} (h : r.toJson = some j) :
    ∃ entries, j = .object entries := by
  cases r with
  | register agent | update agent =>
    obtain ⟨value, -, rfl⟩ := Option.map_eq_some_iff.mp h
    exact ⟨_, rfl⟩
  | unregister agentId | list | reload | status =>
    cases h
    exact ⟨_, rfl⟩

theorem Response.exists_object {r : Response} (h : r.toJson = some j) :
    ∃ entries, j = .object entries := by
  simp only [toJson, Option.bind_eq_bind, Option.bind_eq_some_iff] at h
  obtain ⟨error, -, agents, -, status, -, heq⟩ := h
  cases heq
  exact ⟨_, rfl⟩

namespace Wire

variable {W : Wire}

/-- What `agentdctl` makes of the line of a response. -/
def readLine (W : Wire) (piece : List UInt8) : Except String Response :=
  match decodeLine piece with
  | some line => (W.readResponse line).mapError fun e => "malformed response: " ++ e
  | none => .error "read failed: stream did not contain valid UTF-8"

theorem readResponse_toJson (hW : W.ReadsPlain) {r : Response} (hfits : r.Fits)
    (h : r.toJson = some j) : W.readResponse (String.ofList j.write) = .ok r := by
  have hplain : Plain 4 j := Response.plain_toJson hfits h
  rw [readResponse, hW j (hplain.mono (by decide))]
  change (Response.record.read j).mapError W.display = _
  rw [Response.read_toJson hfits h]
  rfl

/-- What is written for a response is read as the response, or as an error if the response cannot
be written. -/
theorem readLine_frame (hW : W.ReadsPlain) {r : Response} (hfits : r.Fits) :
    W.readLine r.frame = .ok
      (if r.serialize.isSome then r else .err "response serialization failed") := by
  have hread : ∀ {r : Response} {j : Json}, r.Fits → r.toJson = some j →
      W.readLine (encode (j.write ++ ['\n'])) = .ok r := by
    intro r j hfits h
    obtain ⟨entries, rfl⟩ := Response.exists_object h
    rw [readLine, decodeLine_encode object_line.1]
    exact congrArg (Except.mapError _) (readResponse_toJson hW hfits h)
  rw [Response.frame, Response.text, r.serialize_eq]
  cases h : r.toJson with
  | some j => exact hread hfits h
  | none =>
    have hfailed : serializationFailed = Json.write (.object
        [("ok", .bool false), ("error", .string "response serialization failed")]) := by decide
    rw [Option.map_none, Option.getD_none, hfailed]
    exact hread (r := .err "response serialization failed") (fun _ h => by cases h) rfl

/-- The line of a request is read as that request. -/
theorem onLine_serialize (hW : W.ReadsPlain) (T : ControlConfig) {r : Request} {text : List Char}
    (h : r.serialize = some text) :
    (W.config T).onLine (encode (text ++ ['\n'])) = .received r := by
  obtain ⟨j, hj, rfl⟩ := Option.map_eq_some_iff.mp h
  obtain ⟨entries, rfl⟩ := Request.exists_object hj
  have hread : (W.config T).fromStr (String.ofList (Json.write (.object entries))) = .ok r := by
    have hplain : Plain 2 (.object entries) := Request.plain_toJson hj
    change W.readRequest _ = _
    rw [readRequest, hW _ (hplain.mono (by decide))]
    change (Request.deserialize _).mapError W.display = _
    rw [Request.deserialize_toJson hj]
    rfl
  rw [ControlConfig.onLine, decodeLine_encode object_line.1]
  simp [object_line.2, hread]

end Wire

/-- A request is written on a single line. -/
theorem Request.newline_notMem {r : Request} {text : List Char} (h : r.serialize = some text) :
    newline ∉ encode text := by
  obtain ⟨j, hj, rfl⟩ := Option.map_eq_some_iff.mp h
  have hplain : Plain 2 j := Request.plain_toJson hj
  exact newline_mem_encode.not.mpr (JsonText.newline_notMem hplain.jsonText)

/-- Over any text parser that reads compact texts: a request whose paths are UTF-8 is sent as a
single line, which the daemon reads as that request, and no other request can be sent; and what the
daemon writes for a response is a single line, which `agentdctl` reads as that response, or as an
error if the response has a path that is not UTF-8. -/
theorem protocol_round_trip {W : Wire} (hW : W.ReadsPlain) (T : ControlConfig) :
    (∀ r : Request, (r.serialize.isSome = true ↔ r.HasUtf8Paths) ∧
      ∀ text, r.serialize = some text → newline ∉ encode text ∧
        (W.config T).onLine (encode (text ++ ['\n'])) = .received r) ∧
    ∀ r : Response, r.Fits →
      chop newline r.frame = [r.frame] ∧
      (r.HasUtf8Paths → W.readLine r.frame = .ok r) ∧
      (¬r.HasUtf8Paths →
        W.readLine r.frame = .ok (.err "response serialization failed")) := by
  constructor
  · intro r
    exact ⟨r.isSome_serialize, fun text h => ⟨r.newline_notMem h, W.onLine_serialize hW T h⟩⟩
  · intro r hfits
    have hread := Wire.readLine_frame hW hfits
    refine ⟨?_, fun h => ?_, fun h => ?_⟩
    · simpa using Response.chop_frames [r]
    · rwa [if_pos (r.isSome_serialize.mpr h)] at hread
    · rwa [if_neg (r.isSome_serialize.not.mpr h)] at hread

namespace Sample

/-- The parser that reads compact texts and nothing else. -/
def wire : Wire where
  parse line := (Json.read line.toList).elim (.error "expected value at line 1 column 1") .ok
  display
    | .value _ => "invalid value"
    | .unknownField name => "unknown field " ++ name
    | .unknownVariant name => "unknown variant " ++ name

theorem wire_readsPlain : wire.ReadsPlain := by
  intro j h
  simp [wire, Json.read_write h]

/-- An agent that the daemon is asked to register. -/
def registration : Request := .register config

end Sample

theorem protocol_round_trip_registration :
    ∃ text, Sample.registration.serialize = some text ∧
      (Sample.wire.config Sample.controlConfig).onLine (encode (text ++ ['\n'])) =
        .received Sample.registration := by
  obtain ⟨hrequests, -⟩ := protocol_round_trip Sample.wire_readsPlain Sample.controlConfig
  obtain ⟨text, htext⟩ := Option.isSome_iff_exists.mp
    ((hrequests Sample.registration).1.mpr (Sample.hasUtf8Paths_config Sample.agent))
  exact ⟨text, htext, ((hrequests Sample.registration).2 text htext).2⟩

end Agentd
