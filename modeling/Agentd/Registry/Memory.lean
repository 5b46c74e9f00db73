import Agentd.Registry.Config

/-!
# The in-memory registry and its operations

A `Registry` is the map the dispatcher resolves agent ids against.  It carries the two facts that
every way of filling it establishes: an entry is stored under the id it declares, and it passed
validation.

The operations are `register`, `update`, `setEnabled`, `unregister` and `reload`, each as the one
atomic change of the map that the mutation mutex makes of it; the outcome of the file-system part
is an argument, and its steps are modelled in `Registry/Persistence`.  `diff` is the list of changes
a reload returns.  The source collects it over an unordered set of ids and then sorts it by id;
here the ids are sorted first, which gives the same list since each id contributes at most one
change.
-/

namespace Agentd

/-- The map from ids to configurations (`RegistryInner::agents`). -/
abbrev AgentMap := Finmap fun _ : AgentId => AgentConfig

/-- The registered agents. -/
structure Registry where
  /-- The entries. -/
  agents : AgentMap
  /-- An entry is stored under the id it declares. -/
  keyed : ∀ id c, agents.lookup id = some c → c.agentId = id
  /-- Every entry passed validation. -/
  valid : ∀ id c, agents.lookup id = some c → c.validate = .ok ()

instance : DecidableEq Registry := fun r r' =>
  decidable_of_iff (r.agents = r'.agents) (by cases r; cases r'; simp)

/-- Validation does not look at the `enabled` flag. -/
@[simp] theorem AgentConfig.validate_enabled (c : AgentConfig) (enabled : Bool) :
    ({ c with enabled } : AgentConfig).validate = c.validate := rfl

namespace Registry

/-- The empty registry. -/
def empty : Registry where
  agents := ∅
  keyed := by intro id c h; simp at h
  valid := by intro id c h; simp at h

/-- `Registry::get`: one agent's configuration by id. -/
def get (r : Registry) (id : AgentId) : Option AgentConfig := r.agents.lookup id

/-- Store a validated configuration under its id. -/
def insert (r : Registry) (c : AgentConfig) (h : c.validate = .ok ()) : Registry where
  agents := r.agents.insert c.agentId c
  keyed := by
    intro id c' hc'
    by_cases hid : id = c.agentId
    · subst hid
      rw [Finmap.lookup_insert] at hc'
      rw [← Option.some_inj.mp hc']
    · rw [Finmap.lookup_insert_of_ne _ hid] at hc'
      exact r.keyed id c' hc'
  valid := by
    intro id c' hc'
    by_cases hid : id = c.agentId
    · subst hid
      rw [Finmap.lookup_insert] at hc'
      rwa [← Option.some_inj.mp hc']
    · rw [Finmap.lookup_insert_of_ne _ hid] at hc'
      exact r.valid id c' hc'

/-- Drop the entry of an id. -/
def erase (r : Registry) (id : AgentId) : Registry where
  agents := r.agents.erase id
  keyed := by
    intro id' c hc
    by_cases hid : id' = id
    · subst hid
      rw [Finmap.lookup_erase] at hc
      cases hc
    · rw [Finmap.lookup_erase_ne hid] at hc
      exact r.keyed id' c hc
  valid := by
    intro id' c hc
    by_cases hid : id' = id
    · subst hid
      rw [Finmap.lookup_erase] at hc
      cases hc
    · rw [Finmap.lookup_erase_ne hid] at hc
      exact r.valid id' c hc

variable {r fresh : Registry} {c : AgentConfig} {id : AgentId}

@[simp] theorem get_empty (id : AgentId) : empty.get id = none := by simp [get, empty]

@[simp] theorem get_insert_self (r : Registry) (c : AgentConfig) (h : c.validate = .ok ()) :
    (r.insert c h).get c.agentId = some c := by
  simp [get, insert]

theorem get_insert_of_ne (h : c.validate = .ok ()) (hid : id ≠ c.agentId) :
    (r.insert c h).get id = r.get id := by
  simp [get, insert, Finmap.lookup_insert_of_ne _ hid]

@[simp] theorem get_erase_self (r : Registry) (id : AgentId) : (r.erase id).get id = none := by
  simp [get, erase]

theorem get_erase_of_ne {id' : AgentId} (hid : id' ≠ id) : (r.erase id).get id' = r.get id' := by
  simp [get, erase, Finmap.lookup_erase_ne hid]

/-- The entry of an id declares that id. -/
theorem agentId_of_get (h : r.get id = some c) : c.agentId = id := r.keyed id c h

/-- A registry is determined by what `get` answers. -/
theorem ext_get {r' : Registry} (h : ∀ id, r.get id = r'.get id) : r = r' := by
  obtain ⟨m, hk, hv⟩ := r
  obtain ⟨m', hk', hv'⟩ := r'
  obtain rfl : m = m' := Finmap.ext_lookup h
  rfl

/-! ## The operations -/

/-- `Registry::register`: validate, check that the id is new, persist, insert. -/
def register (r : Registry) (config : AgentConfig) (persist : Except ConfigError Unit) :
    Except ConfigError Registry :=
  match h : config.validate with
  | .error e => .error e
  | .ok () =>
    if (r.get config.agentId).isSome then .error (.alreadyRegistered config.agentId)
    else match persist with
      | .error e => .error e
      | .ok () => .ok (r.insert config h)

/-- `Registry::update`: validate, check that the id is registered, persist, insert. -/
def update (r : Registry) (config : AgentConfig) (persist : Except ConfigError Unit) :
    Except ConfigError Registry :=
  match h : config.validate with
  | .error e => .error e
  | .ok () =>
    if (r.get config.agentId).isNone then .error (.notRegistered config.agentId)
    else match persist with
      | .error e => .error e
      | .ok () => .ok (r.insert config h)

/-- `Registry::set_enabled`: nothing to do when the flag is as wanted, else persist and insert the
entry with the flag replaced. -/
def setEnabled (r : Registry) (id : AgentId) (enabled : Bool)
    (persist : Except ConfigError Unit) : Except ConfigError Registry :=
  match h : r.get id with
  | none => .error (.notRegistered id)
  | some existing =>
    if existing.enabled == enabled then .ok r
    else match persist with
      | .error e => .error e
      | .ok () => .ok (r.insert { existing with enabled } (r.valid id existing h))

/-- `Registry::unregister`: check that the id is registered, remove its file, erase. -/
def unregister (r : Registry) (id : AgentId) (remove : Except ConfigError Unit) :
    Except ConfigError Registry :=
  if (r.get id).isNone then .error (.notRegistered id)
  else match remove with
    | .error e => .error e
    | .ok () => .ok (r.erase id)

variable {config : AgentConfig} {outcome : Except ConfigError Unit} {r' : Registry}

/-- A successful `register` inserts a valid configuration under a new id. -/
theorem register_eq_ok (h : r.register config outcome = .ok r') :
    r.get config.agentId = none ∧ outcome = .ok () ∧
      ∃ hvalid : config.validate = .ok (), r' = r.insert config hvalid := by
  unfold register at h
  split at h
  · cases h
  rename_i hvalid
  split at h
  · cases h
  rename_i hnew
  split at h
  · cases h
  · cases h
    exact ⟨by simpa using hnew, rfl, hvalid, rfl⟩

/-- A successful `update` replaces the entry of a registered id by a valid configuration. -/
theorem update_eq_ok (h : r.update config outcome = .ok r') :
    (r.get config.agentId).isSome = true ∧ outcome = .ok () ∧
      ∃ hvalid : config.validate = .ok (), r' = r.insert config hvalid := by
  unfold update at h
  split at h
  · cases h
  rename_i hvalid
  split at h
  · cases h
  rename_i hold
  split at h
  · cases h
  · cases h
    exact ⟨Option.isSome_iff_ne_none.mpr (by simpa using hold), rfl, hvalid, rfl⟩

/-- A successful `unregister` erases the entry of a registered id. -/
theorem unregister_eq_ok (h : r.unregister id outcome = .ok r') :
    (r.get id).isSome = true ∧ outcome = .ok () ∧ r' = r.erase id := by
  unfold unregister at h
  split at h
  · cases h
  rename_i hold
  split at h
  · cases h
  · cases h
    exact ⟨Option.isSome_iff_ne_none.mpr (by simpa using hold), rfl, rfl⟩

/-- What a reload reports about one id, given its old and its new entry. -/
def diffEntry (id : AgentId) : Option AgentConfig → Option AgentConfig → Option Change
  | none, some c => some (.added c)
  | some _, none => some (.removed id)
  | some a, some b =>
    if a.enabled != b.enabled then some (if b.enabled then .enabled b else .disabled b)
    else if !a.partialEq b then some (.updated b) else none
  | none, none => none

/-- The changes from `old` to `new`, in the order of the ids. -/
def diff (old new : Registry) : List Change :=
  ((new.agents.keys ∪ old.agents.keys).sort (· ≤ ·)).filterMap fun id =>
    diffEntry id (old.get id) (new.get id)

/-- `Registry::reload`: the map read from the directory, and the diff against the current one. -/
def reload (r : Registry) (load : Except ConfigError Registry) :
    Except ConfigError (Registry × List Change) :=
  match load with
  | .error e => .error e
  | .ok fresh => .ok (fresh, diff r fresh)

/-- `Registry::snapshot`: all entries, in the order of their ids. -/
def snapshot (r : Registry) : List AgentConfig :=
  (r.agents.keys.sort (· ≤ ·)).filterMap r.get

/-- A snapshot has the entries of the registry. -/
theorem mem_snapshot : c ∈ r.snapshot ↔ ∃ id, r.get id = some c := by
  constructor
  · intro h
    obtain ⟨id, -, hget⟩ := List.mem_filterMap.mp h
    exact ⟨id, hget⟩
  · rintro ⟨id, hget⟩
    have hmem : id ∈ r.agents := Finmap.mem_of_lookup_eq_some hget
    have hsort : id ∈ r.agents.keys.sort (· ≤ ·) :=
      (Finset.mem_sort _).mpr (Finmap.mem_keys.mpr hmem)
    exact List.mem_filterMap.mpr ⟨id, hsort, hget⟩

/-! ## The diff of a reload -/

/-- The change reported about an id names that id. -/
theorem agentId_of_diffEntry {old new : Registry} {ch : Change}
    (h : diffEntry id (old.get id) (new.get id) = some ch) : ch.agentId = id := by
  cases hold : old.get id with
  | none =>
    cases hnew : new.get id with
    | none => simp [hold, hnew, diffEntry] at h
    | some b =>
      simp only [hold, hnew, diffEntry, Option.some.injEq] at h
      subst h
      exact agentId_of_get hnew
  | some a =>
    cases hnew : new.get id with
    | none =>
      simp only [hold, hnew, diffEntry, Option.some.injEq] at h
      subst h
      rfl
    | some b =>
      have hb := agentId_of_get hnew
      simp only [hold, hnew, diffEntry] at h
      split at h
      · obtain rfl := Option.some_inj.mp h
        split <;> exact hb
      · split at h
        · obtain rfl := Option.some_inj.mp h
          exact hb
        · cases h

/-- An entry that a reload finds again is reported unless the new one compares equal. -/
theorem diffEntry_eq_none_iff {a b : AgentConfig} :
    diffEntry id (some a) (some b) = none ↔ a.partialEq b = true := by
  constructor
  · intro h
    simp only [diffEntry] at h
    split at h
    · cases h
    · split at h
      · cases h
      · rename_i heq
        simpa using heq
  · intro h
    have hflag := (AgentConfig.eq_of_partialEq h).2
    simp [diffEntry, hflag, h]

/-- An id that neither map has contributes nothing, so the diff ranges over all ids. -/
theorem mem_diff {old new : Registry} {ch : Change} :
    ch ∈ diff old new ↔ ∃ id, diffEntry id (old.get id) (new.get id) = some ch := by
  simp only [diff, List.mem_filterMap, Finset.mem_sort, Finset.mem_union]
  constructor
  · rintro ⟨id, -, h⟩
    exact ⟨id, h⟩
  · rintro ⟨id, h⟩
    refine ⟨id, ?_, h⟩
    by_contra hnot
    push Not at hnot
    have hnew : new.get id = none :=
      Finmap.lookup_eq_none.mpr fun h => hnot.1 (Finmap.mem_keys.mpr h)
    have hold : old.get id = none :=
      Finmap.lookup_eq_none.mpr fun h => hnot.2 (Finmap.mem_keys.mpr h)
    simp [hnew, hold, diffEntry] at h

/-- The change a diff contains for an id, if any, is the one for its two entries. -/
theorem mem_diff_iff {old new : Registry} {ch : Change} :
    ch ∈ diff old new ↔
      diffEntry ch.agentId (old.get ch.agentId) (new.get ch.agentId) = some ch := by
  rw [mem_diff]
  constructor
  · rintro ⟨id, h⟩
    rwa [agentId_of_diffEntry h]
  · exact fun h => ⟨_, h⟩

/-- A diff has at most one change for each id. -/
theorem diff_pairwise (old new : Registry) :
    (diff old new).Pairwise fun a b => a.agentId ≠ b.agentId := by
  unfold diff
  refine List.Pairwise.filterMap _ ?_ (Finset.sort_nodup _ _)
  intro id id' hne ch hch ch' hch'
  rwa [agentId_of_diffEntry hch, agentId_of_diffEntry hch']

end Registry

/-! ## A sample agent -/

namespace Sample

/-- The agent `a`. -/
def agent : AgentId := ⟨"a", by decide⟩

/-- The handler path `/h`, or another one. -/
def handler (swapped : Bool) : PathBuf := ⟨if swapped then [47, 105] else [47, 104]⟩

/-- A configuration of the agent. -/
def config (maxConcurrency : UInt32 := 1) (swapped : Bool := false) (enabled : Bool := true) :
    AgentConfig where
  agentId := agent
  handler := handler swapped
  maxConcurrency := maxConcurrency
  enabled := enabled

/-- The registry with that configuration, if it is valid. -/
def registry (c : AgentConfig) : Registry :=
  if h : c.validate = .ok () then Registry.empty.insert c h else Registry.empty

end Sample

end Agentd
