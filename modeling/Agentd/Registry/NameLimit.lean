import Agentd.Registry.CrashSafety

/-!
# Ids and the length of file names

An id has up to 1023 bytes, and a file system takes names of up to 255 bytes (`nameMax`).  The name
of the temporary file of an agent is longer than its id by the process id and six bytes, so an
accepted id can be too long to be registered.

The registration is followed access by access on a file system where nothing fails but the accesses
with a name that is too long (`Store.Faultless`).  `RegisterStage` says where it can stand, and how
many accesses it is from its return at most; one lemma about one access
(`Store.RegistersAt.advance`) gives both that it returns and what. -/

namespace Agentd

open TransitionSystem TaskPool

variable {T : Toml} {S S' : Store} {t pid n : ℕ} {config : AgentConfig} {dir : Option Directory}
  {memory : Registry} {mutation : Option ℕ} {stage : OpStage} {o : IoOutcome}

/-! ## A file system that only rejects long names -/

/-- The length of the longest file name, in bytes. -/
def nameMax : ℕ := 255

/-- The names that the next access of an operation gives to the file system. -/
def OpStage.names (pid : ℕ) : OpStage → List String
  | .persisting config _ (.create _) => [tempName config.agentId pid]
  | .persisting config _ .rename => [tempName config.agentId pid, fileName config.agentId]
  | .removing id => [fileName id]
  | .loading (name :: _) _ => [name]
  | _ => []

/-- The access fails exactly when it gives the file system a name that is too long. -/
def OpStage.Faultless (pid : ℕ) (stage : OpStage) (o : IoOutcome) : Prop :=
  o.fails = true ↔ ∃ name ∈ stage.names pid, nameMax < name.utf8ByteSize

/-- Only the thread `t` goes on, and nothing fails but the accesses with a name that is too long. -/
def Store.Faultless (t : ℕ) (S : Store) : StoreAction → Prop
  | .advance u o => u = t ∧ ∀ stage ∈ S.threads[u]?, stage.Faultless S.pid o
  | .call _ | .restart .. => False

/-- The operation of the thread `t` returns, and it can only return a success. -/
def Store.Succeeds (T : Toml) (t : ℕ) (S : Store) : Prop :=
  (∃ S' result, (registrySystem T).Run (fun S a => S.Faultless t a) S S' ∧
    S'.threads[t]? = some (.returned result)) ∧
  ∀ S' result, (registrySystem T).Run (fun S a => S.Faultless t a) S S' →
    S'.threads[t]? = some (.returned result) → result.isOk = true

/-- The bytes of the path are the encoding of a text. -/
def PathBuf.IsUtf8 (p : PathBuf) : Prop := ∃ text : String, p.bytes = text.toUTF8.data.toList

/-- The paths of the configuration are UTF-8. -/
def AgentConfig.HasUtf8Paths (c : AgentConfig) : Prop :=
  c.handler.IsUtf8 ∧ ∀ p ∈ c.workingDirectory, p.IsUtf8

/-- The library writes every configuration whose paths are UTF-8. -/
def Toml.Serializes (T : Toml) : Prop :=
  ∀ c : AgentConfig, c.HasUtf8Paths → (T.toStringPretty c).isSome = true

/-! ## The lengths of the names -/

theorem utf8ByteSize_fileName (id : AgentId) :
    (fileName id).utf8ByteSize = id.asStr.utf8ByteSize + 5 := by
  rw [fileName, String.utf8ByteSize_append]
  rfl

theorem utf8ByteSize_tempName (id : AgentId) (pid : ℕ) :
    (tempName id pid).utf8ByteSize = id.asStr.utf8ByteSize + (toString pid).utf8ByteSize + 6 := by
  have hdot : ".".utf8ByteSize = 1 := rfl
  have hsuffix : ".tmp".utf8ByteSize = 4 := rfl
  simp only [tempName, String.utf8ByteSize_append, hdot, hsuffix, AgentId.asStr]
  omega

/-- When the temporary file of an agent has a name that fits, so has its configuration file. -/
theorem fileName_fits_of_tempName {id : AgentId} (h : (tempName id pid).utf8ByteSize ≤ nameMax) :
    (fileName id).utf8ByteSize ≤ nameMax := by
  rw [utf8ByteSize_tempName] at h
  rw [utf8ByteSize_fileName]
  omega

/-! ## The registration -/

/-- Where the registration of an agent that the map does not have can stand, `n` accesses from its
return at most. -/
inductive RegisterStage (config : AgentConfig) (pid : ℕ) (dir : Option Directory)
    (memory : Registry) (mutation : Option ℕ) : ℕ → OpStage → Prop
  | start (hnew : memory.get config.agentId = none) (hfree : mutation = none) :
      RegisterStage config pid dir memory mutation 11 (.start (.register config))
  | locking {valid : (FileOp.register config).validate = .ok ()}
      (hnew : memory.get config.agentId = none) (hfree : mutation = none) :
      RegisterStage config pid dir memory mutation 10 (.locking (.register config) valid)
  | checking {valid : (FileOp.register config).validate = .ok ()}
      (hnew : memory.get config.agentId = none) :
      RegisterStage config pid dir memory mutation 9 (.checking (.register config) valid)
  | createDir {valid : config.validate = .ok ()} :
      RegisterStage config pid dir memory mutation 8 (.persisting config valid .createDir)
  | serialize {valid : config.validate = .ok ()} (hdir : dir.isSome = true) :
      RegisterStage config pid dir memory mutation 7 (.persisting config valid .serialize)
  | create {valid : config.validate = .ok ()} {contents : List UInt8} (hdir : dir.isSome = true) :
      RegisterStage config pid dir memory mutation 6 (.persisting config valid (.create contents))
  | write {valid : config.validate = .ok ()} {contents : List UInt8} (hdir : dir.isSome = true)
      (hfits : (tempName config.agentId pid).utf8ByteSize ≤ nameMax) :
      RegisterStage config pid dir memory mutation 5 (.persisting config valid (.write contents))
  | sync {valid : config.validate = .ok ()}
      (hfile : ∃ files ∈ dir, (files.lookup (tempName config.agentId pid)).isSome = true)
      (hfits : (tempName config.agentId pid).utf8ByteSize ≤ nameMax) :
      RegisterStage config pid dir memory mutation 4 (.persisting config valid .sync)
  | rename {valid : config.validate = .ok ()}
      (hfile : ∃ files ∈ dir, (files.lookup (tempName config.agentId pid)).isSome = true)
      (hfits : (tempName config.agentId pid).utf8ByteSize ≤ nameMax) :
      RegisterStage config pid dir memory mutation 3 (.persisting config valid .rename)
  | inserting {valid : config.validate = .ok ()}
      (hfits : (tempName config.agentId pid).utf8ByteSize ≤ nameMax) :
      RegisterStage config pid dir memory mutation 2 (.inserting config valid)
  | unlocking {result : Except ConfigError (List Change)}
      (hresult : result.isOk = true ↔ (tempName config.agentId pid).utf8ByteSize ≤ nameMax) :
      RegisterStage config pid dir memory mutation 1 (.unlocking result)
  | returned {result : Except ConfigError (List Change)}
      (hresult : result.isOk = true ↔ (tempName config.agentId pid).utf8ByteSize ≤ nameMax) :
      RegisterStage config pid dir memory mutation 0 (.returned result)

namespace RegisterStage

/-- An access that names no file does not fail. -/
theorem fails_eq_false (hfaultless : stage.Faultless pid o) (hnames : stage.names pid = []) :
    o.fails = false := by
  rw [OpStage.Faultless, hnames] at hfaultless
  simpa using hfaultless

/-- An access that writes the file. -/
theorem persist {valid : config.validate = .ok ()} {step : PersistStage}
    (h : RegisterStage config pid dir memory mutation (n + 1) (.persisting config valid step))
    (hserializes : (T.toStringPretty config).isSome = true)
    (hfaultless : (OpStage.persisting config valid step).Faultless pid o) :
    ∃ m ≤ n,
      RegisterStage config pid (persistStep T pid o dir config valid step).1 memory mutation m
        (persistStep T pid o dir config valid step).2 := by
  cases h with
  | createDir =>
    have ho := fails_eq_false hfaultless rfl
    refine ⟨7, le_rfl, ?_⟩
    cases dir with
    | none =>
      simp only [persistStep, ho, Bool.false_eq_true, if_false]
      exact .serialize rfl
    | some files => exact .serialize rfl
  | serialize hdir =>
    obtain ⟨contents, hcontents⟩ := Option.isSome_iff_exists.mp hserializes
    refine ⟨6, le_rfl, ?_⟩
    simp only [persistStep, hcontents]
    exact .create hdir
  | create hdir =>
    -- the only access that gives the file system a name for the first time
    have hfails : o.fails = true ↔ nameMax < (tempName config.agentId pid).utf8ByteSize := by
      simpa [OpStage.Faultless, OpStage.names] using hfaultless
    by_cases hlong : nameMax < (tempName config.agentId pid).utf8ByteSize
    · refine ⟨1, by omega, ?_⟩
      simp only [persistStep, if_pos (hfails.mpr hlong)]
      exact .unlocking (iff_of_false (by simp [Except.isOk, Except.toBool]) (by omega))
    · refine ⟨5, le_rfl, ?_⟩
      simp only [persistStep, if_neg fun hf => hlong (hfails.mp hf)]
      exact .write (by simpa using hdir) (by omega)
  | write hdir hfits =>
    have ho := fails_eq_false hfaultless rfl
    obtain ⟨files, rfl⟩ := Option.isSome_iff_exists.mp hdir
    refine ⟨4, le_rfl, ?_⟩
    simp only [persistStep, ho, Bool.false_eq_true, if_false]
    exact .sync ⟨_, rfl, by simp⟩ hfits
  | sync hfile hfits =>
    have ho := fails_eq_false hfaultless rfl
    refine ⟨3, le_rfl, ?_⟩
    simp only [persistStep, ho, Bool.false_eq_true, if_false]
    exact .rename hfile hfits
  | rename hfile hfits =>
    obtain ⟨files, rfl, hlookup⟩ := hfile
    obtain ⟨contents, hcontents⟩ := Option.isSome_iff_exists.mp hlookup
    have hfile := fileName_fits_of_tempName hfits
    have ho : ¬o.fails = true := by
      intro hfails
      have hlong := hfaultless.mp hfails
      simp only [OpStage.names, List.mem_cons, List.not_mem_nil, or_false, exists_eq_or_imp,
        exists_eq_left] at hlong
      omega
    refine ⟨2, le_rfl, ?_⟩
    simp only [persistStep, Option.bind_some, hcontents, if_neg ho]
    exact .inserting hfits

end RegisterStage

/-- The thread `t` of the store stands so. -/
def Store.RegistersAt (t : ℕ) (config : AgentConfig) (pid n : ℕ) (S : Store) : Prop :=
  S.pid = pid ∧ ∃ stage, S.threads[t]? = some stage ∧
    RegisterStage config pid S.dir S.memory S.mutation n stage

namespace Store.RegistersAt

/-- One access of the registration brings it closer to its return. -/
theorem advance (h : S.RegistersAt t config pid (n + 1)) (hvalid : config.validate = .ok ())
    (hserializes : (T.toStringPretty config).isSome = true)
    (ho : ∀ stage ∈ S.threads[t]?, stage.Faultless S.pid o) :
    ∃ S' m, (registrySystem T).step S (.advance t o) = some S' ∧ m ≤ n ∧
      S'.RegistersAt t config pid m := by
  obtain ⟨rfl, stage, hstage, hat⟩ := h
  have hnext : ∀ {stage' : OpStage}, (S.threads.set t stage')[t]? = some stage' :=
    getElem?_set_self_of_mem hstage
  have hstep : (registrySystem T).step S (.advance t o) = S.advance T t o stage := by
    show S.threads[t]?.bind (S.advance T t o) = _
    rw [hstage, Option.bind_some]
  cases stage with
  | start op =>
    cases hat with
    | start hnew hfree =>
      refine ⟨{ S with threads := S.threads.set t (.locking (.register config) hvalid) }, 10, ?_,
        le_rfl, rfl, _, hnext, .locking hnew hfree⟩
      rw [hstep]
      simp only [Store.advance]
      split
      · rfl
      · rename_i e he
        exact absurd (hvalid.symm.trans he) (by simp)
  | locking op valid =>
    cases hat with
    | locking hnew hfree =>
      refine ⟨{ S with
        mutation := some t
        threads := S.threads.set t (.checking (.register config) valid) }, 9, ?_, le_rfl, rfl, _,
        hnext, .checking hnew⟩
      rw [hstep]
      simp only [Store.advance, if_pos hfree]
  | checking op valid =>
    cases hat with
    | checking hnew =>
      have hcheck : checkStep S.memory (.register config) valid =
          .persisting config valid .createDir := by simp [checkStep, hnew]
      refine ⟨_, 8, hstep, le_rfl, rfl, _, hnext, ?_⟩
      rw [hcheck]
      exact .createDir
  | persisting config' valid step =>
    obtain rfl : config' = config := by cases hat <;> rfl
    obtain ⟨m, hle, hat'⟩ := hat.persist hserializes (ho _ hstage)
    exact ⟨_, m, hstep, hle, rfl, _, hnext, hat'⟩
  | inserting config' valid =>
    cases hat with
    | inserting hfits =>
      exact ⟨_, 1, hstep, le_rfl, rfl, _, hnext, .unlocking (iff_of_true rfl hfits)⟩
  | unlocking result =>
    cases hat with
    | unlocking hresult => exact ⟨_, 0, hstep, le_rfl, rfl, _, hnext, .returned hresult⟩
  | removing | erasing | listing | loading | replacing | returned => cases hat

/-- What a registration that has returned answers. -/
theorem isOk_iff (h : S.RegistersAt t config pid n) {result : Except ConfigError (List Change)}
    (hreturned : S.threads[t]? = some (.returned result)) :
    result.isOk = true ↔ (tempName config.agentId pid).utf8ByteSize ≤ nameMax := by
  obtain ⟨-, stage, hstage, hat⟩ := h
  obtain rfl : stage = .returned result := Option.some_inj.mp (hstage.symm.trans hreturned)
  cases hat with
  | returned hresult => exact hresult

/-- The registration stays on its way in every run. -/
theorem of_run (h : S.RegistersAt t config pid n) (hvalid : config.validate = .ok ())
    (hserializes : (T.toStringPretty config).isSome = true)
    (hrun : (registrySystem T).Run (fun S a => S.Faultless t a) S S') :
    ∃ m, S'.RegistersAt t config pid m := by
  refine hrun.invariant (I := fun S => ∃ m, S.RegistersAt t config pid m) ⟨n, h⟩ ?_
  rintro x a y ⟨m, hx⟩ hok hstep
  cases a with
  | advance u o =>
    obtain ⟨rfl, ho⟩ := hok
    cases m with
    | zero =>
      obtain ⟨-, stage, hstage, hat⟩ := hx
      cases hat with
      | returned hresult =>
        have hbind : x.threads[u]?.bind (x.advance T u o) = some y := hstep
        rw [hstage] at hbind
        cases hbind
    | succ m =>
      obtain ⟨z, k, hz, -, hat⟩ := hx.advance hvalid hserializes ho
      obtain rfl : z = y := Option.some_inj.mp (hz.symm.trans hstep)
      exact ⟨k, hat⟩
  | call | restart => exact hok.elim

/-- The registration returns. -/
theorem exists_returned (h : S.RegistersAt t config pid n) (hvalid : config.validate = .ok ())
    (hserializes : (T.toStringPretty config).isSome = true) :
    ∃ S' result, (registrySystem T).Run (fun S a => S.Faultless t a) S S' ∧
      S'.threads[t]? = some (.returned result) := by
  obtain ⟨S', hrun, -, stage, hstage, hat⟩ :
      ∃ S', (registrySystem T).Run (fun S a => S.Faultless t a) S S' ∧
        S'.RegistersAt t config pid 0 := by
    refine exists_run_of_rank (I := fun n (S : Store) => S.RegistersAt t config pid n) ?_ h
    intro n x hx
    obtain ⟨-, stage, hstage, -⟩ := id hx
    -- the file system answers as it has to
    let o : IoOutcome :=
      { fails := decide (∃ name ∈ stage.names x.pid, nameMax < name.utf8ByteSize) }
    have ho : ∀ stage' ∈ x.threads[t]?, stage'.Faultless x.pid o := by
      intro stage' hstage'
      obtain rfl : stage = stage' := Option.some_inj.mp (hstage.symm.trans hstage')
      exact decide_eq_true_iff
    obtain ⟨y, m, hstep, hle, hy⟩ := hx.advance hvalid hserializes ho
    exact ⟨.advance t o, y, m, ⟨rfl, ho⟩, hstep, hle, hy⟩
  cases hat with
  | @returned result hresult => exact ⟨S', result, hrun, hstage⟩

/-- The registration succeeds exactly when the name of its temporary file fits. -/
theorem succeeds_iff (h : S.RegistersAt t config pid n) (hvalid : config.validate = .ok ())
    (hserializes : (T.toStringPretty config).isSome = true) :
    S.Succeeds T t ↔ (tempName config.agentId pid).utf8ByteSize ≤ nameMax := by
  constructor
  · rintro ⟨⟨S', result, hrun, hreturned⟩, hok⟩
    obtain ⟨m, hS'⟩ := h.of_run hvalid hserializes hrun
    exact (hS'.isOk_iff hreturned).mp (hok S' result hrun hreturned)
  · intro hfits
    refine ⟨h.exists_returned hvalid hserializes, fun S' result hrun hreturned => ?_⟩
    obtain ⟨m, hS'⟩ := h.of_run hvalid hserializes hrun
    exact (hS'.isOk_iff hreturned).mpr hfits

end Store.RegistersAt

/-- A call of `register` that is about to begin, when the map does not have the agent and nobody
holds the mutex. -/
theorem Store.registersAt_start (hstage : S.threads[t]? = some (.start (.register config)))
    (hnew : S.memory.get config.agentId = none) (hfree : S.mutation = none) :
    S.RegistersAt t config S.pid 11 :=
  ⟨rfl, _, hstage, .start hnew hfree⟩

/-- A valid configuration with UTF-8 paths, whose agent the map does not have, is registered on a
file system that rejects nothing but names of more than 255 bytes.  The registration succeeds, and
both names that it uses fit, exactly when the id and the digits of the process id have at most 249
bytes together. -/
theorem register_succeeds_iff (hT : T.Serializes) (hvalid : config.validate = .ok ())
    (hutf8 : config.HasUtf8Paths) (hstage : S.threads[t]? = some (.start (.register config)))
    (hnew : S.memory.get config.agentId = none) (hfree : S.mutation = none) :
    (S.Succeeds T t ∧ (fileName config.agentId).utf8ByteSize ≤ nameMax ∧
        (tempName config.agentId S.pid).utf8ByteSize ≤ nameMax) ↔
      config.agentId.asStr.utf8ByteSize + (toString S.pid).utf8ByteSize ≤ 249 := by
  have hsucceeds :=
    (Store.registersAt_start hstage hnew hfree).succeeds_iff hvalid (hT config hutf8)
  have hlength := utf8ByteSize_tempName config.agentId S.pid
  rw [hsucceeds, hlength, nameMax]
  constructor
  · rintro ⟨h, -, -⟩
    omega
  · intro h
    have hfits : (tempName config.agentId S.pid).utf8ByteSize ≤ nameMax := by
      rw [hlength, nameMax]
      omega
    exact ⟨by omega, fileName_fits_of_tempName hfits, by omega⟩

namespace Sample

/-- A file format that writes something for every configuration, and the file of the sample agent
for its one. -/
def totalToml : Toml where
  toStringPretty c := some (if c = Sample.config then contents else [])
  fromStr bytes := if bytes = contents then .ok Sample.config else .error "TOML parse error"

theorem totalToml_serializes : totalToml.Serializes := fun _ _ => rfl

/-- Four tokens of 62 characters each. -/
def longTokens : List Char := ['_'].intercalate (List.replicate 4 (List.replicate 62 'a'))

theorem check_longTokens : AgentId.check (String.ofList longTokens).toList = .ok () := by
  rw [String.toList_ofList]
  decide +kernel

/-- An id of 251 bytes. -/
def longId : AgentId := ⟨.ofList longTokens, check_longTokens⟩

/-- The sample agent under that id. -/
def longConfig : AgentConfig := { Sample.config with agentId := longId }

/-- The process `1` is about to register an agent. -/
def registering (c : AgentConfig) : Store := ⟨none, .empty, none, [.start (.register c)], 1⟩

theorem hasUtf8Paths_config (id : AgentId) :
    ({ Sample.config with agentId := id } : AgentConfig).HasUtf8Paths := by
  have hhandler : Sample.config.handler.bytes = "/h".toUTF8.data.toList := by decide +kernel
  exact ⟨⟨"/h", hhandler⟩, by simp [Sample.config]⟩

end Sample

theorem register_succeeds_iff_sample :
    (Sample.registering Sample.config).Succeeds Sample.totalToml 0 := by
  have hvalid : Sample.config.validate = .ok () := by decide +kernel
  have hbound : Sample.config.agentId.asStr.utf8ByteSize +
      (toString (Sample.registering Sample.config).pid).utf8ByteSize ≤ 249 := by decide +kernel
  exact ((register_succeeds_iff Sample.totalToml_serializes hvalid
    (Sample.hasUtf8Paths_config Sample.agent) rfl (Registry.get_empty _) rfl).mpr hbound).1

/-- An accepted id of 251 bytes cannot be registered: its configuration file would have a name of
256 bytes. -/
theorem long_id_not_registered :
    ¬∀ (T : Toml) (S : Store) (t : ℕ) (config : AgentConfig), T.Serializes →
      config.validate = .ok () → config.HasUtf8Paths →
      S.threads[t]? = some (.start (.register config)) → S.memory.get config.agentId = none →
      S.mutation = none →
        S.Succeeds T t ∧ (fileName config.agentId).utf8ByteSize ≤ nameMax ∧
          (tempName config.agentId S.pid).utf8ByteSize ≤ nameMax := by
  intro h
  have hvalid : Sample.longConfig.validate = .ok () := by decide +kernel
  obtain ⟨hsucceeds, -, -⟩ := h Sample.totalToml (Sample.registering Sample.longConfig) 0
    Sample.longConfig Sample.totalToml_serializes hvalid (Sample.hasUtf8Paths_config _) rfl
    (Registry.get_empty _) rfl
  have hstart : (Sample.registering Sample.longConfig).RegistersAt 0 Sample.longConfig 1 11 :=
    Store.registersAt_start rfl (Registry.get_empty _) rfl
  have hfits := (hstart.succeeds_iff hvalid rfl).mp hsucceeds
  rw [utf8ByteSize_tempName, nameMax] at hfits
  exact absurd hfits (by decide +kernel)

end Agentd
