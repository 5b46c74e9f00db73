import Agentd.Registry.Operations

/-!
# The directory and the map agree

Whatever fails, the directory stores the map whenever the mutation mutex is free, and while an
operation holds it the directory stores the map from before or from after the operation.

`Guarded` says for each stage of an operation how the directory and the memory relate to the map
`before` that the operation found: it is kept by every access (`Guarded.criticalStep`), it
implies that a crash loses at most the operation itself (`Guarded.before_or_after`), and at
the end it says that the operation has done everything or nothing.  The mutex makes the accesses of
other threads harmless.
-/

namespace Agentd

open TransitionSystem TaskPool

variable {T : Toml} {op : FileOp} {before memory memory' : Registry}
  {dir dir' : Option Directory} {pid : ℕ} {stage stage' : OpStage} {o : IoOutcome}

/-! ## One operation -/

/-- What the stages of `persist` leave for the later ones: the directory exists, the contents are
those of the configuration, and the temporary file has them. -/
def PersistStage.Ready (T : Toml) (pid : ℕ) (dir : Option Directory) (config : AgentConfig) :
    PersistStage → Prop
  | .createDir => True
  | .serialize => dir.isSome = true
  | .create contents | .write contents =>
    dir.isSome = true ∧ T.toStringPretty config = some contents
  | .sync | .rename => ∃ files contents, dir = some files ∧
      T.toStringPretty config = some contents ∧
      files.lookup (tempName config.agentId pid) = some contents

/-- The directory and the memory while the operation `op`, which found the map `before`, is at the
given stage under the mutex. -/
def Guarded (T : Toml) (pid : ℕ) (op : FileOp) (before : Registry) (dir : Option Directory)
    (memory : Registry) : OpStage → Prop
  | .checking op' _ => op' = op ∧ memory = before ∧ DirRepresents T dir before
  | .persisting config valid stage => memory = before ∧ DirRepresents T dir before ∧
      op.apply before = .ok (before.insert config valid) ∧ stage.Ready T pid dir config
  | .inserting config valid => memory = before ∧
      op.apply before = .ok (before.insert config valid) ∧
      DirRepresents T dir (before.insert config valid)
  | .removing id => memory = before ∧ DirRepresents T dir before ∧
      op.apply before = .ok (before.erase id)
  | .erasing id => memory = before ∧ op.apply before = .ok (before.erase id) ∧
      DirRepresents T dir (before.erase id)
  | .listing => memory = before ∧ DirRepresents T dir before ∧ op = .reload
  | .loading pending agents => memory = before ∧ DirRepresents T dir before ∧ op = .reload ∧
      ∃ files done, dir = some files ∧ Loaded T files done agents ∧
        ∀ name stem, name ∈ files → classify name = .config stem → name ∈ done ∨ name ∈ pending
  | .replacing agents => memory = before ∧ DirRepresents T dir before ∧ op = .reload ∧
      agents = before
  | .unlocking (.ok _) => op.apply before = .ok memory ∧ DirRepresents T dir memory
  | .unlocking (.error _) => memory = before ∧ DirRepresents T dir before
  | .start _ | .locking .. | .returned _ => False

/-- A successful registration inserts the entry. -/
theorem Registry.register_of_none {r : Registry} {config : AgentConfig}
    (hvalid : config.validate = .ok ()) (hnew : r.get config.agentId = none) :
    r.register config (.ok ()) = .ok (r.insert config hvalid) := by
  unfold register
  split
  · rename_i e he
    rw [hvalid] at he
    cases he
  · simp [hnew]

/-- A successful update replaces the entry. -/
theorem Registry.update_of_isSome {r : Registry} {config : AgentConfig}
    (hvalid : config.validate = .ok ()) (hold : (r.get config.agentId).isSome = true) :
    r.update config (.ok ()) = .ok (r.insert config hvalid) := by
  unfold update
  split
  · rename_i e he
    rw [hvalid] at he
    cases he
  · have hne : r.get config.agentId ≠ none := Option.isSome_iff_ne_none.mp hold
    simp [hne]

/-- Setting the flag of an entry to what it is changes nothing. -/
theorem Registry.setEnabled_of_eq {r : Registry} {id : AgentId} {enabled : Bool}
    {existing : AgentConfig} (hget : r.get id = some existing) (heq : existing.enabled = enabled) :
    r.setEnabled id enabled (.ok ()) = .ok r := by
  unfold setEnabled
  split
  · rename_i hnone
    cases hget.symm.trans hnone
  · rename_i existing' hget'
    obtain rfl : existing = existing' := Option.some_inj.mp (hget.symm.trans hget')
    simp [heq]

/-- Setting the flag of an entry to what it is not replaces the entry. -/
theorem Registry.setEnabled_of_ne {r : Registry} {id : AgentId} {enabled : Bool}
    {existing : AgentConfig} (hget : r.get id = some existing)
    (hne : existing.enabled ≠ enabled) :
    r.setEnabled id enabled (.ok ()) =
      .ok (r.insert { existing with enabled } (r.valid id existing hget)) := by
  unfold setEnabled
  split
  · rename_i hnone
    cases hget.symm.trans hnone
  · rename_i existing' hget'
    obtain rfl : existing = existing' := Option.some_inj.mp (hget.symm.trans hget')
    simp [hne]

/-- The check of the map. -/
theorem Guarded.checkStep {valid : op.validate = .ok ()} (hdir : DirRepresents T dir before) :
    Guarded T pid op before dir before (checkStep before op valid) := by
  cases op with
  | register config =>
    simp only [Agentd.checkStep]
    split
    · exact ⟨rfl, hdir⟩
    · rename_i hnew
      have hnone : before.get config.agentId = none := by simpa using hnew
      exact ⟨rfl, hdir, Registry.register_of_none valid hnone, trivial⟩
  | update config =>
    simp only [Agentd.checkStep]
    split
    · exact ⟨rfl, hdir⟩
    · rename_i hold
      have hsome : (before.get config.agentId).isSome = true := by
        rw [Option.isSome_iff_ne_none]
        simpa using hold
      exact ⟨rfl, hdir, Registry.update_of_isSome valid hsome, trivial⟩
  | setEnabled id enabled =>
    simp only [Agentd.checkStep]
    split
    · exact ⟨rfl, hdir⟩
    · rename_i existing hget
      split
      · rename_i heq
        exact ⟨Registry.setEnabled_of_eq hget (beq_iff_eq.mp heq), hdir⟩
      · rename_i hne
        refine ⟨rfl, hdir, Registry.setEnabled_of_ne hget ?_, trivial⟩
        simpa using hne
  | unregister id =>
    simp only [Agentd.checkStep]
    split
    · exact ⟨rfl, hdir⟩
    · rename_i hold
      refine ⟨rfl, hdir, ?_⟩
      have hne : before.get id ≠ none := by simpa using hold
      simp [FileOp.apply, Registry.unregister, hne]
  | reload => exact ⟨rfl, hdir, rfl⟩

/-- A temporary file may be written to a directory. -/
theorem DirRepresents.insert_temp {r : Registry} {files : Directory} {name : String}
    (h : DirRepresents T (some files) r) (hname : classify name = .temp)
    (contents : List UInt8) : DirRepresents T (some (files.insert name contents)) r :=
  Represents.insert_temp h hname contents

/-- The accesses of `persist`. -/
theorem Guarded.persistStep (hT : T.RoundTrips) {config : AgentConfig}
    {valid : config.validate = .ok ()} {stage : PersistStage}
    (hdir : DirRepresents T dir before)
    (happly : op.apply before = .ok (before.insert config valid))
    (hready : stage.Ready T pid dir config) :
    Guarded T pid op before (persistStep T pid o dir config valid stage).1 before
      (persistStep T pid o dir config valid stage).2 := by
  have htemp := classify_tempName config.agentId pid
  cases stage with
  | createDir =>
    cases dir with
    | some files => exact ⟨rfl, hdir, happly, rfl⟩
    | none =>
      simp only [Agentd.persistStep]
      split
      · exact ⟨rfl, hdir⟩
      · -- a directory that did not exist stored no entry
        have hempty : before = .empty := hdir
        refine ⟨rfl, ?_, happly, rfl⟩
        rw [hempty]
        exact Represents.empty T
  | serialize =>
    simp only [Agentd.persistStep]
    split
    · rename_i contents hcontents
      exact ⟨rfl, hdir, happly, hready, hcontents⟩
    · exact ⟨rfl, hdir⟩
  | create contents =>
    obtain ⟨hsome, hcontents⟩ := hready
    obtain ⟨files, rfl⟩ := Option.isSome_iff_exists.mp hsome
    simp only [Agentd.persistStep]
    split
    · exact ⟨rfl, hdir⟩
    · exact ⟨rfl, hdir.insert_temp htemp [], happly, rfl, hcontents⟩
  | write contents =>
    obtain ⟨hsome, hcontents⟩ := hready
    obtain ⟨files, rfl⟩ := Option.isSome_iff_exists.mp hsome
    simp only [Agentd.persistStep]
    split
    · exact ⟨rfl, hdir.insert_temp htemp o.torn⟩
    · refine ⟨rfl, hdir.insert_temp htemp contents, happly, ?_⟩
      exact ⟨_, contents, rfl, hcontents, Finmap.lookup_insert _⟩
  | sync =>
    simp only [Agentd.persistStep]
    split
    · exact ⟨rfl, hdir⟩
    · exact ⟨rfl, hdir, happly, hready⟩
  | rename =>
    obtain ⟨files, contents, rfl, hcontents, hlookup⟩ := hready
    simp only [Agentd.persistStep, Option.bind_some, hlookup]
    split
    · exact ⟨rfl, hdir⟩
    · exact ⟨rfl, happly, Represents.rename hdir htemp (hT config contents hcontents) valid⟩

/-- Sweeping a temporary file leaves what was loaded as it is. -/
theorem Loaded.erase_temp {files : Directory} {done : List String} {acc : Registry} {name : String}
    (h : Loaded T files done acc) (hname : classify name = .temp) :
    Loaded T (files.erase name) done acc := by
  refine ⟨fun id c hget => ?_, h.only⟩
  obtain ⟨contents, hlookup, hparse⟩ := h.stored id c hget
  refine ⟨contents, ?_, hparse⟩
  rw [Finmap.lookup_erase_ne, hlookup]
  rintro rfl
  simp at hname

/-- The accesses of a load. -/
theorem Guarded.loadStep {pending : List String} {agents : Registry} {name : String}
    (hguard : Guarded T pid op before dir memory (.loading (name :: pending) agents))
    (hstep : criticalStep T pid o dir memory (.loading (name :: pending) agents) =
      some (dir', memory', stage')) : Guarded T pid op before dir' memory' stage' := by
  obtain ⟨rfl, hdir, rfl, files, done, rfl, hloaded, hall⟩ := hguard
  simp only [Agentd.criticalStep] at hstep
  split at hstep
  · rename_i htemp
    have hall' : ∀ name' stem, name' ∈ files → classify name' = .config stem →
        name' ∈ done ∨ name' ∈ pending := by
      intro name' stem hname' hkind
      refine (hall name' stem hname' hkind).imp_right fun hmem => ?_
      refine (List.mem_cons.mp hmem).resolve_left ?_
      rintro rfl
      rw [htemp] at hkind
      cases hkind
    cases hfails : o.fails with
    | true =>
      simp only [hfails, if_true] at hstep
      cases hstep
      exact ⟨rfl, hdir, rfl, files, done, rfl, hloaded, hall'⟩
    | false =>
      simp only [hfails, Bool.false_eq_true, if_false] at hstep
      cases hstep
      refine ⟨rfl, Represents.erase_temp hdir htemp, rfl, _, done, rfl,
        hloaded.erase_temp htemp, ?_⟩
      intro name' stem hname' hkind
      exact hall' name' stem (Finmap.mem_erase.mp hname').2 hkind
  · split at hstep
    · cases hstep
      exact ⟨rfl, hdir⟩
    · split at hstep
      · rename_i agents' hload
        cases hstep
        refine ⟨rfl, hdir, rfl, files, name :: done, rfl, hloaded.cons hload, ?_⟩
        intro name' stem hname' hkind
        rcases hall name' stem hname' hkind with hdone | hpending
        · exact .inl (List.mem_cons_of_mem _ hdone)
        · rcases List.mem_cons.mp hpending with rfl | hpending
          · exact .inl List.mem_cons_self
          · exact .inr hpending
      · cases hstep
        exact ⟨rfl, hdir⟩

/-- Every access under the mutex keeps the directory and the memory in line with the stage. -/
theorem Guarded.criticalStep (hT : T.RoundTrips) (hguard : Guarded T pid op before dir memory stage)
    (hstep : criticalStep T pid o dir memory stage = some (dir', memory', stage')) :
    Guarded T pid op before dir' memory' stage' := by
  cases stage with
  | checking op' valid =>
    obtain ⟨rfl, rfl, hdir⟩ := hguard
    cases hstep
    exact Guarded.checkStep hdir
  | persisting config valid stage =>
    obtain ⟨rfl, hdir, happly, hready⟩ := hguard
    cases hstep
    exact Guarded.persistStep hT hdir happly hready
  | inserting config valid =>
    obtain ⟨rfl, happly, hdir⟩ := hguard
    cases hstep
    exact ⟨happly, hdir⟩
  | removing id =>
    obtain ⟨rfl, hdir, happly⟩ := hguard
    simp only [Agentd.criticalStep] at hstep
    split at hstep
    · cases hstep
      exact ⟨rfl, hdir⟩
    · rename_i hpresent
      cases hstep
      refine ⟨rfl, happly, ?_⟩
      cases dir with
      | none =>
        have habsent : fileName id ∉ (∅ : Directory) := Finmap.notMem_empty
        exact absurd (.inr habsent) hpresent
      | some files => exact Represents.remove hdir id
  | erasing id =>
    obtain ⟨rfl, happly, hdir⟩ := hguard
    cases hstep
    exact ⟨happly, hdir⟩
  | listing =>
    obtain ⟨rfl, hdir, rfl⟩ := hguard
    simp only [Agentd.criticalStep] at hstep
    split at hstep
    · cases hstep
      exact ⟨rfl, hdir, rfl, Eq.symm hdir⟩
    · rename_i files
      split at hstep
      · cases hstep
        exact ⟨rfl, hdir⟩
      · split at hstep
        · rename_i hlists
          cases hstep
          refine ⟨rfl, hdir, rfl, files, [], rfl, .nil T files, ?_⟩
          intro name stem hname _
          exact .inr (hlists.mem_iff.mpr hname)
        · cases hstep
  | loading pending agents =>
    cases pending with
    | nil =>
      obtain ⟨rfl, hdir, rfl, files, done, rfl, hloaded, hall⟩ := hguard
      cases hstep
      have hrepresents : Represents T files agents :=
        hloaded.represents fun name stem hname hkind =>
          (hall name stem hname hkind).resolve_right List.not_mem_nil
      exact ⟨rfl, hdir, rfl, hrepresents.unique hdir⟩
    | cons name pending => exact hguard.loadStep hstep
  | replacing agents =>
    obtain ⟨rfl, hdir, rfl, rfl⟩ := hguard
    cases hstep
    exact ⟨rfl, hdir⟩
  | start | locking | unlocking | returned => cases hstep

/-- Under the mutex the directory stores the map from before or from after the operation. -/
theorem Guarded.before_or_after (hguard : Guarded T pid op before dir memory stage) :
    DirRepresents T dir before ∨ ∃ r, op.apply before = .ok r ∧ DirRepresents T dir r := by
  cases stage with
  | checking op' valid => exact .inl hguard.2.2
  | persisting config valid stage => exact .inl hguard.2.1
  | inserting config valid => exact .inr ⟨_, hguard.2.1, hguard.2.2⟩
  | removing id => exact .inl hguard.2.1
  | erasing id => exact .inr ⟨_, hguard.2.1, hguard.2.2⟩
  | listing => exact .inl hguard.2.1
  | loading pending agents => exact .inl hguard.2.1
  | replacing agents => exact .inl hguard.2.1
  | unlocking result =>
    cases result with
    | ok changes => exact .inr ⟨memory, hguard⟩
    | error e => exact .inl hguard.2
  | start | locking | returned => exact hguard.elim

/-- An operation about to give the mutex back leaves a directory that stores the map. -/
theorem Guarded.represents_of_unlocking {result : Except ConfigError (List Change)}
    (hguard : Guarded T pid op before dir memory (.unlocking result)) :
    DirRepresents T dir memory := by
  cases result with
  | ok changes => exact hguard.2
  | error e =>
    obtain ⟨rfl, hdir⟩ := hguard
    exact hdir

/-- An operation that is guarded holds the mutex. -/
theorem Guarded.critical (hguard : Guarded T pid op before dir memory stage) :
    stage.critical = true := by
  cases stage with
  | start | locking | returned => exact hguard.elim
  | _ => rfl

/-! ## All threads -/

variable {S S' : Store} {t : ℕ}

/-- What an access of a thread can do: it validates its argument, it takes the mutex, it works
under the mutex, or it gives the mutex back. -/
theorem Store.step_advance (h : (registrySystem T).step S (.advance t o) = some S') :
    ∃ stage stage', S.threads[t]? = some stage ∧
      (((∃ op, stage = .start op) ∧ stage'.critical = false ∧
          S' = { S with threads := S.threads.set t stage' }) ∨
        (∃ op valid, stage = .locking op valid ∧ stage' = .checking op valid ∧
          S.mutation = none ∧
          S' = { S with mutation := some t, threads := S.threads.set t stage' }) ∨
        (∃ dir memory, criticalStep T S.pid o S.dir S.memory stage = some (dir, memory, stage') ∧
          S' = { S with dir, memory, threads := S.threads.set t stage' }) ∨
        ∃ result, stage = .unlocking result ∧ stage' = .returned result ∧
          S' = { S with mutation := none, threads := S.threads.set t stage' }) := by
  have hbind : S.threads[t]?.bind (S.advance T t o) = some S' := h
  obtain ⟨stage, hstage, hadvance⟩ := Option.bind_eq_some_iff.mp hbind
  cases stage with
  | start op =>
    simp only [Store.advance] at hadvance
    split at hadvance
    · cases hadvance
      exact ⟨_, _, hstage, .inl ⟨⟨op, rfl⟩, rfl, rfl⟩⟩
    · cases hadvance
      exact ⟨_, _, hstage, .inl ⟨⟨op, rfl⟩, rfl, rfl⟩⟩
  | locking op valid =>
    simp only [Store.advance] at hadvance
    split at hadvance
    · rename_i hfree
      cases hadvance
      exact ⟨_, _, hstage, .inr (.inl ⟨op, valid, rfl, rfl, hfree, rfl⟩)⟩
    · cases hadvance
  | unlocking result =>
    cases hadvance
    exact ⟨_, _, hstage, .inr (.inr (.inr ⟨result, rfl, rfl, rfl⟩))⟩
  | _ =>
    simp only [Store.advance, Option.map_eq_some_iff] at hadvance
    obtain ⟨⟨dir, memory, stage'⟩, hstep, heq⟩ := hadvance
    exact ⟨_, stage', hstage, .inr (.inr (.inl ⟨dir, memory, hstep, heq.symm⟩))⟩

/-- Only an operation under the mutex makes a critical step. -/
theorem critical_of_criticalStep
    (h : criticalStep T pid o dir memory stage = some (dir', memory', stage')) :
    stage.critical = true := by
  cases stage with
  | start | locking | returned => cases h
  | _ => rfl

/-- Only the thread that holds the mutex is under it. -/
def Store.Alone (S : Store) : Prop :=
  ∀ (t : ℕ) (stage : OpStage), S.threads[t]? = some stage → stage.critical = true →
    S.mutation = some t

/-- The mutex excludes. -/
theorem Store.Alone.step (h : S.Alone) {a : StoreAction}
    (hstep : (registrySystem T).step S a = some S') : S'.Alone := by
  cases a with
  | call op =>
    cases hstep
    intro u stage hu hcritical
    rcases getElem?_append_cases hu with ⟨-, rfl⟩ | hu
    · cases hcritical
    · exact h u stage hu hcritical
  | restart pid order swept =>
    have hthreads : S'.threads = [] := by
      simp only [registrySystem, Store.step] at hstep
      split at hstep
      · split at hstep
        · cases hstep
          rfl
        · cases hstep
      · cases hstep
    intro u stage hu
    rw [hthreads] at hu
    cases hu
  | advance t o =>
    obtain ⟨stage, stage', hstage, ⟨-, hoff, rfl⟩ | ⟨op, valid, -, -, hnone, rfl⟩ |
      ⟨dir, memory, hcritical, rfl⟩ | ⟨result, rfl, rfl, rfl⟩⟩ := Store.step_advance hstep
    · intro u stage'' hu hcritical
      rcases getElem?_set_cases hu with ⟨-, rfl⟩ | ⟨-, hu⟩
      · rw [hoff] at hcritical
        cases hcritical
      · exact h u stage'' hu hcritical
    · intro u stage'' hu hcritical
      rcases getElem?_set_cases hu with ⟨rfl, -⟩ | ⟨-, hu⟩
      · rfl
      · have hheld := h u stage'' hu hcritical
        rw [hnone] at hheld
        cases hheld
    · have hmutation := h t stage hstage (critical_of_criticalStep hcritical)
      intro u stage'' hu hcritical'
      rcases getElem?_set_cases hu with ⟨rfl, -⟩ | ⟨-, hu⟩
      · exact hmutation
      · exact h u stage'' hu hcritical'
    · have hmutation := h t _ hstage rfl
      intro u stage'' hu hcritical
      rcases getElem?_set_cases hu with ⟨-, rfl⟩ | ⟨hne, hu⟩
      · cases hcritical
      · have hheld := h u stage'' hu hcritical
        exact absurd (Option.some_inj.mp (hheld.symm.trans hmutation)) hne

/-- The directory stores the map when the mutex is free; the thread that holds the mutex is guarded,
and no other one is under it. -/
structure Store.Safe (T : Toml) (S : Store) : Prop where
  free : S.mutation = none → DirRepresents T S.dir S.memory
  held : ∀ t : ℕ, S.mutation = some t → ∃ op before stage, S.threads[t]? = some stage ∧
    Guarded T S.pid op before S.dir S.memory stage
  alone : ∀ (t : ℕ) (stage : OpStage), S.threads[t]? = some stage → stage.critical = true →
    S.mutation = some t

namespace Store.Safe

theorem start (h : DirRepresents T dir memory) (pid : ℕ) : (Store.start dir memory pid).Safe T where
  free _ := h
  held t ht := by cases ht
  alone t stage ht := by simp [Store.start] at ht

/-- The stage of a thread at a critical stage is guarded. -/
theorem guarded (h : S.Safe T) (hstage : S.threads[t]? = some stage)
    (hcritical : stage.critical = true) :
    S.mutation = some t ∧ ∃ op before, Guarded T S.pid op before S.dir S.memory stage := by
  have hmutation := h.alone t stage hstage hcritical
  obtain ⟨op, before, stage', hstage', hguard⟩ := h.held t hmutation
  obtain rfl : stage = stage' := Option.some_inj.mp (hstage.symm.trans hstage')
  exact ⟨hmutation, op, before, hguard⟩

/-- An access of a thread keeps the store safe. -/
theorem advance (hT : T.RoundTrips) (h : S.Safe T)
    (hstep : (registrySystem T).step S (.advance t o) = some S') : S'.Safe T := by
  have halone : S'.Alone := Store.Alone.step h.alone hstep
  obtain ⟨stage, stage', hstage, ⟨⟨op, rfl⟩, -, rfl⟩ | ⟨op, valid, rfl, rfl, hnone, rfl⟩ |
    ⟨dir, memory, hcritical, rfl⟩ | ⟨result, rfl, rfl, rfl⟩⟩ := Store.step_advance hstep
  · refine ⟨h.free, fun u hu => ?_, halone⟩
    obtain ⟨op', before, stage, hstage', hguard⟩ := h.held u hu
    have hne : u ≠ t := by
      rintro rfl
      obtain rfl : OpStage.start op = stage := Option.some_inj.mp (hstage.symm.trans hstage')
      exact hguard.elim
    exact ⟨op', before, stage, by rwa [List.getElem?_set_ne hne.symm], hguard⟩
  · refine ⟨nofun, fun u hu => ?_, halone⟩
    obtain rfl : t = u := Option.some_inj.mp hu
    have hguard : Guarded T S.pid op S.memory S.dir S.memory (.checking op valid) :=
      ⟨rfl, rfl, h.free hnone⟩
    exact ⟨op, S.memory, _, getElem?_set_self_of_mem hstage, hguard⟩
  · obtain ⟨hmutation, op, before, hguard⟩ :=
      h.guarded hstage (critical_of_criticalStep hcritical)
    refine ⟨fun hnone => ?_, fun u hu => ?_, halone⟩
    · cases hmutation.symm.trans hnone
    · obtain rfl : t = u := Option.some_inj.mp (hmutation.symm.trans hu)
      exact ⟨op, before, stage', getElem?_set_self_of_mem hstage, hguard.criticalStep hT hcritical⟩
  · obtain ⟨-, op, before, hguard⟩ := h.guarded hstage rfl
    exact ⟨fun _ => hguard.represents_of_unlocking, nofun, halone⟩

/-- Sweeping temporary files leaves what a directory stores as it is. -/
theorem sweep {files : Directory} {swept : List String} (h : Represents T files memory)
    (hswept : ∀ name ∈ swept, classify name = .temp) :
    Represents T (swept.foldl (fun files name => files.erase name) files) memory := by
  induction swept generalizing files with
  | nil => exact h
  | cons name swept ih =>
    have hname : classify name = .temp := hswept name List.mem_cons_self
    exact ih (h.erase_temp hname) fun name' hname' => hswept name' (List.mem_cons_of_mem _ hname')

/-- Every action keeps the store safe. -/
theorem step (hT : T.RoundTrips) (h : S.Safe T) {a : StoreAction}
    (hstep : (registrySystem T).step S a = some S') : S'.Safe T := by
  have halone : S'.Alone := Store.Alone.step h.alone hstep
  cases a with
  | call op =>
    cases hstep
    refine ⟨h.free, fun u hu => ?_, halone⟩
    obtain ⟨op', before, stage, hstage, hguard⟩ := h.held u hu
    exact ⟨op', before, stage, getElem?_append_of_some hstage, hguard⟩
  | advance t o => exact h.advance hT hstep
  | restart pid order swept =>
    simp only [registrySystem, Store.step] at hstep
    split at hstep
    · rename_i hok
      split at hstep
      · rename_i memory hload
        cases hstep
        have hdir : DirRepresents T S.dir memory := (load_eq_ok_iff hok.1).mp hload
        refine ⟨fun _ => ?_, nofun, halone⟩
        cases hS : S.dir with
        | none =>
          rw [hS] at hdir
          exact hdir
        | some files =>
          rw [hS] at hdir
          exact sweep hdir hok.2
      · cases hstep
    · cases hstep

end Store.Safe

/-- The thread `t` is executing the operation `op`, which found the map `before`, or it has
returned from it. -/
def Store.Executes (T : Toml) (t : ℕ) (op : FileOp) (before : Registry) (S : Store) : Prop :=
  ∃ stage, S.threads[t]? = some stage ∧ ((∃ result, stage = .returned result) ∨
    (S.mutation = some t ∧ Guarded T S.pid op before S.dir S.memory stage))

/-- The process does not die. -/
def StoreAction.Survives : StoreAction → Prop
  | .restart .. => False
  | _ => True

instance : DecidablePred StoreAction.Survives
  | .restart .. => inferInstanceAs (Decidable False)
  | .call _ | .advance .. => inferInstanceAs (Decidable True)

/-- The thread `t` holds the mutex, and `P` says how the process id, the directory, the memory and
its stage are related; or it has returned. -/
def Store.Attends (t : ℕ) (P : ℕ → Option Directory → Registry → OpStage → Prop) (S : Store) :
    Prop :=
  ∃ stage, S.threads[t]? = some stage ∧ ((∃ result, stage = .returned result) ∨
    (S.mutation = some t ∧ P S.pid S.dir S.memory stage))

/-- What the accesses of the thread under the mutex keep is disturbed by no step, unless the process
dies. -/
theorem Store.Attends.step {P : ℕ → Option Directory → Registry → OpStage → Prop}
    (ok : IoOutcome → Prop) (h : S.Attends t P) (halone : S.Alone)
    (hcritical : ∀ {pid dir memory stage}, P pid dir memory stage → stage.critical = true)
    (hP : ∀ {pid dir memory stage o dir' memory' stage'}, ok o → P pid dir memory stage →
      criticalStep T pid o dir memory stage = some (dir', memory', stage') →
        P pid dir' memory' stage')
    {a : StoreAction} (ha : a.Survives) (hok : ∀ o, a = .advance t o → ok o)
    (hstep : (registrySystem T).step S a = some S') : S'.Attends t P := by
  obtain ⟨stage, hstage, hcases⟩ := h
  cases a with
  | call op' =>
    cases hstep
    exact ⟨stage, getElem?_append_of_some hstage, hcases⟩
  | restart pid order swept => exact ha.elim
  | advance u o =>
    obtain ⟨stageU, stageU', hstageU, hstep⟩ := Store.step_advance hstep
    by_cases hu : u = t
    · subst hu
      obtain rfl : stage = stageU := Option.some_inj.mp (hstage.symm.trans hstageU)
      have hset := getElem?_set_self_of_mem (y := stageU') hstage
      rcases hstep with ⟨⟨op', rfl⟩, -, rfl⟩ | ⟨op', valid, rfl, rfl, -, rfl⟩ |
        ⟨dir, memory, hwork, rfl⟩ | ⟨result, rfl, rfl, rfl⟩
      · rcases hcases with ⟨result, hresult⟩ | ⟨-, hguard⟩
        · cases hresult
        · cases hcritical hguard
      · rcases hcases with ⟨result, hresult⟩ | ⟨-, hguard⟩
        · cases hresult
        · cases hcritical hguard
      · rcases hcases with ⟨result, rfl⟩ | ⟨hmutation, hguard⟩
        · cases hwork
        · exact ⟨stageU', hset, .inr ⟨hmutation, hP (hok o rfl) hguard hwork⟩⟩
      · exact ⟨_, hset, .inl ⟨result, rfl⟩⟩
    · -- a thread under the mutex cannot be another one
      have hkeep : ∀ S'' : Store, S''.threads = S.threads.set u stageU' →
          S''.threads[t]? = some stage := by
        intro S'' hthreads
        rw [hthreads, List.getElem?_set_ne hu]
        exact hstage
      rcases hcases with hreturned | ⟨hmutation, hguard⟩
      · refine ⟨stage, hkeep S' ?_, .inl hreturned⟩
        rcases hstep with ⟨-, -, rfl⟩ | ⟨op', valid, -, -, -, rfl⟩ | ⟨dir, memory, -, rfl⟩ |
          ⟨result, -, -, rfl⟩ <;> rfl
      · rcases hstep with ⟨-, -, rfl⟩ | ⟨op', valid, -, -, hnone, rfl⟩ |
          ⟨dir, memory, hwork, rfl⟩ | ⟨result, rfl, -, rfl⟩
        · exact ⟨stage, hkeep _ rfl, .inr ⟨hmutation, hguard⟩⟩
        · cases hmutation.symm.trans hnone
        · have hown := halone u stageU hstageU (critical_of_criticalStep hwork)
          exact absurd (Option.some_inj.mp (hown.symm.trans hmutation)) hu
        · have hown := halone u _ hstageU rfl
          exact absurd (Option.some_inj.mp (hown.symm.trans hmutation)) hu

/-- No step disturbs an operation, unless the process dies. -/
theorem Store.Executes.step (hT : T.RoundTrips) (h : S.Executes T t op before) (hsafe : S.Safe T)
    {a : StoreAction} (ha : a.Survives) (hstep : (registrySystem T).step S a = some S') :
    S'.Executes T t op before := by
  have hattends : S.Attends t fun pid dir memory stage =>
      Guarded T pid op before dir memory stage := h
  exact hattends.step (fun _ => True) hsafe.alone Guarded.critical
    (fun _ hguard hwork => hguard.criticalStep hT hwork) ha (fun _ _ => trivial) hstep

/-- A thread that does not hold the mutex changes neither the map nor the directory. -/
theorem Store.unchanged_of_not_held (hsafe : S.Safe T)
    (hstep : (registrySystem T).step S (.advance t o) = some S') (hnot : S.mutation ≠ some t) :
    S'.memory = S.memory ∧ S'.dir = S.dir := by
  obtain ⟨stage, stage', hstage, ⟨-, -, rfl⟩ | ⟨op, valid, -, -, -, rfl⟩ |
    ⟨dir, memory, hcritical, rfl⟩ | ⟨result, -, -, rfl⟩⟩ := Store.step_advance hstep
  · exact ⟨rfl, rfl⟩
  · exact ⟨rfl, rfl⟩
  · exact absurd (hsafe.alone t stage hstage (critical_of_criticalStep hcritical)) hnot
  · exact ⟨rfl, rfl⟩

/-- A directory that loads, the registry loaded from it, and any run of threads, failures and
crashes.  When the mutex is free, a load gives the map.  A thread outside the mutex changes
nothing.  And from the step at which an operation takes the mutex on, up to a crash or its end: a
load gives the map from before or from after the operation, and when it ends with an error nothing
has changed, else the map is the one after the operation. -/
theorem directory_agrees (hT : T.RoundTrips) {order : List String} {registry : Registry}
    (horder : Lists dir order) (hload : load T dir order = .ok registry)
    (hrun : (registrySystem T).Run (fun _ _ => True) (.start dir registry pid) S) :
    (S.mutation = none → ∀ order, Lists S.dir order → load T S.dir order = .ok S.memory) ∧
    (∀ t o S', (registrySystem T).step S (.advance t o) = some S' → S.mutation ≠ some t →
      S'.memory = S.memory ∧ S'.dir = S.dir) ∧
    ∀ (t : ℕ) (o : IoOutcome) (op : FileOp) (valid : op.validate = .ok ()) (S₁ S₂ : Store),
      S.threads[t]? = some (.locking op valid) →
      (registrySystem T).step S (.advance t o) = some S₁ →
      (registrySystem T).Run (fun _ a => a.Survives) S₁ S₂ →
        (S₂.mutation = some t → ∀ order, Lists S₂.dir order →
          load T S₂.dir order = .ok S.memory ∨
            ∃ r, op.apply S.memory = .ok r ∧ load T S₂.dir order = .ok r) ∧
        (∀ e, S₂.threads[t]? = some (.unlocking (.error e)) → S₂.memory = S.memory ∧
          ∀ order, Lists S₂.dir order → load T S₂.dir order = .ok S.memory) ∧
        ∀ changes, S₂.threads[t]? = some (.unlocking (.ok changes)) →
          op.apply S.memory = .ok S₂.memory := by
  have hstart : (Store.start dir registry pid).Safe T :=
    Store.Safe.start ((load_eq_ok_iff horder).mp hload) pid
  have hsafe : S.Safe T := hrun.invariant hstart fun _ _ _ h _ hstep => h.step hT hstep
  refine ⟨fun hnone order horder => ?_, fun t o S' => Store.unchanged_of_not_held hsafe, ?_⟩
  · exact (load_eq_ok_iff horder).mpr (hsafe.free hnone)
  intro t o op valid S₁ S₂ hlocking hlock hrest
  have hsafe₁ : S₁.Safe T := hsafe.advance hT hlock
  -- the operation has just taken the mutex
  have hexec₁ : S₁.Executes T t op S.memory := by
    obtain ⟨stage, stage', hstage, hcases⟩ := Store.step_advance hlock
    obtain rfl : .locking op valid = stage := Option.some_inj.mp (hlocking.symm.trans hstage)
    rcases hcases with ⟨⟨op', hop⟩, -⟩ | ⟨op', valid', hop, rfl, hnone, rfl⟩ |
      ⟨dir, memory, hcritical, -⟩ | ⟨result, hresult, -⟩
    · cases hop
    · cases hop
      exact ⟨_, getElem?_set_self_of_mem hstage, .inr ⟨rfl, rfl, rfl, hsafe.free hnone⟩⟩
    · cases hcritical
    · cases hresult
  have hboth : S₂.Safe T ∧ S₂.Executes T t op S.memory := by
    refine hrest.invariant (I := fun S' => S'.Safe T ∧ S'.Executes T t op S.memory)
      ⟨hsafe₁, hexec₁⟩ ?_
    rintro x a y ⟨hsafe, hexec⟩ ha hstep
    exact ⟨hsafe.step hT hstep, hexec.step hT hsafe ha hstep⟩
  obtain ⟨hsafe₂, stage, hstage, hcases⟩ := hboth
  have hguarded : stage.critical = true →
      Guarded T S₂.pid op S.memory S₂.dir S₂.memory stage := by
    intro hcritical
    rcases hcases with ⟨result, rfl⟩ | ⟨-, hguard⟩
    · cases hcritical
    · exact hguard
  refine ⟨fun hmutation order horder => ?_, fun e he => ?_, fun changes hchanges => ?_⟩
  · obtain ⟨op', before', stage', hstage', hguard'⟩ := hsafe₂.held t hmutation
    obtain rfl : stage = stage' := Option.some_inj.mp (hstage.symm.trans hstage')
    have hdir := (hguarded hguard'.critical).before_or_after
    exact hdir.imp (load_eq_ok_iff horder).mpr fun ⟨r, hr, hdir⟩ =>
      ⟨r, hr, (load_eq_ok_iff horder).mpr hdir⟩
  · obtain rfl := Option.some_inj.mp (hstage.symm.trans he)
    obtain ⟨hmemory, hdir⟩ := hguarded rfl
    exact ⟨hmemory, fun order horder => (load_eq_ok_iff horder).mpr hdir⟩
  · obtain rfl := Option.some_inj.mp (hstage.symm.trans hchanges)
    exact (hguarded rfl).1

namespace Sample

/-- The contents of the agent's file. -/
def contents : List UInt8 :=
  "agent_id = \"a\"\nhandler = \"/h\"\nmax_concurrency = 1\nenabled = true\n".toUTF8.data.toList

/-- The file format, as far as the sample agent needs it. -/
def toml : Toml where
  toStringPretty c := if c = config then some contents else none
  fromStr bytes := if bytes = contents then .ok config else .error "TOML parse error"

theorem toml_roundTrips : toml.RoundTrips := by
  intro c bytes h
  simp only [toml] at h ⊢
  split at h
  · rename_i hc
    obtain rfl : contents = bytes := Option.some_inj.mp h
    rw [if_pos rfl, hc]
  · cases h

/-- The thread `0` makes `n` accesses, none of which fails. -/
def works (n : ℕ) : List StoreAction := List.replicate n (.advance 0 {})

/-- The sample agent is registered in a directory that does not exist yet, up to the lock. -/
def beforeLock : Store :=
  ((registrySystem toml).exec (fun _ _ => True) (.start none .empty 7)
    (.call (.register config) :: works 1)).get (by decide +kernel)

/-- The registration has taken the mutex. -/
def locked : Store :=
  ((registrySystem toml).exec (fun _ _ => True) beforeLock (works 1)).get (by decide +kernel)

end Sample

/-- The registration is interrupted after the rename and before the map has the entry: a load gives
the map from after it. -/
theorem directory_agrees_afterRename :
    ∃ S, (registrySystem Sample.toml).Run (fun _ a => a.Survives) Sample.locked S ∧
      S.memory = Sample.beforeLock.memory ∧ S.dir.isSome = true ∧
      ∀ order, Lists S.dir order → load Sample.toml S.dir order = .ok Sample.beforeLock.memory ∨
        ∃ r, (FileOp.register Sample.config).apply Sample.beforeLock.memory = .ok r ∧
          load Sample.toml S.dir order = .ok r := by
  have hrun : (registrySystem Sample.toml).Run (fun _ _ => True) (.start none .empty 7)
      Sample.beforeLock := run_exec_get _
  have hlock : (registrySystem Sample.toml).step Sample.beforeLock (.advance 0 {}) =
      some Sample.locked := rfl
  obtain ⟨S, hrest, hend⟩ := exists_run_of_exec (registrySystem Sample.toml)
    (fun _ a => a.Survives) Sample.locked (Sample.works 7)
    (fun S => decide (S.memory = Sample.beforeLock.memory ∧ S.dir.isSome = true ∧
      S.mutation = some 0)) (by decide +kernel)
  obtain ⟨hmemory, hdir, hmutation⟩ := of_decide_eq_true hend
  have hvalid : (FileOp.register Sample.config).validate = .ok () := rfl
  have hload : load Sample.toml none [] = .ok .empty := rfl
  obtain ⟨-, -, hop⟩ := directory_agrees Sample.toml_roundTrips (by decide) hload hrun
  exact ⟨S, hrest, hmemory, hdir, (hop 0 {} _ hvalid _ S rfl hlock hrest).1 hmutation⟩

end Agentd
