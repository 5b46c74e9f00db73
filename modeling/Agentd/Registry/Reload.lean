import Agentd.Registry.CrashSafety

/-!
# Reloads

A reload answers with the changes from the map in memory to the map in the directory.  They are a
patch: applied to the old map they give the new one, and they name no agent in vain
(`exactPatch_diff`).  Entries are compared as the derived comparison compares them, so a
configuration that is spelled differently but compares equal is loaded without being reported.

The directory is read under the mutation mutex, in many accesses.  `Reloading` says what they have
established so far; no access of another thread matters.  A load fails exactly if some file is
`Rejected`, unless an access fails.
-/

namespace Agentd

open TransitionSystem TaskPool

/-! ## Patches of the map -/

/-- What a consumer of the changes does to a map of its own. -/
def Change.applyTo (agents : AgentMap) : Change → AgentMap
  | .added c | .updated c | .enabled c | .disabled c => agents.insert c.agentId c
  | .removed id => agents.erase id

/-- The entry after the change. -/
def Change.entry : Change → Option AgentConfig
  | .added c | .updated c | .enabled c | .disabled c => some c
  | .removed _ => none

/-- A change overwrites the entry of its agent. -/
theorem overwrites_applyTo :
    Overwrites Change.applyTo (fun agents id => agents.lookup id) Change.agentId Change.entry := by
  refine ⟨fun agents ch => ?_, fun agents ch id hne => ?_⟩
  · cases ch with
    | removed id => exact Finmap.lookup_erase id agents
    | _ => exact Finmap.lookup_insert agents
  · cases ch with
    | removed id' => exact Finmap.lookup_erase_ne hne
    | _ => exact Finmap.lookup_insert_of_ne agents hne

/-- The comparison of two entries of an id, one of which may be missing. -/
def entryEq : Option AgentConfig → Option AgentConfig → Bool
  | some a, some b => a.partialEq b
  | none, none => true
  | _, _ => false

@[simp] theorem entryEq_refl (e : Option AgentConfig) : entryEq e e = true := by
  cases e with
  | none => rfl
  | some c => exact c.partialEq_refl

/-- The changes are an exact and minimal patch from `old` to `new`: in the order of the ids, at most
one for each; applied to the old map they give the new one; exactly the agents whose entries differ
are named; and exactly the flips of the flag are reported as such, with the new configuration. -/
structure ExactPatch (old new : Registry) (changes : List Change) : Prop where
  sorted : changes.Pairwise fun a b => a.agentId < b.agentId
  applied : ∀ id,
    entryEq ((changes.foldl Change.applyTo old.agents).lookup id) (new.get id) = true
  minimal : ∀ id, (∃ ch ∈ changes, ch.agentId = id) ↔ entryEq (old.get id) (new.get id) = false
  enabled : ∀ c, .enabled c ∈ changes ↔ new.get c.agentId = some c ∧ c.enabled = true ∧
    ∃ a, old.get c.agentId = some a ∧ a.enabled = false
  disabled : ∀ c, .disabled c ∈ changes ↔ new.get c.agentId = some c ∧ c.enabled = false ∧
    ∃ a, old.get c.agentId = some a ∧ a.enabled = true

namespace Registry

variable {old new : Registry} {id : AgentId}

/-- The change reported about an id has its new entry. -/
theorem entry_of_diffEntry {was is : Option AgentConfig} {ch : Change}
    (h : diffEntry id was is = some ch) : ch.entry = is := by
  cases was with
  | none =>
    cases is with
    | none => cases h
    | some c =>
      cases h
      rfl
  | some a =>
    cases is with
    | none =>
      cases h
      rfl
    | some b =>
      simp only [diffEntry] at h
      split at h
      · obtain rfl := Option.some_inj.mp h
        split <;> rfl
      · split at h
        · obtain rfl := Option.some_inj.mp h
          rfl
        · cases h

/-- Nothing is reported about an id exactly if its entries compare equal. -/
theorem diffEntry_eq_none_iff_entryEq {was is : Option AgentConfig} :
    diffEntry id was is = none ↔ entryEq was is = true := by
  cases was with
  | none => cases is <;> simp [diffEntry, entryEq]
  | some a =>
    cases is with
    | none => simp [diffEntry, entryEq]
    | some b => exact diffEntry_eq_none_iff

/-- The changes of a diff come in the order of the ids. -/
theorem diff_sorted (old new : Registry) :
    (diff old new).Pairwise fun a b => a.agentId < b.agentId := by
  unfold diff
  refine List.Pairwise.filterMap _ ?_ (Finset.sortedLT_sort _).pairwise
  intro id id' hlt ch hch ch' hch'
  rwa [agentId_of_diffEntry hch, agentId_of_diffEntry hch']

/-- An id is named by a diff exactly if its entries do not compare equal. -/
theorem exists_mem_diff_iff :
    (∃ ch ∈ diff old new, ch.agentId = id) ↔ entryEq (old.get id) (new.get id) = false := by
  have hnone : diffEntry id (old.get id) (new.get id) = none ↔
      entryEq (old.get id) (new.get id) = true := diffEntry_eq_none_iff_entryEq
  rw [← Bool.not_eq_true, ← hnone]
  constructor
  · rintro ⟨ch, hch, rfl⟩ hnone
    rw [mem_diff_iff.mp hch] at hnone
    cases hnone
  · intro hne
    obtain ⟨ch, hch⟩ := Option.ne_none_iff_exists'.mp hne
    exact ⟨ch, mem_diff.mpr ⟨id, hch⟩, agentId_of_diffEntry hch⟩

/-- A diff applied to the old map gives the new one. -/
theorem lookup_diff (old new : Registry) (id : AgentId) :
    entryEq (((diff old new).foldl Change.applyTo old.agents).lookup id) (new.get id) = true := by
  by_cases hnamed : ∃ ch ∈ diff old new, ch.agentId = id
  · obtain ⟨ch, hch, rfl⟩ := hnamed
    have hwritten : ((diff old new).foldl Change.applyTo old.agents).lookup ch.agentId = ch.entry :=
      overwrites_applyTo.foldl_written (diff_pairwise old new) hch
    rw [hwritten, entry_of_diffEntry (mem_diff_iff.mp hch)]
    exact entryEq_refl _
  · have hkept : ((diff old new).foldl Change.applyTo old.agents).lookup id = old.get id :=
      overwrites_applyTo.foldl_kept fun ch hch hid => hnamed ⟨ch, hch, hid⟩
    rw [exists_mem_diff_iff, Bool.not_eq_false] at hnamed
    rwa [hkept]

/-- A diff reports that an agent was enabled, or disabled, exactly if the flag flipped. -/
theorem flip_mem_diff_iff {c : AgentConfig} (flag : Bool) :
    (if flag then .enabled c else .disabled c) ∈ diff old new ↔
      new.get c.agentId = some c ∧ c.enabled = flag ∧
        ∃ a, old.get c.agentId = some a ∧ a.enabled = !flag := by
  have hid : (if flag then Change.enabled c else .disabled c).agentId = c.agentId := by
    cases flag <;> rfl
  rw [mem_diff_iff, hid]
  cases hold : old.get c.agentId with
  | none => cases new.get c.agentId <;> cases flag <;> simp [diffEntry]
  | some a =>
    cases hnew : new.get c.agentId with
    | none => cases flag <;> simp [diffEntry]
    | some b =>
      simp only [diffEntry, Option.some.injEq, exists_eq_left', bne_iff_ne]
      split
      · rename_i hne
        rw [Option.some_inj]
        constructor
        · intro h
          cases hb : b.enabled <;> cases flag <;> simp_all
        · rintro ⟨rfl, hflag, -⟩
          simp [hflag]
      · rename_i heq
        have hsame : a.enabled = b.enabled := not_not.mp heq
        constructor
        · intro h
          cases flag <;> split at h <;> cases h
        · rintro ⟨rfl, hflag, hflip⟩
          rw [hsame, hflag] at hflip
          cases flag <;> cases hflip

/-- A diff is an exact patch. -/
theorem exactPatch_diff (old new : Registry) : ExactPatch old new (diff old new) where
  sorted := diff_sorted old new
  applied := lookup_diff old new
  minimal _ := exists_mem_diff_iff
  enabled _ := flip_mem_diff_iff true
  disabled _ := flip_mem_diff_iff false

end Registry

/-! ## Files that make a load fail -/

variable {T : Toml} {files : Directory} {name : String} {agents before memory memory' : Registry}

/-- A file that a load takes for a configuration file and does not accept. -/
inductive Rejected (T : Toml) (files : Directory) (name : String) : Prop
  | malformed {stem : List Char} {contents : List UInt8} {e : String}
      (kind : classify name = .config stem) (found : files.lookup name = some contents)
      (parsed : T.fromStr contents = .error e)
  | invalid {stem : List Char} {contents : List UInt8} {c : AgentConfig} {e : ConfigError}
      (kind : classify name = .config stem) (found : files.lookup name = some contents)
      (parsed : T.fromStr contents = .ok c) (checked : c.validate = .error e)
  | misnamed {stem : List Char} {contents : List UInt8} {c : AgentConfig}
      (kind : classify name = .config stem) (found : files.lookup name = some contents)
      (parsed : T.fromStr contents = .ok c) (named : stem ≠ c.agentId.raw.toList)

/-- A directory that stores a registry has no such file. -/
theorem Represents.not_rejected (h : Represents T files agents) : ¬Rejected T files name := by
  have hentry : ∀ {stem contents}, classify name = .config stem →
      files.lookup name = some contents → ∃ id c, agents.get id = some c ∧
        T.fromStr contents = .ok c ∧ stem = id.raw.toList := by
    intro stem contents hkind hfound
    have hmem : name ∈ files := Finmap.mem_of_lookup_eq_some hfound
    obtain ⟨id, c, hget, rfl⟩ := h.only name stem hmem hkind
    obtain ⟨contents', hfound', hparse⟩ := h.stored id c hget
    obtain rfl := Option.some_inj.mp (hfound.symm.trans hfound')
    rw [classify_fileName] at hkind
    exact ⟨id, c, hget, hparse, (FileKind.config.inj hkind).symm⟩
  intro hrejected
  cases hrejected with
  | malformed hkind hfound hparsed =>
    obtain ⟨id, c, -, hparse, -⟩ := hentry hkind hfound
    cases hparsed.symm.trans hparse
  | invalid hkind hfound hparsed hchecked =>
    obtain ⟨id, c, hget, hparse, -⟩ := hentry hkind hfound
    obtain rfl := Except.ok.inj (hparsed.symm.trans hparse)
    cases hchecked.symm.trans (agents.valid id _ hget)
  | misnamed hkind hfound hparsed hnamed =>
    obtain ⟨id, c, hget, hparse, rfl⟩ := hentry hkind hfound
    obtain rfl := Except.ok.inj (hparsed.symm.trans hparse)
    exact hnamed (by rw [Registry.agentId_of_get hget])

/-- A load of a file looks at nothing but its contents. -/
theorem loadFile_congr {files' : Directory} (h : files.lookup name = files'.lookup name) :
    loadFile T files agents name = loadFile T files' agents name := by
  unfold loadFile
  rw [h]

/-- A load fails at a file only if it rejects the file. -/
theorem rejected_of_loadFile {e : ConfigError} (hmem : name ∈ files)
    (h : loadFile T files agents name = .error e) : Rejected T files name := by
  unfold loadFile at h
  split at h
  · cases h
  · cases h
  · rename_i stem hkind
    split at h
    · rename_i hnone
      exact absurd hmem (Finmap.lookup_eq_none.mp hnone)
    · rename_i contents hfound
      split at h
      · rename_i hparsed
        exact .malformed hkind hfound hparsed
      · rename_i c hparsed
        split at h
        · rename_i hchecked
          exact .invalid hkind hfound hparsed hchecked
        · split at h
          · rename_i hnamed
            exact .misnamed hkind hfound hparsed hnamed
          · cases h

/-! ## A reload under the mutex -/

variable {dir₀ dir dir' : Option Directory} {stage stage' : OpStage} {pid : ℕ} {o : IoOutcome}

/-- The directory and the memory at a stage of a reload that found the directory `dir₀` and the map
`before`; a load that fails although nothing else does has met a rejected file. -/
def Reloading (T : Toml) (faultless : Prop) (dir₀ : Option Directory) (before : Registry)
    (dir : Option Directory) (memory : Registry) : OpStage → Prop
  | .checking op _ => op = .reload ∧ dir = dir₀ ∧ memory = before
  | .listing => dir = dir₀ ∧ memory = before
  | .loading pending agents => memory = before ∧ ∃ files₀ files done, dir₀ = some files₀ ∧
      dir = some files ∧
      (∀ name, classify name ≠ .temp → files.lookup name = files₀.lookup name) ∧
      Loaded T files₀ done agents ∧ (∀ name ∈ pending, name ∈ files₀) ∧
      ∀ name stem, name ∈ files₀ → classify name = .config stem → name ∈ done ∨ name ∈ pending
  | .replacing agents => memory = before ∧ DirRepresents T dir₀ agents
  | .unlocking (.ok changes) => DirRepresents T dir₀ memory ∧ changes = before.diff memory
  | .unlocking (.error _) => memory = before ∧
      (faultless → ∃ name, Rejected T (dir₀.getD ∅) name)
  | _ => False

namespace Reloading

variable {faultless : Prop}

theorem critical (h : Reloading T faultless dir₀ before dir memory stage) :
    stage.critical = true := by
  cases stage with
  | start | locking | returned => exact h.elim
  | _ => rfl

/-- The access that deals with one listed file. -/
theorem loadStep {pending : List String}
    (h : Reloading T faultless dir₀ before dir memory (.loading (name :: pending) agents))
    (hfaultless : faultless → o.fails = false)
    (hstep : criticalStep T pid o dir memory (.loading (name :: pending) agents) =
      some (dir', memory', stage')) : Reloading T faultless dir₀ before dir' memory' stage' := by
  obtain ⟨rfl, files₀, files, done, rfl, rfl, hsame, hloaded, hpending, hall⟩ := h
  have hrest : ∀ name ∈ pending, name ∈ files₀ := fun name' hname' =>
    hpending name' (List.mem_cons_of_mem name hname')
  simp only [criticalStep] at hstep
  split at hstep
  · -- a temporary file is swept
    rename_i htemp
    cases hstep
    refine ⟨rfl, files₀, if o.fails = true then files else files.erase name, done, rfl, ?_, ?_,
      hloaded, hrest, ?_⟩
    · split <;> rfl
    · intro name' hkind
      have hne : name' ≠ name := by
        rintro rfl
        exact hkind htemp
      split
      · exact hsame name' hkind
      · rw [Finmap.lookup_erase_ne hne, hsame name' hkind]
    · intro name' stem hmem hkind
      refine (hall name' stem hmem hkind).imp_right fun hcons => ?_
      refine (List.mem_cons.mp hcons).resolve_left ?_
      rintro rfl
      cases htemp.symm.trans hkind
  · rename_i htemp
    split at hstep
    · rename_i hfails
      cases hstep
      refine ⟨rfl, fun hf => ?_⟩
      rw [hfaultless hf] at hfails
      cases hfails
    · rw [Option.getD_some, loadFile_congr (hsame name htemp)] at hstep
      split at hstep
      · rename_i agents' hload
        cases hstep
        refine ⟨rfl, files₀, files, name :: done, rfl, rfl, hsame, hloaded.cons hload, hrest, ?_⟩
        intro name' stem hmem hkind
        rcases hall name' stem hmem hkind with hdone | hcons
        · exact .inl (List.mem_cons_of_mem name hdone)
        · exact (List.mem_cons.mp hcons).imp_left fun heq => by rw [heq]; exact List.mem_cons_self
      · rename_i e hload
        cases hstep
        have hmem : name ∈ files₀ := hpending name List.mem_cons_self
        exact ⟨rfl, fun _ => ⟨name, rejected_of_loadFile hmem hload⟩⟩

/-- Every access of the reload keeps what is known. -/
theorem criticalStep (h : Reloading T faultless dir₀ before dir memory stage)
    (hfaultless : faultless → o.fails = false)
    (hstep : criticalStep T pid o dir memory stage = some (dir', memory', stage')) :
    Reloading T faultless dir₀ before dir' memory' stage' := by
  cases stage with
  | checking op valid =>
    obtain ⟨rfl, rfl, rfl⟩ := h
    cases hstep
    exact ⟨rfl, rfl⟩
  | listing =>
    obtain ⟨rfl, rfl⟩ := h
    simp only [Agentd.criticalStep] at hstep
    split at hstep
    · cases hstep
      exact ⟨rfl, rfl⟩
    · rename_i files
      split at hstep
      · rename_i hfails
        cases hstep
        refine ⟨rfl, fun hf => ?_⟩
        rw [hfaultless hf] at hfails
        cases hfails
      · split at hstep
        · rename_i hlists
          cases hstep
          refine ⟨rfl, files, files, [], rfl, rfl, fun _ _ => rfl, .nil T files, ?_, ?_⟩
          · exact fun name hname => hlists.mem_iff.mp hname
          · exact fun name stem hname _ => .inr (hlists.mem_iff.mpr hname)
        · cases hstep
  | loading pending agents =>
    cases pending with
    | nil =>
      obtain ⟨rfl, files₀, files, done, rfl, -, -, hloaded, -, hall⟩ := h
      cases hstep
      refine ⟨rfl, hloaded.represents fun name stem hname hkind => ?_⟩
      exact (hall name stem hname hkind).resolve_right List.not_mem_nil
    | cons name pending => exact h.loadStep hfaultless hstep
  | replacing agents =>
    obtain ⟨rfl, hdir⟩ := h
    cases hstep
    exact ⟨hdir, rfl⟩
  | start | locking | unlocking | returned => cases hstep
  | persisting | inserting | removing | erasing => exact h.elim

end Reloading

/-! ## The answer of a reload -/

variable {S S' : Store} {t : ℕ}

/-- The process does not die, and no access of the thread `t` fails. -/
def StoreAction.SparesThread (t : ℕ) : StoreAction → Prop
  | .call _ => True
  | .advance u o => u = t → o.fails = false
  | .restart .. => False

theorem StoreAction.SparesThread.survives {a : StoreAction} (h : a.SparesThread t) :
    a.Survives := by
  cases a with
  | restart => exact h
  | call | advance => trivial

/-- An access under the mutex is a step of the store. -/
theorem Store.step_of_criticalStep (hstage : S.threads[t]? = some stage)
    (h : criticalStep T S.pid o S.dir S.memory stage = some (dir, memory, stage')) :
    (registrySystem T).step S (.advance t o) =
      some { S with dir, memory, threads := S.threads.set t stage' } := by
  show S.threads[t]?.bind (S.advance T t o) = _
  rw [hstage, Option.bind_some]
  cases stage with
  | start | locking | unlocking | returned => cases h
  | _ =>
    simp only [Store.advance]
    rw [h]
    rfl

/-- A store at some stage of the thread `t`, from which the thread can go on to its answer. -/
def Store.Answers (T : Toml) (t : ℕ) (S : Store) : Prop :=
  ∃ S' result, (registrySystem T).Run (fun _ a => a.SparesThread t) S S' ∧
    S'.threads[t]? = some (.unlocking result)

/-- One access before the answer. -/
theorem Store.Answers.head (o : IoOutcome) (ho : o.fails = false)
    (hstage : S.threads[t]? = some stage)
    (hstep : criticalStep T S.pid o S.dir S.memory stage = some (dir, memory, stage'))
    (h : Store.Answers T t { S with dir, memory, threads := S.threads.set t stage' }) :
    S.Answers T t := by
  obtain ⟨S', result, hrun, hend⟩ := h
  have hok : (StoreAction.advance t o).SparesThread t := fun _ => ho
  exact ⟨S', result, .head hok (Store.step_of_criticalStep hstage hstep) hrun, hend⟩

/-- A thread that gives the mutex back has its answer. -/
theorem Store.answers_of_unlocking {result : Except ConfigError (List Change)}
    (hstage : S.threads[t]? = some (.unlocking result)) : S.Answers T t :=
  ⟨S, result, .refl, hstage⟩

theorem Store.answers_of_replacing (hstage : S.threads[t]? = some (.replacing agents)) :
    S.Answers T t := by
  refine Store.Answers.head {} rfl hstage rfl ?_
  exact Store.answers_of_unlocking (getElem?_set_self_of_mem hstage)

/-- A load comes to its end, one file after the other. -/
theorem Store.answers_of_loading {pending : List String}
    (hstage : S.threads[t]? = some (.loading pending agents)) : S.Answers T t := by
  induction pending generalizing S agents with
  | nil =>
    refine Store.Answers.head {} rfl hstage rfl ?_
    exact Store.answers_of_replacing (getElem?_set_self_of_mem hstage)
  | cons name pending ih =>
    have hnext : ∀ {stage' : OpStage}, (S.threads.set t stage')[t]? = some stage' :=
      getElem?_set_self_of_mem hstage
    by_cases htemp : classify name = .temp
    · refine Store.Answers.head {} rfl hstage (by simp only [criticalStep, if_pos htemp]; rfl) ?_
      exact ih hnext
    · cases hload : loadFile T (S.dir.getD ∅) agents name with
      | ok agents' =>
        have hstep : criticalStep T S.pid {} S.dir S.memory (.loading (name :: pending) agents) =
            some (S.dir, S.memory, .loading pending agents') := by
          simp [criticalStep, htemp, hload]
        exact Store.Answers.head {} rfl hstage hstep (ih hnext)
      | error e =>
        have hstep : criticalStep T S.pid {} S.dir S.memory (.loading (name :: pending) agents) =
            some (S.dir, S.memory, .unlocking (.error e)) := by
          simp [criticalStep, htemp, hload]
        exact Store.Answers.head {} rfl hstage hstep (Store.answers_of_unlocking hnext)

/-- A reload that has the mutex comes to its answer. -/
theorem Store.answers_of_checking {valid : FileOp.reload.validate = .ok ()}
    (hstage : S.threads[t]? = some (.checking .reload valid)) : S.Answers T t := by
  refine Store.Answers.head {} rfl hstage rfl ?_
  have hlisting := getElem?_set_self_of_mem (y := OpStage.listing) hstage
  cases hdir : S.dir with
  | none =>
    refine Store.Answers.head {} rfl hlisting (by simp only [criticalStep]; rfl) ?_
    exact Store.answers_of_replacing (getElem?_set_self_of_mem hlisting)
  | some files =>
    have hlists : Lists (some files) (files.keys.sort (· ≤ ·)) := Finset.sort_toFinset _ _
    refine Store.Answers.head { order := files.keys.sort (· ≤ ·) } rfl hlisting
      (by simp only [criticalStep]; rw [if_pos hlists]; rfl) ?_
    exact Store.answers_of_loading (getElem?_set_self_of_mem hlisting)

/-- What is known of a reload under the mutex stays known until it has returned. -/
theorem Reloading.attends {faultless : Prop} {guard : StoreAction → Prop} {S₁ S₂ : Store}
    (hguard : ∀ a, guard a → a.Survives)
    (hfaultless : ∀ o, guard (.advance t o) → faultless → o.fails = false)
    (hrun : (registrySystem T).Run (fun _ a => guard a) S₁ S₂) (halone : S₁.Alone)
    (h : S₁.Attends t fun _ dir memory => Reloading T faultless dir₀ before dir memory) :
    S₂.Attends t fun _ dir memory => Reloading T faultless dir₀ before dir memory := by
  have hboth : S₂.Alone ∧
      S₂.Attends t fun _ dir memory => Reloading T faultless dir₀ before dir memory := by
    refine hrun.invariant (I := fun S => S.Alone ∧
      S.Attends t fun _ dir memory => Reloading T faultless dir₀ before dir memory) ⟨halone, h⟩ ?_
    rintro x a y ⟨halone, h⟩ ha hstep
    refine ⟨halone.step hstep, ?_⟩
    apply h.step (fun o => faultless → o.fails = false) halone Reloading.critical
    · exact fun hok hreloading hwork => hreloading.criticalStep hok hwork
    · exact hguard a ha
    · rintro o rfl
      exact hfaultless o ha
    · exact hstep
  exact hboth.2

/-- An attended reload that is about to answer. -/
theorem Store.Attends.unlocking {P : ℕ → Option Directory → Registry → OpStage → Prop}
    {result : Except ConfigError (List Change)} (h : S.Attends t P)
    (hstage : S.threads[t]? = some (.unlocking result)) :
    P S.pid S.dir S.memory (.unlocking result) := by
  obtain ⟨stage, hstage', ⟨result', rfl⟩ | ⟨-, hP⟩⟩ := h
  · cases hstage.symm.trans hstage'
  · obtain rfl := Option.some_inj.mp (hstage.symm.trans hstage')
    exact hP

/-- A directory that stores a registry, which may be missing, has no rejected file. -/
theorem DirRepresents.not_rejected (h : DirRepresents T dir agents) :
    ¬Rejected T (dir.getD ∅) name := by
  cases dir with
  | none => exact (Represents.empty T).not_rejected
  | some files =>
    have hfiles : Represents T files agents := h
    exact hfiles.not_rejected

/-- A store with any map in memory and any directory, any run up to the step at which a reload takes
the mutex, and what its answer can be.  With changes, the map in memory is the one that every load
of the directory gives, and the changes are an exact and minimal patch from the old map to it; with
an error, the map is unchanged.  A rejected file makes it an error; without one it is an error only
if an access fails.  And the reload does come to an answer. -/
theorem reload_exactPatch {registry : Registry} {S₁ : Store}
    (hrun : (registrySystem T).Run (fun _ _ => True) (.start dir registry pid) S)
    (hlocking : S.threads[t]? = some (.locking .reload rfl))
    (hlock : (registrySystem T).step S (.advance t o) = some S₁) :
    (∀ S₂, (registrySystem T).Run (fun _ a => a.Survives) S₁ S₂ →
      (∀ changes, S₂.threads[t]? = some (.unlocking (.ok changes)) →
        ExactPatch S.memory S₂.memory changes ∧ ∀ order, Lists S.dir order →
          S.memory.reload (load T S.dir order) = .ok (S₂.memory, changes)) ∧
      (∀ e, S₂.threads[t]? = some (.unlocking (.error e)) → S₂.memory = S.memory) ∧
      ∀ name result, Rejected T (S.dir.getD ∅) name →
        S₂.threads[t]? = some (.unlocking result) → ∃ e, result = .error e) ∧
    ((∀ name, ¬Rejected T (S.dir.getD ∅) name) → ∀ S₂ result,
      (registrySystem T).Run (fun _ a => a.SparesThread t) S₁ S₂ →
        S₂.threads[t]? = some (.unlocking result) → ∃ changes, result = .ok changes) ∧
    S₁.Answers T t := by
  have halone : S.Alone :=
    hrun.invariant (I := Store.Alone) (by simp [Store.Alone, Store.start]) fun _ _ _ h _ hstep =>
      h.step hstep
  have halone₁ : S₁.Alone := halone.step hlock
  -- the reload has just taken the mutex
  obtain ⟨hnone, rfl⟩ : S.mutation = none ∧
      S₁ = { S with mutation := some t, threads := S.threads.set t (.checking .reload rfl) } := by
    have hbind : S.threads[t]?.bind (S.advance T t o) = some S₁ := hlock
    rw [hlocking, Option.bind_some] at hbind
    simp only [Store.advance] at hbind
    split at hbind
    · rename_i hnone
      exact ⟨hnone, (Option.some_inj.mp hbind).symm⟩
    · cases hbind
  have hattends : ∀ faultless : Prop, Store.Attends t
      (fun _ dir memory => Reloading T faultless S.dir S.memory dir memory)
      { S with mutation := some t, threads := S.threads.set t (.checking .reload rfl) } :=
    fun _ => ⟨_, getElem?_set_self_of_mem hlocking, .inr ⟨rfl, rfl, rfl, rfl⟩⟩
  refine ⟨fun S₂ hrest => ?_, fun hnot S₂ result hrest hresult => ?_, ?_⟩
  · have h := Reloading.attends (fun _ ha => ha) (fun _ _ => False.elim) hrest halone₁
      (hattends False)
    refine ⟨fun changes hchanges => ?_, fun e he => ?_, fun name result hrejected hresult => ?_⟩
    · obtain ⟨hdir, rfl⟩ := h.unlocking hchanges
      refine ⟨Registry.exactPatch_diff _ _, fun order horder => ?_⟩
      rw [(load_eq_ok_iff horder).mpr hdir]
      rfl
    · exact (h.unlocking he).1
    · cases result with
      | error e => exact ⟨e, rfl⟩
      | ok changes => exact absurd hrejected (h.unlocking hresult).1.not_rejected
  · have h := Reloading.attends (fun _ ha => ha.survives) (fun _ ha _ => ha rfl) hrest halone₁
      (hattends True)
    cases result with
    | ok changes => exact ⟨changes, rfl⟩
    | error e =>
      obtain ⟨name, hrejected⟩ := (h.unlocking hresult).2 trivial
      exact absurd hrejected (hnot name)
  · exact Store.answers_of_checking (getElem?_set_self_of_mem hlocking)

namespace Sample

/-- The directory with the file of the sample agent. -/
def directory : Directory := (∅ : Directory).insert (fileName agent) contents

/-- The map in memory says that the agent may run two handlers; the thread `0` is about to lock. -/
def beforeReload : Store :=
  ((registrySystem toml).exec (fun _ _ => True) (.start (some directory) (registry (config 2)) 7)
    (.call .reload :: works 1)).get (by decide +kernel)

/-- The reload has taken the mutex. -/
def reloading : Store :=
  ((registrySystem toml).exec (fun _ _ => True) beforeReload (works 1)).get (by decide +kernel)

/-- The accesses of the reload. -/
def rereads : List StoreAction :=
  works 1 ++ .advance 0 { order := [fileName agent] } :: works 3

/-- The thread `0` gives the mutex back with these changes. -/
def answered (changes : List Change) (S : Store) : Bool :=
  match S.threads[(0 : ℕ)]? with
  | some (.unlocking (.ok changes')) => changes' == changes
  | _ => false

theorem threads_of_answered {changes : List Change} {S : Store} (h : answered changes S = true) :
    S.threads[0]? = some (.unlocking (.ok changes)) := by
  unfold answered at h
  split at h
  · rename_i changes' hstage
    rw [hstage, beq_iff_eq.mp h]
  · cases h

/-- The handler `/h` of the sample agent spelled `//h`. -/
def slashed : AgentConfig :=
  { config with handler := ⟨[47, 47, 104]⟩ }

/-- The contents of a file that spells the handler so. -/
def slashedContents : List UInt8 :=
  "agent_id = \"a\"\nhandler = \"//h\"\nmax_concurrency = 1\nenabled = true\n".toUTF8.data.toList

/-- The directory with that file. -/
def slashedDirectory : Directory := (∅ : Directory).insert (fileName agent) slashedContents

/-- The file format, as far as that file needs it. -/
def slashedToml : Toml where
  toStringPretty c := if c = slashed then some slashedContents else none
  fromStr bytes := if bytes = slashedContents then .ok slashed else .error "TOML parse error"

end Sample

/-- The limit of the sample agent was lowered in its file. -/
theorem reload_exactPatch_limitLowered :
    ∃ S₂, (registrySystem Sample.toml).Run (fun _ a => a.Survives) Sample.reloading S₂ ∧
      ExactPatch (Sample.registry (Sample.config 2)) S₂.memory [.updated Sample.config] ∧
      S₂.memory.get Sample.agent = some Sample.config := by
  have hrun : (registrySystem Sample.toml).Run (fun _ _ => True)
      (.start (some Sample.directory) (Sample.registry (Sample.config 2)) 7) Sample.beforeReload :=
    run_exec_get _
  have hlock : (registrySystem Sample.toml).step Sample.beforeReload (.advance 0 {}) =
      some Sample.reloading := rfl
  obtain ⟨S₂, hrest, hend⟩ := exists_run_of_exec (registrySystem Sample.toml)
    (fun _ a => a.Survives) Sample.reloading Sample.rereads
    (fun S => Sample.answered [.updated Sample.config] S &&
      S.memory.get Sample.agent == some Sample.config) (by decide +kernel)
  simp only [Bool.and_eq_true, beq_iff_eq] at hend
  obtain ⟨hanswered, hget⟩ := hend
  have hpatch := (reload_exactPatch hrun rfl hlock).1 S₂ hrest
  exact ⟨S₂, hrest, (hpatch.1 _ (Sample.threads_of_answered hanswered)).1, hget⟩

/-- A handler path that is spelled differently and compares equal is loaded and not reported. -/
theorem reload_leaves_spelling_unreported :
    ¬∀ (T : Toml) (dir : Option Directory) (order : List String) (r r' : Registry)
        (changes : List Change), Lists dir order →
      r.reload (load T dir order) = .ok (r', changes) →
        (changes.foldl Change.applyTo r.agents = r'.agents) ∧
        ∀ id, (∃ ch ∈ changes, ch.agentId = id) ↔ r.get id ≠ r'.get id := by
  intro h
  have hlists : Lists (some Sample.slashedDirectory) [fileName Sample.agent] := by decide +kernel
  have hreload : (Sample.registry Sample.config).reload
      (load Sample.slashedToml (some Sample.slashedDirectory) [fileName Sample.agent]) =
      .ok (Sample.registry Sample.slashed, []) := by decide +kernel
  obtain ⟨happlied, -⟩ := h _ _ _ _ _ _ hlists hreload
  exact absurd happlied (by decide +kernel)

end Agentd
