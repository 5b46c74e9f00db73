import Agentd.Daemon.LoopTable
import Agentd.Daemon.Reconcile

/-!
# Live operation and restart

The daemon that has served any sequence of operations, one at a time, pulls for the same agents as
the one that is started anew on the resulting registry: for the registered and enabled ones.  The
invariant is that the operation under way leads to the enabled agents of the registry
(`InStep`).

This needs that no operation adds a disabled agent.  The startup and an update look at the flag
before they bind; the relay binds for an `Added` whatever the flag says.
-/

namespace Agentd

open TransitionSystem TaskPool

variable {C : DispatcherConfig} {D D' D₁ : Daemon} {agent : AgentId}

/-! ## What an operation reports -/

namespace Registry

variable {r fresh : Registry} {c : AgentConfig}

/-- An entry that a diff does not report has kept its flag. -/
theorem enabled_of_diffEntry_none
    (h : diffEntry agent (r.get agent) (fresh.get agent) = none) :
    fresh.Enabled agent ↔ r.Enabled agent := by
  unfold Enabled
  cases hold : r.get agent with
  | none =>
    cases hnew : fresh.get agent with
    | none => exact Iff.rfl
    | some b => simp [hold, hnew, diffEntry] at h
  | some a =>
    cases hnew : fresh.get agent with
    | none => simp [hold, hnew, diffEntry] at h
    | some b =>
      simp only [hold, hnew, diffEntry] at h
      split at h
      · cases h
      · rename_i hflag
        have hsame : a.enabled = b.enabled := by simpa using hflag
        simp [hsame]

/-- Inserting an entry makes its agent enabled as the entry says. -/
theorem enabled_insert_self {hvalid : c.validate = .ok ()} :
    (r.insert c hvalid).Enabled c.agentId ↔ c.enabled = true := by
  simp [Enabled]

theorem enabled_insert_of_ne {hvalid : c.validate = .ok ()} (hne : agent ≠ c.agentId) :
    (r.insert c hvalid).Enabled agent ↔ r.Enabled agent := by
  simp [Enabled, get_insert_of_ne hvalid hne]

/-- The entries of a snapshot are those of different agents. -/
theorem snapshot_pairwise (r : Registry) :
    r.snapshot.Pairwise fun a b => a.agentId ≠ b.agentId := by
  unfold snapshot
  refine List.Pairwise.filterMap _ ?_ (Finset.sort_nodup _ _)
  intro id id' hne a ha b hb
  rwa [agentId_of_get ha, agentId_of_get hb]

end Registry

/-- The operation adds no disabled agent. -/
def ControlOp.AddsEnabled (op : ControlOp) (r : Registry) (o : ServeOutcome) : Prop :=
  match op with
  | .register c => r.get c.agentId = none → c.enabled = true
  | .reload => ∀ fresh ∈ o.load.toOption, ∀ c ∈ fresh.snapshot, r.get c.agentId = none →
      c.enabled = true
  | .update _ | .unregister _ => True

/-- An operation that adds no disabled agent reports, for each agent whose flag it changes, the
change that brings its loops in line. -/
theorem ControlOp.perform_leads {op : ControlOp} {r r' : Registry} {o : ServeOutcome}
    {changes : List Change} (h : op.perform r o = .ok (r', changes)) (hadds : op.AddsEnabled r o) :
    (changes.Pairwise fun a b => a.agentId ≠ b.agentId) ∧
      (∀ ch ∈ changes, r'.Enabled ch.agentId ↔ ch.Launches r') ∧
      ∀ agent, (∀ ch ∈ changes, ch.agentId ≠ agent) → (r'.Enabled agent ↔ r.Enabled agent) := by
  cases op.performs h with
  | register hnew hvalid =>
    refine ⟨List.pairwise_singleton _ _, ?_, ?_⟩
    · intro ch hch
      rw [List.mem_singleton.mp hch]
      exact iff_of_true (Registry.enabled_insert_self.mpr (hadds hnew)) trivial
    · intro agent hnone
      exact Registry.enabled_insert_of_ne (hnone _ (List.mem_singleton_self _)).symm
  | update hold hvalid =>
    refine ⟨List.pairwise_singleton _ _, ?_, ?_⟩
    · intro ch hch
      rw [List.mem_singleton.mp hch]
      exact Iff.rfl
    · intro agent hnone
      exact Registry.enabled_insert_of_ne (hnone _ (List.mem_singleton_self _)).symm
  | @unregister id hold =>
    refine ⟨List.pairwise_singleton _ _, ?_, ?_⟩
    · intro ch hch
      rw [List.mem_singleton.mp hch]
      simp [Registry.Enabled, Change.Launches, Change.agentId]
    · intro agent hnone
      have hne : agent ≠ id := (hnone _ (List.mem_singleton_self _)).symm
      simp [Registry.Enabled, Registry.get_erase_of_ne hne]
  | reload hload =>
    refine ⟨Registry.diff_pairwise _ _, ?_, ?_⟩
    · intro ch hch
      have hentry := Registry.mem_diff_iff.mp hch
      refine Registry.launches_diffEntry hentry ?_
      rintro c rfl
      obtain ⟨hold, hnew⟩ := Registry.entries_of_added hentry
      refine hadds r' ?_ c (Registry.mem_snapshot.mpr ⟨_, hnew⟩) hold
      rw [hload]
      rfl
    · intro agent hnone
      refine Registry.enabled_of_diffEntry_none (Option.eq_none_iff_forall_not_mem.mpr ?_)
      intro ch hch
      exact hnone ch (Registry.mem_diff.mpr ⟨agent, hch⟩) (Registry.agentId_of_diffEntry hch)

/-! ## The registry and the loops in step -/

/-- A request only arrives when all operations have returned. -/
def Daemon.OneAtATime (D : Daemon) : DaemonAction → Prop
  | .request _ => D.Idle
  | _ => True

/-- An operation that is about to make its registry step adds no disabled agent. -/
def RequestStage.AddsEnabled (stage : RequestStage) (r : Registry) (o : ServeOutcome) : Prop :=
  match stage with
  | .registry op => op.AddsEnabled r o
  | _ => True

/-- The step is not the registry step of an operation that adds a disabled agent. -/
def Daemon.AddsEnabled (D : Daemon) : DaemonAction → Prop
  | .serve r o => ∀ stage ∈ D.requests[r]?, stage.AddsEnabled D.registry o
  | _ => True

/-- The only operation under way, if there is one, leads to the enabled agents of the registry. -/
def Daemon.InStep (D : Daemon) : Prop :=
  ∃ r stage, D.Sole r stage ∧ stage.LeadsTo D D.registry.Enabled

namespace Daemon

variable {r : ℕ} {stage stage' : RequestStage} {o : ServeOutcome} {op : ControlOp}

/-- The registry step of an operation sets the agents it leads to. -/
theorem leadsTo_of_perform
    (h : (RequestStage.registry op).LeadsTo D D.registry.Enabled)
    (hadds : op.AddsEnabled D.registry o)
    (hserve : D.serve o (.registry op) = some (D₁, stage')) :
    stage'.LeadsTo D₁ D₁.registry.Enabled := by
  have hlive := h.live_iff rfl
  simp only [serve] at hserve
  split at hserve
  · rename_i registry changes hperform
    cases hserve
    obtain ⟨hdistinct, hchanges, hrest⟩ := op.perform_leads hperform hadds
    refine .of_dispatcher hdistinct hchanges ?_
    intro agent hnone
    exact (hlive agent).trans (hrest agent hnone).symm
  · cases hserve
    exact .of_nil rfl hlive

/-- The registry and the loops stay in step. -/
theorem InStep.step (h : D.InStep) (htab : D.Tabled) {a : DaemonAction} (ha : a.InService)
    (hbinds : a.Binds) (hone : D.OneAtATime a) (hadds : D.AddsEnabled a)
    (hstep : (daemonSystem C).step D a = some D') : D'.InStep := by
  obtain ⟨r, stage, hsole, hleads⟩ := h
  by_cases hrequest : ∃ op, a = .request op
  · obtain ⟨op, rfl⟩ := hrequest
    have hidle : D.Idle := hone
    obtain ⟨hsole', hworld, hpulls, hloops⟩ := hidle.sole_request hstep
    have hreturned := hidle stage (List.mem_of_getElem? hsole.at_stage)
    refine ⟨_, _, hsole', .of_nil rfl ?_⟩
    intro agent
    have hlive : D'.Live agent ↔ D.Live agent := by
      simp only [Live, loopInfo, hpulls, hloops]
    rw [registry, hworld]
    exact hlive.trans
      (hleads.live_iff (RequestStage.pendingChanges_of_hasReturned hreturned) agent)
  · have hreq : ∀ op, a ≠ .request op := fun op heq => hrequest ⟨op, heq⟩
    rcases hsole.step ha hreq hstep with
      ⟨o, D₁, stage', rfl, hserve, rfl, hsole'⟩ | ⟨hsole', hregistry, hpulls, hlive⟩
    · refine ⟨r, stage', hsole', ?_⟩
      have hleads' : stage'.LeadsTo D₁ D₁.registry.Enabled := by
        by_cases hop : ∃ op, stage = .registry op
        · obtain ⟨op, rfl⟩ := hop
          exact leadsTo_of_perform hleads (hadds _ hsole.at_stage) hserve
        · have hop' : ∀ op, stage ≠ .registry op := fun op heq => hop ⟨op, heq⟩
          rw [(registry_of_serve hop' hserve).2]
          exact hleads.serve htab hsole.at_stage hop' hserve hbinds
      exact hleads'.congr (fun _ => rfl) rfl fun _ => Iff.rfl
    · refine ⟨r, stage, hsole', ?_⟩
      rw [hregistry]
      exact hleads.congr (fun agent => by rw [hregistry]) hpulls hlive

/-- The startup adds the enabled agents of the registry. -/
theorem mem_startup {registry : Registry} {ch : Change} :
    ch ∈ (startup registry).pendingChanges ↔
      ∃ c, ch = .added c ∧ registry.get c.agentId = some c ∧ c.enabled = true := by
  simp only [startup, RequestStage.pendingChanges, List.mem_map, List.mem_filter]
  constructor
  · rintro ⟨c, ⟨hc, hen⟩, rfl⟩
    obtain ⟨id, hget⟩ := Registry.mem_snapshot.mp hc
    have hid := Registry.agentId_of_get hget
    exact ⟨c, rfl, hid ▸ hget, hen⟩
  · rintro ⟨c, rfl, hget, hen⟩
    exact ⟨c, ⟨Registry.mem_snapshot.mpr ⟨_, hget⟩, hen⟩, rfl⟩

/-- The startup has a change for exactly the enabled agents. -/
theorem mem_startup_agents {registry : Registry} :
    (∃ ch ∈ (startup registry).pendingChanges, ch.agentId = agent) ↔ registry.Enabled agent := by
  constructor
  · rintro ⟨ch, hch, rfl⟩
    obtain ⟨c, rfl, hget, hen⟩ := mem_startup.mp hch
    exact ⟨c, hget, hen⟩
  · rintro ⟨c, hget, hen⟩
    have hid := Registry.agentId_of_get hget
    exact ⟨.added c, mem_startup.mpr ⟨c, rfl, hid.symm ▸ hget, hen⟩, hid⟩

/-- The startup leads to the enabled agents of the registry. -/
theorem InStep.start (registry : Registry) (dedup : DedupStore)
    (consumers : AgentId → Option Consumer) : (start registry dedup consumers).InStep := by
  refine ⟨0, startup registry, ⟨rfl, ?_⟩, ?_, ?_, ?_, ?_, ?_⟩
  · intro j s hj hs
    obtain ⟨rfl, -⟩ : j = 0 ∧ startup registry = s := by
      simpa [Daemon.start, List.getElem?_singleton] using hs
    exact absurd rfl hj
  · have hfilter := (Registry.snapshot_pairwise registry).filter AgentConfig.enabled
    exact List.pairwise_map.mpr hfilter
  · intro ch hch
    obtain ⟨c, rfl, hget, hen⟩ := mem_startup.mp hch
    exact iff_of_true ⟨c, hget, hen⟩ trivial
  · intro agent hagent
    simp only [startup] at hagent
    generalize (registry.snapshot.filter AgentConfig.enabled).map Change.added = l at hagent
    cases l <;> cases hagent
  · intro ch rest heq
    simp [startup] at heq
  · intro agent hnone
    refine iff_of_false ?_ ?_
    · rintro ⟨l, hl, -⟩
      cases hl
    · intro hen
      obtain ⟨ch, hch, hag⟩ := mem_startup_agents.mpr hen
      exact hnone ch hch hag

end Daemon

/-- When operations come one at a time, no bind fails and no operation adds a disabled agent, the
agents with a pull loop that was not aborted are, whenever all operations have returned, those that
the startup would bind on the resulting registry: the registered and enabled ones. -/
theorem pulled_iff_enabled {registry : Registry} {dedup : DedupStore}
    {consumers : AgentId → Option Consumer}
    (hrun : (daemonSystem C).Run
      (fun D a => a.InService ∧ a.Binds ∧ D.OneAtATime a ∧ D.AddsEnabled a)
      (.start registry dedup consumers) D)
    (hidle : D.Idle) (agent : AgentId) :
    (D.Pulled agent ↔
      ∃ ch ∈ (Daemon.startup D.registry).pendingChanges, ch.agentId = agent) ∧
    (D.Pulled agent ↔ D.registry.Enabled agent) := by
  have hinv : D.Tabled ∧ D.Accounted ∧ D.shutdown = none ∧ D.InStep := by
    refine hrun.invariant
      (I := fun D => D.Tabled ∧ D.Accounted ∧ D.shutdown = none ∧ D.InStep)
      ⟨Daemon.Tabled.start registry dedup consumers,
        Daemon.Accounted.start registry dedup consumers, rfl,
        Daemon.InStep.start registry dedup consumers⟩ ?_
    rintro x a y ⟨htab, hacc, hnone, hin⟩ ⟨hservice, hbinds, hone, hadds⟩ hstep
    exact ⟨htab.step hservice hstep, hacc.step hstep,
      (Daemon.shutdown_of_step hservice hstep).trans hnone,
      hin.step htab hservice hbinds hone hadds hstep⟩
  obtain ⟨-, hacc, hnone, r, stage, hsole, hleads⟩ := hinv
  have hpulled : D.Pulled agent ↔ D.registry.Enabled agent := by
    have hreturned := hidle stage (List.mem_of_getElem? hsole.at_stage)
    exact (Daemon.pulled_iff_live hacc hidle hnone).trans
      (hleads.live_iff (RequestStage.pendingChanges_of_hasReturned hreturned) agent)
  exact ⟨hpulled.trans Daemon.mem_startup_agents.symm, hpulled⟩

instance (op : ControlOp) (r : Registry) (o : ServeOutcome) : Decidable (op.AddsEnabled r o) :=
  match op with
  | .register c => inferInstanceAs (Decidable (r.get c.agentId = none → c.enabled = true))
  | .reload => inferInstanceAs (Decidable (∀ fresh ∈ o.load.toOption, ∀ c ∈ fresh.snapshot,
      r.get c.agentId = none → c.enabled = true))
  | .update _ | .unregister _ => inferInstanceAs (Decidable True)

instance (stage : RequestStage) (r : Registry) (o : ServeOutcome) :
    Decidable (stage.AddsEnabled r o) :=
  match stage with
  | .registry op => inferInstanceAs (Decidable (op.AddsEnabled r o))
  | .dispatcher _ | .relay .. | .returned _ => inferInstanceAs (Decidable True)

instance (D : Daemon) : DecidablePred D.OneAtATime
  | .request _ => inferInstanceAs (Decidable D.Idle)
  | .poll .. | .pull .. | .send .. | .settle .. | .serve .. | .shutdown | .stop _ | .join _
  | .restart .. => inferInstanceAs (Decidable True)

instance (D : Daemon) : DecidablePred D.AddsEnabled
  | .serve r o =>
    inferInstanceAs (Decidable (∀ stage ∈ D.requests[r]?, stage.AddsEnabled D.registry o))
  | .poll .. | .pull .. | .send .. | .settle .. | .request _ | .shutdown | .stop _ | .join _
  | .restart .. => inferInstanceAs (Decidable True)

namespace Sample

/-- The agent is disabled by an update; then its file is changed, and the reload finds it enabled.
-/
def disableAndReload : List DaemonAction :=
  serves 0 5 ++ [.request (.update (config 1 false false))] ++ serves 1 5 ++ [.request .reload] ++
    reloads 2 7 (config 2 true)

/-- A disabled agent is registered. -/
def registerDisabled : List DaemonAction :=
  serves 0 1 ++ [.request (.register (config 1 false false))] ++ serves 1 7

end Sample

theorem pulled_iff_enabled_disableAndReload :
    ∃ D, (daemonSystem Sample.dispatcherConfig).Run
        (fun D a => a.InService ∧ a.Binds ∧ D.OneAtATime a ∧ D.AddsEnabled a)
        (.start (Sample.registry Sample.config) .empty fun _ => none) D ∧ D.Idle ∧
      D.registry.Enabled Sample.agent ∧ D.Pulled Sample.agent := by
  obtain ⟨D, hrun, hend⟩ := exists_run_of_exec (daemonSystem Sample.dispatcherConfig)
    (fun D a => a.InService ∧ a.Binds ∧ D.OneAtATime a ∧ D.AddsEnabled a)
    (.start (Sample.registry Sample.config) .empty fun _ => none) Sample.disableAndReload
    (fun D => decide (D.Idle ∧ D.registry.Enabled Sample.agent)) (by decide +kernel)
  obtain ⟨hidle, hen⟩ := of_decide_eq_true hend
  exact ⟨D, hrun, hidle, hen, (pulled_iff_enabled hrun hidle Sample.agent).2.mpr hen⟩

/-- A disabled agent that is registered gets a pull loop, which it would not get at a restart. -/
theorem disabled_agent_pulled :
    ¬∀ (C : DispatcherConfig) (registry : Registry) (dedup : DedupStore)
        (consumers : AgentId → Option Consumer) (D : Daemon) (agent : AgentId),
      (daemonSystem C).Run (fun D a => a.InService ∧ a.Binds ∧ D.OneAtATime a)
        (.start registry dedup consumers) D →
      D.Idle → (D.Pulled agent ↔ D.registry.Enabled agent) := by
  intro h
  obtain ⟨D, hrun, hend⟩ := exists_run_of_exec (daemonSystem Sample.dispatcherConfig)
    (fun D a => a.InService ∧ a.Binds ∧ D.OneAtATime a)
    (.start .empty .empty fun _ => none) Sample.registerDisabled
    (fun D => decide (D.Idle ∧ ¬D.registry.Enabled Sample.agent ∧
      D.loopInfo 0 = some (Sample.agent, false))) (by decide +kernel)
  obtain ⟨hidle, hdis, hloop⟩ := of_decide_eq_true hend
  exact hdis ((h _ _ _ _ D Sample.agent hrun hidle).mp ⟨0, hloop⟩)

end Agentd
