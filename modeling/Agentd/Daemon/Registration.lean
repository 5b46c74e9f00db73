import Agentd.Daemon.Steps
import Agentd.Dispatcher.Update
import Agentd.Dispatcher.History

/-!
# Deliveries under registration changes

What does a change of the registration mean for the deliveries under way?  A control operation has
returned once the registry, the dispatcher and the relay have all carried it out, but none of them
recalls a dispatch that has read the old registration, nor a message that was pulled before.

The handler started is the registered one as long as no operation writes an agent's entry between
the registration check of one of its dispatches and the spawn.  A message of an agent that is
missing or disabled at the registration check of its dispatch is terminated, whenever it was
pulled.
-/

namespace Agentd

open TransitionSystem TaskPool History

variable {C : DispatcherConfig} {D D' : Daemon}

/-- No shutdown and no crash. -/
def DaemonAction.InService : DaemonAction → Prop
  | .shutdown | .stop _ | .join _ | .restart .. => False
  | _ => True

instance : DecidablePred DaemonAction.InService
  | .shutdown | .stop _ | .join _ | .restart .. => inferInstanceAs (Decidable False)
  | .poll .. | .pull .. | .send .. | .settle .. | .request _ | .serve .. =>
    inferInstanceAs (Decidable True)

/-- All control operations have returned. -/
def Daemon.Idle (D : Daemon) : Prop := ∀ stage ∈ D.requests, stage.hasReturned = true

instance (D : Daemon) : Decidable D.Idle :=
  inferInstanceAs (Decidable (∀ stage ∈ D.requests, stage.hasReturned = true))

/-! ## The handler -/

/-- The step writes no entry of the registry under a dispatch that has read it and may still
spawn. -/
def Daemon.SettledWrite (D : Daemon) (a : DaemonAction) : Prop :=
  ∀ b ∈ D.worldAction a, D.world.SettledWrite b

instance (D : Daemon) (a : DaemonAction) : Decidable (D.SettledWrite a) :=
  inferInstanceAs (Decidable (∀ b ∈ D.worldAction a, D.world.SettledWrite b))

/-- A step of the daemon that emits something is a step of the dispatcher. -/
theorem Daemon.step_world_of_emitted {a : DaemonAction} {em : Emission}
    (hstep : (daemonSystem C).step D a = some D')
    (htrace : D'.world.trace = em :: D.world.trace) :
    ∃ b, (dispatchSystem C).step D.world b = some D'.world := by
  rcases Daemon.step_world hstep with hsame | ⟨b, -, hb⟩
  · rw [hsame] at htrace
    exact absurd htrace.symm (List.cons_ne_self _ _)
  · exact ⟨b, hb⟩

/-- When no operation writes an agent's entry between the registration check of one of its
dispatches and the spawn, every handler started is the one registered at that moment, for an
enabled agent. -/
theorem spawned_handler_is_registered {registry : Registry} {dedup : DedupStore}
    {consumers : AgentId → Option Consumer} {a : DaemonAction} {em : Emission} {event : String}
    {command : Command}
    (hrun : (daemonSystem C).Run (fun D a => D.SettledWrite a) (.start registry dedup consumers) D)
    (hstep : (daemonSystem C).step D a = some D')
    (htrace : D'.world.trace = em :: D.world.trace)
    (hspawned : em.effect = .spawned event command) :
    ∃ config, D.registry.get em.delivery.agent = some config ∧ config.enabled = true ∧
      command.program = config.handler ∧ command.currentDir = config.workingDirectory := by
  have hworld : (dispatchSystem C).Run (fun w b => w.SettledWrite b) (.start registry dedup)
      D.world := Daemon.run_world hrun fun _ _ hok => hok
  have hcurrent : D.world.Current :=
    hworld.invariant (World.Current.start registry dedup) fun _ _ _ h hok hstep => h.step hok hstep
  obtain ⟨b, hb⟩ := Daemon.step_world_of_emitted hstep htrace
  exact hcurrent.of_spawned hb htrace hspawned

namespace Sample

/-- The first dispatch is about to spawn, and its agent and the registration it has read pass the
test. -/
def aboutToSpawn (test : AgentId → AgentConfig → Bool) (D : Daemon) : Bool :=
  match (D.world.tasks[0]? : Option Task) with
  | some ⟨d, .slot job _ .spawn⟩ => test d.agent job.config
  | _ => false

/-- The next access of such a dispatch spawns the handler of that registration. -/
theorem spawned_of_aboutToSpawn {test : AgentId → AgentConfig → Bool}
    (h : aboutToSpawn test D = true) :
    ∃ D' em event command config, (daemonSystem C).step D (.poll 0 {}) = some D' ∧
      D'.world.trace = em :: D.world.trace ∧ em.effect = .spawned event command ∧
      command.program = config.handler ∧ test em.delivery.agent config = true := by
  unfold aboutToSpawn at h
  split at h
  · rename_i d job permits htask
    let command := Command.forEvent job.config job.envelope d
    let world := D.world.commit 0 ⟨d, .slot job permits .spawn⟩ D.world.dispatcher
      (.slot job permits .wait) [.spawned job.envelope.eventId command]
    have hstep : World.step C D.world (.poll 0 {}) = some world := by
      simp [World.step, htask, Dispatcher.poll, Dispatcher.pollSlot, world, command]
    refine ⟨{ D with world }, ⟨0, d, _⟩, job.envelope.eventId, command, job.config, ?_, rfl, rfl,
      rfl, h⟩
    simp only [daemonSystem, Daemon.step, hstep, Option.map_some]
  · cases h

/-- The handler of the agent is swapped before the dispatch of its first message is polled, and
the dispatch goes up to the spawn. -/
def swapBeforeCheck : List DaemonAction :=
  pullFirst ++ [.request (.update (config 1 true))] ++ serves 1 8 ++ dispatches 0 5

/-- The handler of the agent is swapped while the dispatch of its first message is about to
spawn. -/
def swapBeforeSpawn : List DaemonAction :=
  pullFirst ++ dispatches 0 5 ++ [.request (.update (config 1 true))] ++ serves 1 8

end Sample

theorem spawned_handler_is_registered_swapBeforeCheck :
    ∃ D D' em event command, (daemonSystem Sample.dispatcherConfig).Run
        (fun D a => D.SettledWrite a)
        (.start (Sample.registry Sample.config) .empty fun _ => none) D ∧
      (daemonSystem Sample.dispatcherConfig).step D (.poll 0 {}) = some D' ∧
      D'.world.trace = em :: D.world.trace ∧ em.effect = .spawned event command ∧
      ∃ config, D.registry.get em.delivery.agent = some config ∧ config.enabled = true ∧
        command.program = config.handler ∧ command.currentDir = config.workingDirectory := by
  obtain ⟨D, hrun, hend⟩ := exists_run_of_exec (daemonSystem Sample.dispatcherConfig)
    (fun D a => D.SettledWrite a) (.start (Sample.registry Sample.config) .empty fun _ => none)
    Sample.swapBeforeCheck
    (Sample.aboutToSpawn fun _ config => config.handler != Sample.handler false)
    (by decide +kernel)
  obtain ⟨D', em, event, command, config, hstep, htrace, hspawned, -, -⟩ :=
    Sample.spawned_of_aboutToSpawn hend
  exact ⟨D, D', em, event, command, hrun, hstep, htrace, hspawned,
    spawned_handler_is_registered hrun hstep htrace hspawned⟩

/-- An update that comes between the registration check of a dispatch and its spawn, and that has
returned by then, does not keep the dispatch from starting the old handler. -/
theorem old_handler_started_after_update :
    ¬∀ (C : DispatcherConfig) (registry : Registry) (dedup : DedupStore)
        (consumers : AgentId → Option Consumer) (D D' : Daemon) (a : DaemonAction) (em : Emission)
        (event : String) (command : Command),
      (daemonSystem C).Run (fun _ a => a.InService) (.start registry dedup consumers) D →
      D.Idle → (daemonSystem C).step D a = some D' → D'.world.trace = em :: D.world.trace →
      em.effect = .spawned event command →
        ∃ config, D.registry.get em.delivery.agent = some config ∧ config.enabled = true ∧
          command.program = config.handler ∧ command.currentDir = config.workingDirectory := by
  intro h
  obtain ⟨D, hrun, hend⟩ := exists_run_of_exec (daemonSystem Sample.dispatcherConfig)
    (fun _ a => a.InService) (.start (Sample.registry Sample.config) .empty fun _ => none)
    Sample.swapBeforeSpawn
    (fun D => decide D.Idle && Sample.aboutToSpawn
      (fun agent config => (D.registry.get agent).all (·.handler != config.handler)) D)
    (by decide +kernel)
  obtain ⟨hidle, hend⟩ := Bool.and_eq_true_iff.mp hend
  obtain ⟨D', em, event, command, config, hstep, htrace, hspawned, hprogram, hother⟩ :=
    Sample.spawned_of_aboutToSpawn hend
  obtain ⟨config', hget, -, hprogram', -⟩ :=
    h _ _ _ _ D D' _ em event command hrun (of_decide_eq_true hidle) hstep htrace hspawned
  rw [hget, Option.all_some, bne_iff_ne] at hother
  exact hother (hprogram'.symm.trans hprogram)

/-! ## Terms -/

/-- A delivery that carries an event of its agent is terminated only after its dispatch failed to
spawn the handler or found the agent missing or disabled, and it reports the latter only when the
registry says so at that moment. -/
theorem termed_only_when_turned_away {registry : Registry} {dedup : DedupStore}
    {consumers : AgentId → Option Consumer}
    (hrun : (daemonSystem C).Run (fun _ _ => True) (.start registry dedup consumers) D) :
    (∀ em past envelope, em :: past <:+ D.world.trace → em.effect = .termed →
      em.delivery.Carries C envelope → TurnedAway em.task em.delivery past) ∧
    ∀ a D' em, (daemonSystem C).step D a = some D' → D'.world.trace = em :: D.world.trace →
      (em.effect = .unregistered → D.registry.get em.delivery.agent = none) ∧
      (em.effect = .disabled → ∃ config,
        D.registry.get em.delivery.agent = some config ∧ config.enabled = false) := by
  have hworld : (dispatchSystem C).Run (fun _ _ => True) (.start registry dedup) D.world :=
    Daemon.run_world hrun fun _ _ _ _ _ => trivial
  have hterms : TermsExplained C D.world :=
    hworld.invariant (TermsExplained.start registry dedup) fun _ _ _ h _ hstep => h.step hstep
  constructor
  · intro em past envelope hsuffix hterm hd
    exact hterms.every.of_suffix hsuffix envelope hterm hd
  · intro a D' em hstep htrace
    obtain ⟨b, hb⟩ := Daemon.step_world_of_emitted hstep htrace
    exact World.registry_of_emitted hb htrace

namespace Sample

/-- The agent is unregistered after its first message was pulled, its dispatch checks the
registration, and the agent is registered again. -/
def unregisterWhilePulled : List DaemonAction :=
  pullFirst ++ [.request (.unregister agent)] ++ serves 1 1 ++ dispatches 0 2 ++ serves 1 3 ++
    [.request (.register config)] ++ serves 2 6

/-- One delivery was handled, it carries an event, and it was terminated because its agent was not
registered. -/
def termedAfterUnregistered (D : Daemon) : Bool :=
  match D.world.trace with
  | [⟨t, d, .termed⟩, ⟨t', d', .unregistered⟩] =>
    t == t' && d == d' && (d.envelope? dispatcherConfig).isSome
  | _ => false

theorem trace_of_termedAfterUnregistered (h : termedAfterUnregistered D = true) :
    ∃ t d envelope, D.world.trace = [⟨t, d, .termed⟩, ⟨t, d, .unregistered⟩] ∧
      d.Carries dispatcherConfig envelope := by
  unfold termedAfterUnregistered at h
  split at h
  · rename_i t d t' d' htrace
    simp only [Bool.and_eq_true, beq_iff_eq] at h
    obtain ⟨⟨rfl, rfl⟩, hsome⟩ := h
    obtain ⟨envelope, henv⟩ := Option.isSome_iff_exists.mp hsome
    exact ⟨t, d, envelope, htrace, Delivery.carries_iff.mpr henv⟩
  · cases h

end Sample

theorem termed_only_when_turned_away_unregisterWhilePulled :
    ∃ D em past, (daemonSystem Sample.dispatcherConfig).Run (fun _ _ => True)
        (.start (Sample.registry Sample.config) .empty fun _ => none) D ∧
      em :: past <:+ D.world.trace ∧ em.effect = .termed ∧
      TurnedAway em.task em.delivery past := by
  obtain ⟨D, hrun, hend⟩ := exists_run_of_exec (daemonSystem Sample.dispatcherConfig)
    (fun _ _ => True) (.start (Sample.registry Sample.config) .empty fun _ => none)
    Sample.unregisterWhilePulled Sample.termedAfterUnregistered (by decide +kernel)
  obtain ⟨t, d, envelope, htrace, hd⟩ := Sample.trace_of_termedAfterUnregistered hend
  have hsuffix : ⟨t, d, .termed⟩ :: [⟨t, d, .unregistered⟩] <:+ D.world.trace :=
    htrace ▸ List.suffix_rfl
  exact ⟨D, _, _, hrun, hsuffix, rfl,
    (termed_only_when_turned_away hrun).1 _ _ envelope hsuffix rfl hd⟩

/-- A message that was pulled while its agent was enabled is terminated because the agent is
unregistered when its dispatch is polled, although the agent is registered again later. -/
theorem termed_while_unregistered :
    ¬∀ (C : DispatcherConfig) (registry : Registry) (dedup : DedupStore)
        (consumers : AgentId → Option Consumer) (D : Daemon) (em : Emission)
        (past : List Emission) (envelope : EventEnvelope),
      (daemonSystem C).Run (fun _ a => a.InService) (.start registry dedup consumers) D →
      em :: past <:+ D.world.trace → em.effect = .termed → em.delivery.Carries C envelope →
        ∃ em' ∈ past, em'.task = em.task ∧ em'.delivery = em.delivery ∧
          ∃ event, em'.effect = .spawnFailed event := by
  intro h
  obtain ⟨D, hrun, hend⟩ := exists_run_of_exec (daemonSystem Sample.dispatcherConfig)
    (fun _ a => a.InService) (.start (Sample.registry Sample.config) .empty fun _ => none)
    Sample.unregisterWhilePulled
    (fun D => Sample.termedAfterUnregistered D &&
      ((D.registry.get Sample.agent).any AgentConfig.enabled)) (by decide +kernel)
  obtain ⟨hend, -⟩ := Bool.and_eq_true_iff.mp hend
  obtain ⟨t, d, envelope, htrace, hd⟩ := Sample.trace_of_termedAfterUnregistered hend
  have hsuffix : ⟨t, d, .termed⟩ :: [⟨t, d, .unregistered⟩] <:+ D.world.trace :=
    htrace ▸ List.suffix_rfl
  obtain ⟨em', hmem, -, -, event, hfail⟩ := h _ _ _ _ D _ _ envelope hrun hsuffix rfl hd
  obtain rfl := List.mem_singleton.mp hmem
  cases hfail

end Agentd
