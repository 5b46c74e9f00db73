import Agentd.Dispatcher.Slots

/-!
# Updates of a registration

What remains of an old registration after it was replaced?  A dispatch, and a call of `available`,
reads the registration once and goes on with what it read; nothing later compares it with the
registry.

The first part is about the concurrency limit.  After `apply_changes` the agent has no state, and
the state it then gets has the new limit exactly when the access that creates it carries that
limit (`RecreatesWith`).  The second part is about the handler: a dispatch spawns what it read, so
every start uses the current registration as long as no registry write changes the entry of an
agent between the read and the spawn of one of its dispatches (`SettledWrite`).
-/

namespace Agentd

open TransitionSystem TaskPool

variable {C : DispatcherConfig} {w w' : World} {D D' : Dispatcher} {agent : AgentId}
  {t : ℕ} {d : Delivery} {o : Outcome} {s s' : Stage} {effects : List Effect}

/-! ## The concurrency limit after an update -/

/-- No change of the agent's registration or state, and no crash. -/
def World.Spares (agent : AgentId) (w : World) : Action → Prop
  | .setRegistry registry => registry.get agent = w.dispatcher.registry.get agent
  | .applyChanges changes => agent ∉ changes.map Change.agentId
  | .restart .. => False
  | _ => True

instance (agent : AgentId) (w : World) : DecidablePred (w.Spares agent)
  | .setRegistry registry =>
    inferInstanceAs (Decidable (registry.get agent = w.dispatcher.registry.get agent))
  | .applyChanges changes => inferInstanceAs (Decidable (agent ∉ changes.map Change.agentId))
  | .restart .. => inferInstanceAs (Decidable False)
  | .deliver _ | .poll .. | .call _ | .pollCall _ | .purge .. => inferInstanceAs (Decidable True)

instance (D : Dispatcher) (n : ℕ) : DecidablePred (Stage.Creates D n)
  | .configured job => inferInstanceAs (Decidable (job.config.maxConcurrency.toNat = n))
  | .slot _ permits .check =>
    inferInstanceAs (Decidable ((Semaphore.sizes D.semaphores)[permits]? = some n))
  | .slot _ _ .lookup | .slot _ _ .hit | .slot _ _ .spawn | .slot _ _ .wait | .slot _ _ .mark
  | .slot _ _ .remove | .slot _ _ .ack | .slot _ _ .abort | .slot _ _ .term | .slot _ _ .release
  | .received | .rejected | .waiting .. | .finished => inferInstanceAs (Decidable True)

instance (n : ℕ) : DecidablePred (CallStage.Creates n)
  | .configured config => inferInstanceAs (Decidable (config.maxConcurrency.toNat = n))
  | .start | .counting _ | .done _ => inferInstanceAs (Decidable True)

/-- If the access gives the agent a state, then with a semaphore of size `n`. -/
def World.RecreatesWith (agent : AgentId) (n : ℕ) (w : World) : Action → Prop
  | .poll t _ => w.dispatcher.permitsOf agent = none →
      ∀ task ∈ w.tasks[t]?, task.delivery.agent = agent → task.stage.Creates w.dispatcher n
  | .pollCall c => w.dispatcher.permitsOf agent = none →
      ∀ call ∈ w.calls[c]?, call.agent = agent → call.stage.Creates n
  | _ => True

instance (agent : AgentId) (n : ℕ) (w : World) : DecidablePred (w.RecreatesWith agent n)
  | .poll t _ => inferInstanceAs (Decidable (w.dispatcher.permitsOf agent = none →
      ∀ task ∈ w.tasks[t]?, task.delivery.agent = agent → task.stage.Creates w.dispatcher n))
  | .pollCall c => inferInstanceAs (Decidable (w.dispatcher.permitsOf agent = none →
      ∀ call ∈ w.calls[c]?, call.agent = agent → call.stage.Creates n))
  | .deliver _ | .call _ | .setRegistry _ | .applyChanges _ | .purge .. | .restart .. =>
    inferInstanceAs (Decidable True)

/-- Without a change of the agent, its entry in the registry stays. -/
theorem World.get_of_spares {a : Action} (hspares : w.Spares agent a)
    (hstep : (dispatchSystem C).step w a = some w') :
    w'.dispatcher.registry.get agent = w.dispatcher.registry.get agent := by
  cases a with
  | poll t o =>
    obtain ⟨d, s, D', s', effects, -, hpoll, rfl⟩ := World.step_poll hstep
    exact congrArg (·.get agent) hpoll.registry_eq
  | pollCall c =>
    obtain ⟨agent', s, D', s', -, hpoll, rfl⟩ := World.step_pollCall hstep
    exact congrArg (·.get agent) hpoll.registry_eq
  | setRegistry registry =>
    cases hstep
    exact hspares
  | restart => exact hspares.elim
  | _ =>
    cases hstep
    rfl

/-- The agent is registered with the given configuration, and the semaphore in its state, if it
has one, has the size of the configured limit. -/
structure UpToDate (agent : AgentId) (config : AgentConfig) (w : World) : Prop where
  /-- The registration. -/
  registered : w.dispatcher.registry.get agent = some config
  /-- The size of the semaphore. -/
  sized : w.dispatcher.Sized agent config.maxConcurrency.toNat

/-- Without a change of the agent, its state stays up to date when it is created so. -/
theorem UpToDate.step {config : AgentConfig} (h : UpToDate agent config w) {a : Action}
    (hspares : w.Spares agent a) (hcreate : w.RecreatesWith agent config.maxConcurrency.toNat a)
    (hstep : (dispatchSystem C).step w a = some w') : UpToDate agent config w' := by
  have hreg := World.get_of_spares hspares hstep
  cases a with
  | poll t o =>
    obtain ⟨d, s, D', s', effects, htask, hpoll, rfl⟩ := World.step_poll hstep
    have hsized : D'.Sized agent config.maxConcurrency.toNat :=
      h.sized.poll hpoll fun hag hnone => hcreate hnone _ htask hag
    exact ⟨hreg.trans h.registered, hsized⟩
  | pollCall c =>
    obtain ⟨agent', s, D', s', hcall, hpoll, rfl⟩ := World.step_pollCall hstep
    have hsized : D'.Sized agent config.maxConcurrency.toNat :=
      h.sized.pollCall hpoll fun hag hnone => hcreate hnone _ hcall hag
    exact ⟨hreg.trans h.registered, hsized⟩
  | setRegistry registry =>
    cases hstep
    exact ⟨hreg.trans h.registered, h.sized⟩
  | applyChanges changes =>
    cases hstep
    exact ⟨hreg.trans h.registered, h.sized.applyChanges changes⟩
  | restart => exact hspares.elim
  | _ =>
    cases hstep
    exact ⟨hreg.trans h.registered, h.sized⟩

/-- When all dispatches of an up-to-date agent have returned, all the slots of its configuration
are available. -/
theorem UpToDate.available_eq {config : AgentConfig} (h : UpToDate agent config w)
    (hen : config.enabled = true) (hacc : w.Accounts) (hsep : w.Separate)
    (hdone : ∀ task ∈ w.tasks, task.delivery.agent = agent → task.stage = .finished) :
    w.dispatcher.available agent = config.maxConcurrency.toNat := by
  rw [Dispatcher.available_eq, h.registered, Option.elim_some, if_pos hen]
  cases hstate : w.dispatcher.states agent with
  | none => rfl
  | some st =>
    -- the semaphore of the state has the right size, and nobody holds a permit of it
    obtain ⟨owner, howner⟩ := hsep
    have hperm : w.dispatcher.permitsOf agent = some st.permits := by
      simp [Dispatcher.permitsOf, hstate]
    have hsize := h.sized st.permits hperm
    simp only [Semaphore.sizes, List.getElem?_map, Option.map_eq_some_iff] at hsize
    obtain ⟨sem, hp, hsize⟩ := hsize
    have hfree : sem.available = sem.size := by
      refine hacc.available_eq_size hp fun i task hi hholds => ?_
      have hag : task.delivery.agent = agent := by
        have htask := (howner.task i task st.permits hi (task.semaphore_of_permit hholds)).2
        exact htask.symm.trans (howner.state agent st.permits hperm).2
      have hfin := hdone task (List.mem_of_getElem? hi) hag
      simp [Task.permit, hfin] at hholds
    simp [Dispatcher.availablePermits, hp, hfree, hsize]

/-- One `update` of the agent from `w₀` on, which has returned by `w₄`: the registry write, the
application of the change, and between and after them any accesses that neither change the agent's
registration nor discard its state; those after the application meet `ok`. -/
inductive Updated (C : DispatcherConfig) (agent : AgentId) (config : AgentConfig)
    (ok : World → Action → Prop) (w₀ w₄ : World) : Prop
  | intro {w₁ w₂ w₃ : World} {registry : Registry}
    (hupdate : w₀.dispatcher.registry.update config (.ok ()) = .ok registry)
    (hwrite : (dispatchSystem C).step w₀ (.setRegistry registry) = some w₁)
    (hduring : (dispatchSystem C).Run (fun w a => w.Spares agent a) w₁ w₂)
    (happly : (dispatchSystem C).step w₂ (.applyChanges [.updated config]) = some w₃)
    (hafter : (dispatchSystem C).Run (fun w a => w.Spares agent a ∧ ok w a) w₃ w₄)

/-- The registry after an update has the new entry. -/
theorem Registry.get_update {r r' : Registry} {config : AgentConfig}
    {outcome : Except ConfigError Unit} (h : r.update config outcome = .ok r') :
    r'.get config.agentId = some config := by
  obtain ⟨-, -, hvalid, rfl⟩ := update_eq_ok h
  exact get_insert_self ..

/-- When every access that gives the agent a state after the change was applied carries the new
limit, the update is not lost: once all dispatches of the agent have returned, as many slots are
available as the new limit says. -/
theorem available_after_update {registry : Registry} {dedup : DedupStore} {w₀ w₄ : World}
    {config : AgentConfig} (hagent : config.agentId = agent) (hen : config.enabled = true)
    (hbefore : (dispatchSystem C).Run (fun _ _ => True) (.start registry dedup) w₀)
    (hupdated : Updated C agent config
      (fun w => w.RecreatesWith agent config.maxConcurrency.toNat) w₀ w₄)
    (hdone : ∀ task ∈ w₄.tasks, task.delivery.agent = agent → task.stage = .finished) :
    w₄.dispatcher.available agent = config.maxConcurrency.toNat := by
  obtain @⟨w₁, w₂, w₃, registry', hupdate, hwrite, hduring, happly, hafter⟩ := hupdated
  -- the whole run, and what holds on every run
  have hrun : (dispatchSystem C).Run (fun _ _ => True) (.start registry dedup) w₄ := by
    have h₁ := hbefore.tail trivial hwrite
    have h₂ := h₁.trans (hduring.mono fun _ _ _ => trivial)
    have h₃ := h₂.tail trivial happly
    exact h₃.trans (hafter.mono fun _ _ _ => trivial)
  have hacc : w₄.Accounts :=
    hrun.invariant (World.Accounts.start registry dedup) fun _ _ _ h _ hstep => h.step hstep
  have hsep : w₄.Separate :=
    hrun.invariant (World.Separate.start registry dedup) fun _ _ _ h _ hstep => h.step hstep
  -- the registration from the write on
  have hreg₁ : w₁.dispatcher.registry.get agent = some config := by
    cases hwrite
    exact hagent ▸ Registry.get_update hupdate
  have hreg₂ : w₂.dispatcher.registry.get agent = some config :=
    hduring.invariant hreg₁ fun _ _ _ h hspares hstep => (World.get_of_spares hspares hstep).trans h
  -- the state from the application on
  have hup₃ : UpToDate agent config w₃ := by
    cases happly
    refine ⟨hreg₂, fun p hp => ?_⟩
    rw [Dispatcher.permitsOf_applyChanges, if_pos (by simp [Change.agentId, hagent])] at hp
    cases hp
  have hup₄ : UpToDate agent config w₄ :=
    hafter.invariant hup₃ fun _ _ _ h hok hstep => h.step hok.1 hok.2 hstep
  exact hup₄.available_eq hen hacc hsep hdone

namespace Sample

/-- The serial agent is running a handler. -/
def running : World :=
  ((dispatchSystem dispatcherConfig).exec (fun _ _ => True) (.start (registry config) .empty)
    ([.deliver (delivery "e")] ++ polls 0 6)).get (by decide +kernel)

/-- A call of `available` has read the registration of the serial agent. -/
def reading : World :=
  ((dispatchSystem dispatcherConfig).exec (fun _ _ => True) (.start (registry config) .empty)
    [.call Sample.agent, .pollCall 0]).get (by decide +kernel)

/-- The agent is updated to two slots. -/
def widened (w : World) : World :=
  { w with
    dispatcher :=
      { w.dispatcher with registry := registry (config 2) }.applyChanges [.updated (config 2)] }

end Sample

/-- The update is made while a handler of the serial agent is running; then a second event is
handled, and both dispatches return. -/
theorem available_after_update_running :
    ∃ w₀ w₄, Updated Sample.dispatcherConfig Sample.agent (Sample.config 2)
        (fun w => w.RecreatesWith Sample.agent 2) w₀ w₄ ∧
      w₀.tasks.any (fun task => task.running.isSome) = true ∧
      w₄.dispatcher.available Sample.agent = 2 := by
  have hbefore : (dispatchSystem Sample.dispatcherConfig).Run (fun _ _ => True)
      (.start (Sample.registry Sample.config) .empty) Sample.running := run_exec_get _
  have hupdate : Sample.running.dispatcher.registry.update (Sample.config 2) (.ok ()) =
      .ok (Sample.registry (Sample.config 2)) := by decide +kernel
  obtain ⟨w₄, hafter, hdone⟩ := exists_run_of_exec (dispatchSystem Sample.dispatcherConfig)
    (fun w a => w.Spares Sample.agent a ∧ w.RecreatesWith Sample.agent 2 a)
    (Sample.widened Sample.running)
    ([.deliver (Sample.delivery "f" 2)] ++ Sample.polls 1 11 ++ Sample.polls 0 5)
    (fun w => w.tasks.all fun task => task.stage.isFinished) (by decide +kernel)
  have hupdated : Updated Sample.dispatcherConfig Sample.agent (Sample.config 2)
      (fun w => w.RecreatesWith Sample.agent 2) Sample.running w₄ :=
    .intro hupdate rfl .refl rfl hafter
  refine ⟨Sample.running, w₄, hupdated, by decide +kernel, ?_⟩
  have hagent : (Sample.config 2).agentId = Sample.agent := rfl
  refine available_after_update hagent rfl hbefore hupdated fun task hmem _ => ?_
  have hfin := List.all_eq_true.mp hdone task hmem
  unfold Stage.isFinished at hfin
  split at hfin
  · assumption
  · cases hfin

/-- A call of `available` that read the old registration creates the agent's state after the
change was applied: the agent keeps its old limit although the update has returned and nothing is
running. -/
theorem update_lost_to_stale_call :
    ¬∀ (C : DispatcherConfig) (agent : AgentId) (registry : Registry) (dedup : DedupStore)
        (w₀ w₄ : World) (old config : AgentConfig), config.agentId = agent →
      config.enabled = true → (dispatchSystem C).Run (fun _ _ => True) (.start registry dedup) w₀ →
      w₀.dispatcher.registry.get agent = some old → old.enabled = true →
      Updated C agent config (fun _ _ => True) w₀ w₄ →
      (∀ task ∈ w₄.tasks, task.delivery.agent = agent → task.stage = .finished) →
        w₄.dispatcher.available agent = config.maxConcurrency.toNat := by
  intro h
  have hbefore : (dispatchSystem Sample.dispatcherConfig).Run (fun _ _ => True)
      (.start (Sample.registry Sample.config) .empty) Sample.reading := run_exec_get _
  have hupdate : Sample.reading.dispatcher.registry.update (Sample.config 2) (.ok ()) =
      .ok (Sample.registry (Sample.config 2)) := by decide +kernel
  have hold : Sample.reading.dispatcher.registry.get Sample.agent = some Sample.config := by
    decide +kernel
  obtain ⟨w₄, hafter, hend⟩ := exists_run_of_exec (dispatchSystem Sample.dispatcherConfig)
    (fun w a => w.Spares Sample.agent a ∧ True) (Sample.widened Sample.reading)
    [.pollCall 0, .pollCall 0]
    (fun w => w.tasks.isEmpty && w.dispatcher.available Sample.agent == 1) (by decide +kernel)
  obtain ⟨hempty, havail⟩ := Bool.and_eq_true_iff.mp hend
  have htwo := h Sample.dispatcherConfig Sample.agent _ _ Sample.reading w₄ _ (Sample.config 2)
    rfl rfl hbefore hold rfl (.intro hupdate rfl .refl rfl hafter)
    (by simp [List.isEmpty_iff.mp hempty])
  rw [beq_iff_eq.mp havail] at htwo
  exact absurd htwo (by decide)

/-! ## The handler after an update -/

/-- The registration of a dispatch that has read it and may still spawn its handler. -/
def Stage.pending : Stage → Option AgentConfig
  | .configured job | .waiting job _ => some job.config
  | .slot job _ .lookup | .slot job _ .check | .slot job _ .spawn => some job.config
  | _ => none

/-- A dispatch that has a registration after an access had it before, or has just read it. -/
theorem Polls.pending_cases {config : AgentConfig} (h : Polls C D d o s D' s' effects)
    (hconfig : s'.pending = some config) : s.pending = some config ∨
      (D.registry.get d.agent = some config ∧ config.enabled = true) := by
  cases h with
  | configure hd hget hen =>
    obtain rfl := Option.some_inj.mp hconfig
    exact .inr ⟨hget, hen⟩
  | ensure => exact .inl hconfig
  | acquire => exact .inl hconfig
  | miss => exact .inl hconfig
  | enter => exact .inl hconfig
  | _ => cases hconfig

/-- A registry write keeps the entries of the agents with a dispatch between its registry read and
its spawn. -/
def World.SettledWrite (w : World) : Action → Prop
  | .setRegistry registry => ∀ task ∈ w.tasks, task.stage.pending.isSome = true →
      registry.get task.delivery.agent = w.dispatcher.registry.get task.delivery.agent
  | _ => True

instance (w : World) : DecidablePred w.SettledWrite
  | .setRegistry registry => inferInstanceAs (Decidable (∀ task ∈ w.tasks,
      task.stage.pending.isSome = true →
        registry.get task.delivery.agent = w.dispatcher.registry.get task.delivery.agent))
  | .deliver _ | .poll .. | .call _ | .pollCall _ | .applyChanges _ | .purge .. | .restart .. =>
    inferInstanceAs (Decidable True)

/-- Every dispatch that may still spawn has read the present entry of its agent, which is
enabled. -/
def World.Current (w : World) : Prop :=
  ∀ (t : ℕ) (task : Task) (config : AgentConfig), w.tasks[t]? = some task →
    task.stage.pending = some config →
      w.dispatcher.registry.get task.delivery.agent = some config ∧ config.enabled = true

namespace World.Current

theorem start (registry : Registry) (dedup : DedupStore) :
    (World.start registry dedup).Current := by
  intro t task config ht
  simp [World.start] at ht

/-- A step keeps dispatches current when it does not change an entry under one. -/
theorem step (h : w.Current) {a : Action} (hok : w.SettledWrite a)
    (hstep : (dispatchSystem C).step w a = some w') : w'.Current := by
  cases a with
  | poll t o =>
    obtain ⟨d, s, D', s', effects, htask, hpoll, rfl⟩ := World.step_poll hstep
    have hreg : D'.registry = w.dispatcher.registry := hpoll.registry_eq
    intro i task config hi hconfig
    change D'.registry.get _ = _ ∧ _
    rw [hreg]
    rcases getElem?_set_cases hi with ⟨-, rfl⟩ | ⟨-, hi⟩
    · rcases hpoll.pending_cases hconfig with hbefore | hread
      · exact h t ⟨d, s⟩ config htask hbefore
      · exact hread
    · exact h i task config hi hconfig
  | pollCall c =>
    obtain ⟨agent', s, D', s', -, hpoll, rfl⟩ := World.step_pollCall hstep
    have hreg : D'.registry = w.dispatcher.registry := hpoll.registry_eq
    intro i task config hi hconfig
    change D'.registry.get _ = _ ∧ _
    rw [hreg]
    exact h i task config hi hconfig
  | deliver d =>
    cases hstep
    intro i task config hi hconfig
    rcases getElem?_append_cases hi with ⟨-, rfl⟩ | hi
    · cases hconfig
    · exact h i task config hi hconfig
  | setRegistry registry =>
    cases hstep
    intro i task config hi hconfig
    have hsame := hok task (List.mem_of_getElem? hi) (by simp [hconfig])
    obtain ⟨hget, hen⟩ := h i task config hi hconfig
    exact ⟨hsame.trans hget, hen⟩
  | restart registry now ttl =>
    cases hstep
    intro i task config hi
    simp at hi
  | _ =>
    cases hstep
    exact h

/-- A current dispatch spawns the handler that is registered at that moment. -/
theorem of_spawned (h : w.Current) {a : Action} {em : Emission} {event : String}
    {command : Command} (hstep : (dispatchSystem C).step w a = some w')
    (htrace : w'.trace = em :: w.trace) (hspawned : em.effect = .spawned event command) :
    ∃ config, w.dispatcher.registry.get em.delivery.agent = some config ∧
      config.enabled = true ∧ command.program = config.handler ∧
      command.currentDir = config.workingDirectory := by
  have hne : w'.trace ≠ w.trace := by
    rw [htrace]
    exact List.cons_ne_self _ _
  cases a with
  | poll t o =>
    obtain ⟨d, s, D', s', effects, htask, hpoll, rfl⟩ := World.step_poll hstep
    cases hpoll with
    | @spawn job permits hok =>
      obtain ⟨rfl, -⟩ := List.cons.inj htrace
      cases hspawned
      obtain ⟨hget, hen⟩ := h t _ job.config htask rfl
      exact ⟨job.config, hget, hen, rfl, rfl⟩
    | reject hrej =>
      obtain ⟨rfl, -⟩ := List.cons.inj htrace
      cases hrej <;> cases hspawned
    | termRejected | hit | ackHit | drop | spawnFail | exit | mark | markFail | ack | term =>
      obtain ⟨rfl, -⟩ := List.cons.inj htrace
      cases hspawned
    | _ => exact absurd rfl hne
  | pollCall c =>
    obtain ⟨agent', s, D', s', -, hpoll, rfl⟩ := World.step_pollCall hstep
    exact absurd rfl hne
  | _ =>
    cases hstep
    exact absurd rfl hne

end World.Current

end Agentd
