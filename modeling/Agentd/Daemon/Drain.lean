import Agentd.Daemon.TaskSet
import Agentd.Dispatcher.Progress

/-!
# A shutdown returns

`Relay::shutdown` has no timeout: it returns when the last dispatch has.  So it must never wait for
something that waits for it.  A pull loop that has a message in its hand does wait for it, for the
lock of the set of dispatches, but no dispatch waits for a pull loop, and every dispatch returns
(`World.Sound`).

`drainLeft` counts the accesses of the dispatches and of the shutdown that are left.  While the
shutdown holds the lock nothing that happens beside them raises it, so neither the pull loops nor
the control operations can keep the shutdown from returning (`shutdown_completes`). -/

namespace Agentd

open TransitionSystem TaskPool

variable {C : DispatcherConfig} {D D' : Daemon} {a : DaemonAction}

/-- An access of a dispatch or of the shutdown. -/
def DaemonAction.drains : DaemonAction → Bool
  | .poll .. | .stop _ | .join _ => true
  | _ => false

/-- How many accesses the shutdown makes at most, besides the joins, when there are `loops` pull
loops. -/
def ShutdownStage.remaining (loops : ℕ) : ShutdownStage → ℕ
  | .drain => loops + 3
  | .abort handles => handles.length + 2
  | .join => 1
  | .returned => 0

namespace Daemon

/-- How many accesses of the dispatches and of the shutdown are left. -/
def drainLeft (D : Daemon) : ℕ :=
  D.world.remaining + D.dispatchTasks.length +
    D.shutdown.elim 0 (ShutdownStage.remaining D.loops.length)

/-- The entries of the set of dispatches are dispatches. -/
def Listed (D : Daemon) : Prop := ∀ t ∈ D.dispatchTasks, t < D.world.tasks.length

/-- A table holds no more handles than there are loops. -/
theorem length_handles_le (D : Daemon) : D.handles.length ≤ D.loops.length := by
  unfold handles
  exact (List.length_filter_le _ _).trans_eq List.length_range

/-- An access of the shutdown leaves fewer. -/
theorem drainLeft_stop {pick : ℕ} (hstop : D.stop pick = some D') :
    D'.drainLeft < D.drainLeft := by
  cases stops_of_stop hstop with
  | drain hstage =>
    have hle := D.length_handles_le
    simp only [drainLeft, hstage, Option.elim_some, ShutdownStage.remaining]
    omega
  | @abort handles pick l hstage hl =>
    have hlength : (handles.eraseIdx pick).length + 1 = handles.length :=
      List.length_eraseIdx_add_one (List.getElem?_eq_some_iff.mp hl).1
    simp only [drainLeft, hstage, Option.elim_some, ShutdownStage.remaining, List.length_modify]
    omega
  | lock hstage | finish hstage => simp [drainLeft, hstage, ShutdownStage.remaining]

/-- Every access of a dispatch or of the shutdown leaves fewer of them. -/
theorem drainLeft_lt (ha : a.drains = true) (hstep : (daemonSystem C).step D a = some D') :
    D'.drainLeft < D.drainLeft := by
  cases a with
  | poll t o =>
    obtain ⟨world, hworld, rfl⟩ := Option.map_eq_some_iff.mp hstep
    have hlt : world.remaining < D.world.remaining :=
      World.remaining_lt (a := .poll t o) trivial hworld
    simp only [drainLeft]
    omega
  | stop pick => exact drainLeft_stop hstep
  | join t =>
    obtain ⟨⟨-, hmem, -⟩, rfl⟩ := step_join hstep
    have hlength := List.length_erase_of_mem hmem
    have hpos := List.length_pos_of_mem hmem
    simp only [drainLeft, hlength]
    omega
  | _ => cases ha

/-- While the shutdown holds the lock of the set of dispatches, a pull loop spawns none. -/
theorem tasks_of_pull_join {agent : AgentId} {s s' : LoopStage} {move : LoopMove}
    (hjoin : D.shutdown = some .join) (h : D.pull C agent s move = some (D', s')) :
    D'.world.tasks = D.world.tasks ∧ D'.dispatchTasks = D.dispatchTasks := by
  have hpulls := pulls_of_pull h
  cases hpulls with
  | call hworld =>
    obtain rfl := Option.some_inj.mp hworld
    exact ⟨rfl, rfl⟩
  | count hworld =>
    obtain ⟨agent, s, E', s', -, -, rfl⟩ := World.step_pollCall (C := C) hworld
    exact ⟨rfl, rfl⟩
  | spawn hworld =>
    -- the lock is held
    cases move <;> simp [pull, hjoin] at h
  | _ => exact ⟨rfl, rfl⟩

/-- While the shutdown holds the lock, only the accesses of the dispatches and of the shutdown
change what is left of them. -/
theorem drainLeft_join (hjoin : D.shutdown = some .join) (ha : a.OneLifetime)
    (hstep : (daemonSystem C).step D a = some D') :
    D'.drainLeft + (if a.drains then 1 else 0) ≤ D.drainLeft := by
  by_cases hdrains : a.drains = true
  · rw [if_pos hdrains]
    exact drainLeft_lt hdrains hstep
  rw [if_neg hdrains, Nat.add_zero]
  have hsame : D'.world.tasks = D.world.tasks → D'.dispatchTasks = D.dispatchTasks →
      D'.shutdown = D.shutdown → D'.drainLeft ≤ D.drainLeft := by
    intro htasks hset hstage
    simp [drainLeft, World.remaining, htasks, hset, hstage, hjoin, ShutdownStage.remaining]
  cases a with
  | pull l move =>
    obtain ⟨p, D₁, p', -, htask, rfl⟩ := step_pull hstep
    obtain ⟨-, -, ⟨rfl, -⟩ | hpull⟩ := pull_of_pullTask htask
    · exact hsame rfl rfl rfl
    · obtain ⟨htasks, hset⟩ := tasks_of_pull_join hjoin hpull
      exact hsame htasks hset (pulls_of_pull hpull).relay_eq.2.2.2.2
  | send loop agent sending =>
    obtain ⟨c, c', d, -, -, ⟨-, rfl⟩ | ⟨l, p, stage, -, -, -, -, rfl⟩⟩ := step_send hstep
    · exact hsame rfl rfl rfl
    · exact hsame rfl rfl rfl
  | settle agent seq =>
    obtain ⟨c, -, -, rfl⟩ := step_settle hstep
    exact hsame rfl rfl rfl
  | request op =>
    obtain ⟨-, rfl⟩ := step_request hstep
    exact hsame rfl rfl rfl
  | serve r o =>
    obtain ⟨stage, D₁, stage', -, hserve, rfl⟩ := step_serve hstep
    have hserves := serves_of_serve hserve
    have hset : D₁.dispatchTasks = D.dispatchTasks := dispatchTasks_of_serves hserves
    have hstage : D₁.shutdown = D.shutdown := shutdown_of_serves hserves
    exact hsame hserves.frame.2.1 hset hstage
  | shutdown =>
    obtain ⟨hnone, -⟩ := step_shutdown hstep
    rw [hjoin] at hnone
    cases hnone
  | restart registry now ttl => exact ha.elim
  | poll | stop | join => exact absurd rfl hdrains

/-! ## The set of dispatches -/

theorem Listed.start (registry : Registry) (dedup : DedupStore)
    (consumers : AgentId → Option Consumer) : (start registry dedup consumers).Listed := by
  intro t ht
  simp [Daemon.start] at ht

/-- Every step keeps the entries of the set dispatches. -/
theorem Listed.step (h : D.Listed) (hstep : (daemonSystem C).step D a = some D') : D'.Listed := by
  by_cases hservice : a.InService
  · rcases tasks_of_step hservice hstep with ⟨t, o, d, s, s', -, -, -, -, htasks, hset⟩ |
      ⟨-, ⟨d, htasks, hset⟩ | ⟨htasks, hset⟩⟩
    · intro i hi
      rw [htasks, List.length_set]
      exact h i (hset ▸ hi)
    · intro i hi
      rw [htasks, List.length_append, List.length_singleton]
      rw [hset, List.mem_append, List.mem_singleton] at hi
      rcases hi with hi | rfl
      · have := h i hi
        omega
      · omega
    · intro i hi
      rw [htasks]
      exact h i (hset ▸ hi)
  cases a with
  | shutdown =>
    obtain ⟨-, rfl⟩ := step_shutdown hstep
    exact h
  | stop pick =>
    have hstop : D.stop pick = some D' := hstep
    intro i hi
    cases stops_of_stop hstop <;> exact h i hi
  | join t =>
    obtain ⟨-, rfl⟩ := step_join hstep
    exact fun i hi => h i (List.mem_of_mem_erase hi)
  | restart registry now ttl =>
    obtain ⟨world, -, rfl⟩ := step_restart hstep
    intro i hi
    simp at hi
  | _ => exact absurd trivial hservice

/-! ## Progress -/

/-- A step of the daemon keeps the dispatcher sound. -/
theorem sound_step (h : D.world.Sound) (hstep : (daemonSystem C).step D a = some D') :
    D'.world.Sound := by
  rcases step_world hstep with hsame | ⟨b, -, hworld⟩
  · rwa [hsame]
  · exact h.step hworld

/-- A shutdown that was called stays called until the process is gone. -/
theorem isSome_shutdown_step (hcalled : D.shutdown.isSome = true) (ha : a.OneLifetime)
    (hstep : (daemonSystem C).step D a = some D') : D'.shutdown.isSome = true := by
  by_cases hservice : a.InService
  · rw [shutdown_of_step hservice hstep]
    exact hcalled
  cases a with
  | shutdown =>
    obtain ⟨hnone, -⟩ := step_shutdown hstep
    simp [hnone] at hcalled
  | stop pick =>
    have hstop : D.stop pick = some D' := hstep
    cases stops_of_stop hstop <;> rfl
  | join t =>
    obtain ⟨-, rfl⟩ := step_join hstep
    exact hcalled
  | restart registry now ttl => exact ha.elim
  | _ => exact absurd trivial hservice

/-- A shutdown was called, in a state that the daemon can be in. -/
structure Draining (D : Daemon) : Prop where
  sound : D.world.Sound
  listed : D.Listed
  called : D.shutdown.isSome = true

theorem Draining.step (h : D.Draining) (ha : a.OneLifetime)
    (hstep : (daemonSystem C).step D a = some D') : D'.Draining :=
  ⟨sound_step h.sound hstep, h.listed.step hstep, isSome_shutdown_step h.called ha hstep⟩

/-- As long as the shutdown has not returned, it or a dispatch can make its next access. -/
theorem Draining.returned_or_drains (h : D.Draining) (C : DispatcherConfig) :
    D.shutdown = some .returned ∨
      ∃ a : DaemonAction, a.drains = true ∧ ((daemonSystem C).step D a).isSome = true := by
  obtain ⟨stage, hstage⟩ := Option.isSome_iff_exists.mp h.called
  have hstop : (D.stop 0).isSome = true → D.shutdown = some .returned ∨
      ∃ a : DaemonAction, a.drains = true ∧ ((daemonSystem C).step D a).isSome = true :=
    fun h => .inr ⟨.stop 0, rfl, h⟩
  cases stage with
  | returned => exact .inl hstage
  | drain => exact hstop (by simp [stop, hstage])
  | abort handles => cases handles <;> exact hstop (by simp [stop, hstage])
  | join =>
    by_cases hempty : D.dispatchTasks = []
    · exact hstop (by simp [stop, hstage, hempty])
    right
    obtain ⟨t, ht⟩ := List.exists_mem_of_ne_nil _ hempty
    obtain ⟨⟨d, s⟩, htask⟩ : ∃ task, D.world.tasks[t]? = some task :=
      ⟨_, List.getElem?_eq_getElem (h.listed t ht)⟩
    rcases h.sound.finished_or_polls C with hall | ⟨u, hpoll⟩
    · have hs : s = .finished := hall _ (List.mem_of_getElem? htask)
      refine ⟨.join t, rfl, ?_⟩
      simp [daemonSystem, Daemon.step, hstage, ht, htask, hs, Stage.isFinished]
    · refine ⟨.poll u {}, rfl, ?_⟩
      obtain ⟨world, hworld⟩ := Option.isSome_iff_exists.mp (hpoll {})
      have hworld' : World.step C D.world (.poll u {}) = some world := hworld
      simp [daemonSystem, Daemon.step, hworld']

/-- A shutdown that was called can be brought to its return, from any state that the daemon can be
in, by its own accesses and those of the dispatches.  And while it waits for the dispatches,
whatever else happens in the daemon and at the server: they and the shutdown make at most
`drainLeft` accesses, and as long as it has not returned one of them can be made.  A handler is
taken to be able to exit at any time. -/
theorem shutdown_completes {registry : Registry} {dedup : DedupStore}
    {consumers : AgentId → Option Consumer}
    (hrun : (daemonSystem C).Run (fun _ _ => True) (.start registry dedup consumers) D)
    (hcalled : D.shutdown.isSome = true) :
    (∃ D', (daemonSystem C).Run (fun _ a => a.drains = true) D D' ∧
      D'.shutdown = some .returned) ∧
    (D.shutdown = some .join → ∀ D' n,
      ((daemonSystem C).counting fun _ a => a.drains).Run
        (fun x a => x.1.shutdown = some .join ∧ a.OneLifetime) (D, 0) (D', n) →
      n ≤ D.drainLeft ∧ (D'.shutdown = some .returned ∨
        ∃ a : DaemonAction, a.drains = true ∧ ((daemonSystem C).step D' a).isSome = true)) := by
  have hworld : (dispatchSystem C).Run (fun _ _ => True) (.start registry dedup) D.world :=
    run_world hrun fun _ _ _ _ _ => trivial
  have hdraining : D.Draining := by
    refine ⟨?_, ?_, hcalled⟩
    · exact hworld.invariant (.start registry dedup) fun _ _ _ h _ hstep => h.step hstep
    · exact hrun.invariant (.start registry dedup consumers) fun _ _ _ h _ hstep => h.step hstep
  constructor
  · have hstep : ∀ (x : Daemon) (a : DaemonAction) (y : Daemon), x.Draining → a.drains = true →
        (daemonSystem C).step x a = some y → y.Draining ∧ y.drainLeft < x.drainLeft := by
      intro x a y hx ha hstep
      have hlife : a.OneLifetime := by
        cases a with
        | restart => cases ha
        | _ => trivial
      exact ⟨hx.step hlife hstep, drainLeft_lt ha hstep⟩
    obtain ⟨D', hdrain, hdraining', hhalted⟩ :=
      exists_halted (fun _ (a : DaemonAction) => a.drains = true) drainLeft hdraining hstep
    refine ⟨D', hdrain, ?_⟩
    refine (hdraining'.returned_or_drains C).resolve_right ?_
    rintro ⟨a, ha, hsome⟩
    simp [hhalted a ha] at hsome
  · intro _ D' n hcount
    obtain ⟨hdraining', hle⟩ : D'.Draining ∧ n + D'.drainLeft ≤ 0 + D.drainLeft := by
      refine hcount.count_add_rank_le (I := Draining) drainLeft hdraining ?_
      rintro z a y hz ⟨hjoin, ha⟩ hstep
      exact ⟨hz.step ha hstep, drainLeft_join hjoin ha hstep⟩
    exact ⟨by omega, hdraining'.returned_or_drains C⟩

end Daemon

/-- The shutdown waits for a dispatch whose handler is running, and a control operation arrives. -/
def Sample.shutdownWhileRunning : List DaemonAction :=
  pullFirst ++ dispatches 0 6 ++ [.shutdown, .stop, .stop, .stop, .request .reload]

theorem Daemon.shutdown_completes_shutdownWhileRunning :
    ∃ D D', (daemonSystem Sample.dispatcherConfig).Run (fun _ _ => True)
        (.start (Sample.registry Sample.config) .empty fun _ => none) D ∧
      D.dispatchTasks = [0] ∧ D.shutdown = some .join ∧
      (daemonSystem Sample.dispatcherConfig).Run (fun _ a => a.drains = true) D D' ∧
      D'.shutdown = some .returned ∧
      ∃ a : DaemonAction, a.drains = true ∧
        ((daemonSystem Sample.dispatcherConfig).step D a).isSome = true := by
  obtain ⟨D, hrun, hend⟩ := exists_run_of_exec (daemonSystem Sample.dispatcherConfig)
    (fun _ _ => True) (.start (Sample.registry Sample.config) .empty fun _ => none)
    Sample.shutdownWhileRunning
    (fun D => decide (D.dispatchTasks = [0] ∧ D.shutdown = some .join)) (by decide +kernel)
  obtain ⟨htasks, hjoin⟩ := of_decide_eq_true hend
  obtain ⟨⟨D', hdrain, hreturned⟩, hwhile⟩ := shutdown_completes hrun (by rw [hjoin]; rfl)
  obtain ⟨-, hreturned' | hnext⟩ := hwhile hjoin D 0 .refl
  · rw [hjoin] at hreturned'
    cases hreturned'
  · exact ⟨D, D', hrun, htasks, hjoin, hdrain, hreturned, hnext⟩

end Agentd
