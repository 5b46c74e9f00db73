import Agentd.Daemon.Model

/-!
# What one step of the daemon can do

A step of the daemon makes at most one access to the dispatcher (`worldAction`), so a run of the
daemon projects to a run of the dispatcher (`run_world`), and what holds on every run of the
dispatcher holds in the daemon.

The other lemmas describe a step from the side of the relay: `Pulls` says what a pull loop does
with the messages it holds, and the lemmas about `serve` say how a control operation changes the
registry, the pending changes and the pull loops.
-/

namespace Agentd

open TransitionSystem TaskPool

variable {C : DispatcherConfig} {D D' : Daemon} {agent : AgentId}

/-- The agent is registered and enabled. -/
def Registry.Enabled (r : Registry) (agent : AgentId) : Prop :=
  ∃ config ∈ r.get agent, config.enabled = true

/-- The relay starts a pull loop for the change, if the agent is enabled. -/
def Change.starts : Change → Bool
  | .added _ | .updated _ | .enabled _ => true
  | .disabled _ | .removed _ => false

/-- A step of one lifetime of the daemon. -/
def DaemonAction.OneLifetime : DaemonAction → Prop
  | .restart .. => False
  | _ => True

instance : DecidablePred DaemonAction.OneLifetime
  | .restart .. => inferInstanceAs (Decidable False)
  | .poll .. | .pull .. | .send .. | .settle .. | .request _ | .serve .. | .shutdown | .stop _
  | .join _ => inferInstanceAs (Decidable True)

/-! ## The dispatcher inside the daemon -/

namespace Daemon

/-- The access to the dispatcher that an action makes, if it makes one.  Only a pull loop may also
make no access where one is given here, when the runtime starts or stops polling it. -/
def worldAction (D : Daemon) : DaemonAction → Option Action
  | .poll t o => some (.poll t o)
  | .pull l _ =>
    match D.loops[l]? with
    | some ⟨agent, .free, _, _⟩ => some (.call agent)
    | some ⟨_, .counting c, _, _⟩ => some (.pollCall c)
    | some ⟨_, .spawning d _ _, _, _⟩ => some (.deliver d)
    | _ => none
  | .serve r o =>
    match D.requests[r]? with
    | some (.registry op) =>
      match op.perform D.registry o with
      | .ok (registry, _) => some (.setRegistry registry)
      | .error _ => none
    | some (.dispatcher changes) => some (.applyChanges changes)
    | _ => none
  | .restart registry now ttl => some (.restart registry now ttl)
  | _ => none

@[simp] theorem world_stopPull (D : Daemon) (id : AgentId) : (D.stopPull id).world = D.world := by
  unfold stopPull
  cases D.pulls id <;> rfl

@[simp] theorem world_storePull (D : Daemon) (id : AgentId) (l : ℕ) :
    (D.storePull id l).world = D.world := rfl

/-- The relay does not touch the dispatcher. -/
@[simp] theorem world_applyRelay (D : Daemon) (o : ServeOutcome) (changes : List Change)
    (stage : RelayStage) : (D.applyRelay o changes stage).1.world = D.world := by
  cases changes with
  | nil => rfl
  | cons ch rest =>
    cases stage with
    | begin => cases ch <;> simp [applyRelay]
    | read =>
      simp only [applyRelay]
      split
      · split <;> rfl
      · rfl
    | bind n =>
      simp only [applyRelay]
      split <;> rfl
    | start => rfl
    | store l => rfl

end Daemon

/-- What a pull loop does that is being polled: it talks to the dispatcher about free slots, it
spawns the dispatch of the message in its hand, it takes or skips a message, or it goes on without
any of these and may lose messages. -/
inductive Pulls (C : DispatcherConfig) (D : Daemon) (agent : AgentId) :
    LoopStage → Daemon → LoopStage → Prop
  | call {world : World} (h : World.step C D.world (.call agent) = some world) :
      Pulls C D agent .free { D with world } (.counting D.world.calls.length)
  | count {c : ℕ} {world : World} (h : World.step C D.world (.pollCall c) = some world) :
      Pulls C D agent (.counting c) { D with world } (.counting c)
  | spawn {d : Delivery} {credit : ℕ} {inbox : List Delivery} {world : World}
      (h : World.step C D.world (.deliver d) = some world) :
      Pulls C D agent (.spawning d credit inbox)
        { D with world, dispatchTasks := D.dispatchTasks ++ [D.world.tasks.length] }
        (.receiving credit inbox)
  | receive {d : Delivery} {credit : ℕ} {inbox : List Delivery} :
      Pulls C D agent (.receiving credit (d :: inbox)) D (.spawning d credit inbox)
  | skip {d : Delivery} {credit : ℕ} {inbox : List Delivery} :
      Pulls C D agent (.receiving credit (d :: inbox)) D (.receiving credit inbox)
  | idle {s s' : LoopStage} (h : ∀ credit inbox, s' = .receiving credit inbox → inbox = [])
      (h' : ∀ d credit inbox, s' ≠ .spawning d credit inbox) : Pulls C D agent s D s'

/-- A loop that is polled leaves the relay's table and loops alone. -/
theorem Pulls.relay_eq {s s' : LoopStage} (h : Pulls C D agent s D' s') :
    D'.pulls = D.pulls ∧ D'.loops = D.loops ∧ D'.requests = D.requests ∧
      D'.consumers = D.consumers ∧ D'.shutdown = D.shutdown := by
  cases h <;> exact ⟨rfl, rfl, rfl, rfl, rfl⟩

namespace Daemon

/-- A loop that is being polled does one of these. -/
theorem pulls_of_pull {s s' : LoopStage} {move : LoopMove}
    (h : D.pull C agent s move = some (D', s')) : Pulls C D agent s D' s' := by
  cases s with
  | free =>
    cases move with
    | advance =>
      simp only [pull, Option.bind_eq_bind, Option.bind_eq_some_iff] at h
      obtain ⟨world, hworld, heq⟩ := h
      cases heq
      exact .call hworld
    | _ => cases h
  | counting c =>
    cases move with
    | advance =>
      simp only [pull] at h
      split at h
      · cases h
        split <;> exact .idle nofun nofun
      · simp only [Option.bind_eq_bind, Option.bind_eq_some_iff] at h
        obtain ⟨world, hworld, heq⟩ := h
        cases heq
        exact .count hworld
    | _ => cases h
  | asleep =>
    cases move with
    | advance =>
      cases h
      exact .idle nofun nofun
    | _ => cases h
  | requesting slots =>
    cases move with
    | advance =>
      cases h
      refine .idle (fun credit inbox heq => ?_) nofun
      cases heq
      rfl
    | fail | stall =>
      cases h
      exact .idle nofun nofun
    | _ => cases h
  | receiving credit inbox =>
    cases inbox with
    | nil =>
      cases move with
      | fail =>
        cases h
        exact .idle nofun nofun
      | _ => cases h
    | cons d inbox =>
      cases move with
      | advance =>
        cases h
        exact .receive
      | skip =>
        cases h
        exact .skip
      | fail =>
        cases h
        exact .idle nofun nofun
      | _ => cases h
  | spawning d credit inbox =>
    cases move with
    | advance =>
      simp only [pull] at h
      split at h
      · cases h
      · simp only [Option.bind_eq_bind, Option.bind_eq_some_iff] at h
        obtain ⟨world, hworld, heq⟩ := h
        cases heq
        exact .spawn hworld
    | _ => cases h

/-- A step of the task of a loop keeps the loop's agent and its abort, and either only starts or
stops polling it or is a move of the loop. -/
theorem pull_of_pullTask {p p' : PullLoop} {move : LoopMove}
    (h : D.pullTask C p move = some (D', p')) :
    p'.agent = p.agent ∧ p'.aborted = p.aborted ∧ ((D' = D ∧ p'.stage = p.stage) ∨
      D.pull C p.agent p.stage move = some (D', p'.stage)) := by
  cases move with
  | resume | suspend =>
    simp only [pullTask] at h
    split at h
    · cases h
      exact ⟨rfl, rfl, .inl ⟨rfl, rfl⟩⟩
    · cases h
  | advance | fail | skip | stall =>
    simp only [pullTask] at h
    split at h
    · obtain ⟨⟨D₁, stage⟩, hpull, heq⟩ := Option.map_eq_some_iff.mp h
      cases heq
      exact ⟨rfl, rfl, .inr hpull⟩
    · cases h

/-- A step of the task of a loop, with what the move does. -/
theorem pullTask_cases {p p' : PullLoop} {move : LoopMove}
    (h : D.pullTask C p move = some (D', p')) :
    p'.agent = p.agent ∧ p'.aborted = p.aborted ∧
      ((D' = D ∧ p'.stage = p.stage) ∨ Pulls C D p.agent p.stage D' p'.stage) := by
  obtain ⟨hagent, haborted, hmove⟩ := pull_of_pullTask h
  exact ⟨hagent, haborted, hmove.imp_right pulls_of_pull⟩

/-- A pull step runs one step of one loop. -/
theorem step_pull {l : ℕ} {move : LoopMove}
    (h : (daemonSystem C).step D (.pull l move) = some D') :
    ∃ p D₁ p', D.loops[l]? = some p ∧ D.pullTask C p move = some (D₁, p') ∧
      D' = { D₁ with loops := D₁.loops.set l p' } := by
  simp only [daemonSystem, step, Option.bind_eq_bind, Option.bind_eq_some_iff] at h
  obtain ⟨p, hp, ⟨D₁, p'⟩, htask, heq⟩ := h
  exact ⟨p, D₁, p', hp, htask, by simpa using heq.symm⟩

/-- A serve step runs one access of one control operation. -/
theorem step_serve {r : ℕ} {o : ServeOutcome}
    (h : (daemonSystem C).step D (.serve r o) = some D') :
    ∃ stage D₁ stage', D.requests[r]? = some stage ∧ D.serve o stage = some (D₁, stage') ∧
      D' = { D₁ with requests := D₁.requests.set r stage' } := by
  simp only [daemonSystem, step, Option.bind_eq_bind, Option.bind_eq_some_iff] at h
  obtain ⟨stage, hstage, ⟨D₁, stage'⟩, hserve, heq⟩ := h
  exact ⟨stage, D₁, stage', hstage, hserve, by simpa using heq.symm⟩

/-- What `Relay::shutdown` does at one of its accesses before and after the joins. -/
inductive Stops (D : Daemon) : Daemon → Prop
  | drain (h : D.shutdown = some .drain) :
      Stops D { D with pulls := fun _ => none, shutdown := some (.abort D.handles) }
  | abort {handles : List ℕ} {pick l : ℕ} (h : D.shutdown = some (.abort handles))
      (hl : handles[pick]? = some l) :
      Stops D { D with
        loops := D.loops.modify l PullLoop.abort
        shutdown := some (.abort (handles.eraseIdx pick)) }
  | lock (h : D.shutdown = some (.abort [])) : Stops D { D with shutdown := some .join }
  | finish (h : D.shutdown = some .join) (hempty : D.dispatchTasks = []) :
      Stops D { D with shutdown := some .returned }

/-- An access of the shutdown is one of these. -/
theorem stops_of_stop {pick : ℕ} (h : D.stop pick = some D') : D.Stops D' := by
  unfold stop at h
  split at h
  · rename_i hdrain
    cases h
    exact .drain hdrain
  · rename_i hnil
    cases h
    exact .lock hnil
  · rename_i handles hnonempty habort
    obtain ⟨l, hl, rfl⟩ := Option.map_eq_some_iff.mp h
    exact .abort habort hl
  · rename_i hjoin
    split at h
    · rename_i hempty
      cases h
      exact .finish hjoin hempty
    · cases h
  · cases h

/-- An access of `Relay::shutdown` leaves the operations, the dispatcher and the consumers alone and
aborts at most one loop. -/
theorem stop_cases {pick : ℕ} (h : D.stop pick = some D') :
    D'.requests = D.requests ∧ D'.world = D.world ∧ D'.consumers = D.consumers ∧
      (D'.loops = D.loops ∨ ∃ l, D'.loops = D.loops.modify l PullLoop.abort) := by
  cases stops_of_stop h with
  | abort => exact ⟨rfl, rfl, rfl, .inr ⟨_, rfl⟩⟩
  | _ => exact ⟨rfl, rfl, rfl, .inl rfl⟩

/-- A send step changes the consumer, and at most one loop, which takes the message. -/
theorem step_send {loop : Option ℕ} {sending : Sending}
    (h : (daemonSystem C).step D (.send loop agent sending) = some D') :
    ∃ c c' d, D.consumers agent = some c ∧ c.send agent sending = some (c', d) ∧
      ((loop = none ∧
          D' = { D with consumers := Function.update D.consumers agent (some c') }) ∨
        ∃ l p stage, loop = some l ∧ D.loops[l]? = some p ∧ p.agent = agent ∧
          p.stage.accept d = some stage ∧
          D' = { D with
            consumers := Function.update D.consumers agent (some c')
            loops := D.loops.set l { p with stage } }) := by
  simp only [daemonSystem, step, Option.bind_eq_bind, Option.bind_eq_some_iff] at h
  obtain ⟨c, hc, ⟨c', d⟩, hsend, h⟩ := h
  refine ⟨c, c', d, hc, hsend, ?_⟩
  cases loop with
  | none => exact .inl ⟨rfl, by simpa using h.symm⟩
  | some l =>
    simp only [Option.bind_eq_some_iff] at h
    obtain ⟨p, hp, h⟩ := h
    split at h
    · rename_i hagent
      obtain ⟨stage, hstage, h⟩ := Option.bind_eq_some_iff.mp h
      exact .inr ⟨l, p, stage, rfl, hp, hagent, hstage, by simpa using h.symm⟩
    · cases h

/-- A settle step needs an ack or a term of the message. -/
theorem step_settle {seq : ℕ} (h : (daemonSystem C).step D (.settle agent seq) = some D') :
    ∃ c, D.consumers agent = some c ∧
      (D.world.trace.any fun em => em.resolves agent seq) = true ∧
      D' = { D with consumers := Function.update D.consumers agent (some (c.settle seq)) } := by
  simp only [daemonSystem, step, Option.bind_eq_bind, Option.bind_eq_some_iff] at h
  obtain ⟨c, hc, h⟩ := h
  split at h
  · rename_i hres
    exact ⟨c, hc, hres, by simpa using h.symm⟩
  · cases h

/-- A request is served once the startup is done. -/
theorem step_request {op : ControlOp} (h : (daemonSystem C).step D (.request op) = some D') :
    D.ready = true ∧ D' = { D with requests := D.requests ++ [.registry op] } := by
  simp only [daemonSystem, step] at h
  split at h
  · rename_i hready
    exact ⟨hready, (Option.some_inj.mp h).symm⟩
  · cases h

/-- The shutdown is called once. -/
theorem step_shutdown (h : (daemonSystem C).step D .shutdown = some D') :
    D.shutdown = none ∧ D' = { D with shutdown := some .drain } := by
  simp only [daemonSystem, step] at h
  split at h
  · rename_i hnone
    exact ⟨hnone, (Option.some_inj.mp h).symm⟩
  · cases h

/-- The shutdown joins a dispatch that has returned. -/
theorem step_join {t : ℕ} (h : (daemonSystem C).step D (.join t) = some D') :
    (D.shutdown = some .join ∧ t ∈ D.dispatchTasks ∧
      (D.world.tasks[t]?.any fun task => task.stage.isFinished) = true) ∧
      D' = { D with dispatchTasks := D.dispatchTasks.erase t } := by
  simp only [daemonSystem, step] at h
  split at h
  · rename_i hjoin
    exact ⟨hjoin, (Option.some_inj.mp h).symm⟩
  · cases h

/-- A crash leaves the server's side and starts everything else anew. -/
theorem step_restart {registry : Registry} {now ttl : UInt64}
    (h : (daemonSystem C).step D (.restart registry now ttl) = some D') :
    ∃ world, World.step C D.world (.restart registry now ttl) = some world ∧
      D' = { D with
        world
        pulls := fun _ => none
        loops := []
        dispatchTasks := []
        requests := [startup registry]
        shutdown := none } := by
  simp only [daemonSystem, step, Option.bind_eq_bind, Option.bind_eq_some_iff] at h
  obtain ⟨world, hworld, heq⟩ := h
  exact ⟨world, hworld, by simpa using heq.symm⟩

end Daemon

/-- What the registry step of a control operation makes of the registry, and the changes it then
applies. -/
inductive Performs (r : Registry) (o : ServeOutcome) :
    ControlOp → Registry → List Change → Prop
  | register {c : AgentConfig} (hnew : r.get c.agentId = none) (hvalid : c.validate = .ok ()) :
      Performs r o (.register c) (r.insert c hvalid) [.added c]
  | update {c : AgentConfig} (hold : (r.get c.agentId).isSome = true)
      (hvalid : c.validate = .ok ()) : Performs r o (.update c) (r.insert c hvalid) [.updated c]
  | unregister {id : AgentId} (hold : (r.get id).isSome = true) :
      Performs r o (.unregister id) (r.erase id) [.removed id]
  | reload {fresh : Registry} (hload : o.load = .ok fresh) :
      Performs r o .reload fresh (r.diff fresh)

/-- A registry step that succeeds is one of these. -/
theorem ControlOp.performs {op : ControlOp} {r r' : Registry} {o : ServeOutcome}
    {changes : List Change} (h : op.perform r o = .ok (r', changes)) :
    Performs r o op r' changes := by
  cases op with
  | register c =>
    cases hop : r.register c o.files with
    | error e => simp [perform, hop, Except.map] at h
    | ok r₁ =>
      obtain ⟨rfl, rfl⟩ : r₁ = r' ∧ [.added c] = changes := by
        simpa [perform, hop, Except.map] using h
      obtain ⟨hnew, -, hvalid, rfl⟩ := Registry.register_eq_ok hop
      exact .register hnew hvalid
  | update c =>
    cases hop : r.update c o.files with
    | error e => simp [perform, hop, Except.map] at h
    | ok r₁ =>
      obtain ⟨rfl, rfl⟩ : r₁ = r' ∧ [.updated c] = changes := by
        simpa [perform, hop, Except.map] using h
      obtain ⟨hold, -, hvalid, rfl⟩ := Registry.update_eq_ok hop
      exact .update hold hvalid
  | unregister id =>
    cases hop : r.unregister id o.files with
    | error e => simp [perform, hop, Except.map] at h
    | ok r₁ =>
      obtain ⟨rfl, rfl⟩ : r₁ = r' ∧ [.removed id] = changes := by
        simpa [perform, hop, Except.map] using h
      obtain ⟨hold, -, rfl⟩ := Registry.unregister_eq_ok hop
      exact .unregister hold
  | reload =>
    cases hload : o.load with
    | error e => simp [perform, Registry.reload, hload] at h
    | ok fresh =>
      obtain ⟨rfl, rfl⟩ : fresh = r' ∧ r.diff fresh = changes := by
        simpa [perform, Registry.reload, hload] using h
      exact .reload hload

/-- What a control operation does at one of its accesses: it changes the registry or is refused,
it resets the dispatcher, it applies a change that stops or starts a pull loop, or it is done. -/
inductive Serves (D : Daemon) (o : ServeOutcome) : RequestStage → Daemon → RequestStage → Prop
  | change {op : ControlOp} {registry : Registry} {changes : List Change}
      (h : op.perform D.registry o = .ok (registry, changes)) :
      Serves D o (.registry op)
        { D with world := { D.world with dispatcher := { D.world.dispatcher with registry } } }
        (.dispatcher changes)
  | refuse {op : ControlOp} {e : ConfigError} (h : op.perform D.registry o = .error e) :
      Serves D o (.registry op) D (.returned (.error e))
  | reset {changes : List Change} :
      Serves D o (.dispatcher changes)
        { D with world :=
          { D.world with dispatcher := D.world.dispatcher.applyChanges changes } }
        (.relay changes .begin)
  | finish {stage : RelayStage} : Serves D o (.relay [] stage) D (.returned (.ok ()))
  | launch {ch : Change} {rest : List Change} {c : AgentConfig}
      (h : ch = .added c ∨ ch = .enabled c) :
      Serves D o (.relay (ch :: rest) .begin) D (.relay (ch :: rest) (.bind c.maxConcurrency))
  | rebind {ch : Change} {rest : List Change} (h : ch.starts = true) :
      Serves D o (.relay (ch :: rest) .begin) (D.stopPull ch.agentId)
        (.relay (ch :: rest) .read)
  | halt {ch : Change} {rest : List Change} (h : ch.starts = false) :
      Serves D o (.relay (ch :: rest) .begin) (D.stopPull ch.agentId) (.relay rest .begin)
  | read {ch : Change} {rest : List Change} {c : AgentConfig}
      (h : D.registry.get ch.agentId = some c) :
      Serves D o (.relay (ch :: rest) .read) D (.relay (ch :: rest) (.bind c.maxConcurrency))
  | skip {ch : Change} {rest : List Change} (h : ¬D.registry.Enabled ch.agentId) :
      Serves D o (.relay (ch :: rest) .read) D (.relay rest .begin)
  | unbound {ch : Change} {rest : List Change} {n : UInt32} (h : o.bindFails = true) :
      Serves D o (.relay (ch :: rest) (.bind n)) D (.relay rest .begin)
  | bind {ch : Change} {rest : List Change} {n : UInt32} :
      Serves D o (.relay (ch :: rest) (.bind n))
        { D with
          consumers := getOrCreateConsumer D.consumers ch.agentId
            (consumerConfig ch.agentId n.toNat) }
        (.relay (ch :: rest) .start)
  | spawn {ch : Change} {rest : List Change} :
      Serves D o (.relay (ch :: rest) .start)
        { D with loops := D.loops ++ [⟨ch.agentId, .free, false, false⟩] }
        (.relay (ch :: rest) (.store D.loops.length))
  | store {ch : Change} {rest : List Change} {l : ℕ} :
      Serves D o (.relay (ch :: rest) (.store l)) (D.storePull ch.agentId l)
        (.relay rest .begin)

/-- An access of a control operation leaves the table of operations, the dispatches, the history and
the calls of `available` alone. -/
theorem Serves.frame {o : ServeOutcome} {stage stage' : RequestStage}
    (h : Serves D o stage D' stage') :
    D'.requests = D.requests ∧ D'.world.tasks = D.world.tasks ∧
      D'.world.trace = D.world.trace ∧ D'.world.calls = D.world.calls := by
  cases h with
  | rebind | halt =>
    unfold Daemon.stopPull
    split <;> exact ⟨rfl, rfl, rfl, rfl⟩
  | _ => exact ⟨rfl, rfl, rfl, rfl⟩

/-- An abort does not change whose loop it is, nor its stage. -/
theorem PullLoop.getElem?_abort {loops : List PullLoop} {j l : ℕ} {p' : PullLoop}
    (h : (loops.modify j PullLoop.abort)[l]? = some p') :
    ∃ p, loops[l]? = some p ∧ p'.agent = p.agent ∧ p'.stage = p.stage := by
  rw [List.getElem?_modify, Option.map_eq_map] at h
  obtain ⟨p, hp, rfl⟩ := Option.map_eq_some_iff.mp h
  refine ⟨p, hp, ?_⟩
  split <;> exact ⟨rfl, rfl⟩

/-- An access of a control operation touches no loop except for an abort, and a new loop has done
nothing yet. -/
theorem Serves.loop_cases {o : ServeOutcome} {stage stage' : RequestStage}
    (h : Serves D o stage D' stage') {l : ℕ} {p' : PullLoop} (hp' : D'.loops[l]? = some p') :
    p'.stage = .free ∨ ∃ p, D.loops[l]? = some p ∧ p'.agent = p.agent ∧ p'.stage = p.stage := by
  cases h with
  | @rebind ch | @halt ch =>
    unfold Daemon.stopPull at hp'
    split at hp'
    · exact .inr (PullLoop.getElem?_abort hp')
    · exact .inr ⟨p', hp', rfl, rfl⟩
  | spawn =>
    rcases getElem?_append_cases hp' with ⟨-, rfl⟩ | hp'
    · exact .inl rfl
    · exact .inr ⟨p', hp', rfl, rfl⟩
  | @store ch rest l' =>
    simp only [Daemon.storePull] at hp'
    cases hold : D.pulls ch.agentId with
    | none =>
      rw [hold] at hp'
      exact .inr ⟨p', hp', rfl, rfl⟩
    | some old =>
      rw [hold] at hp'
      exact .inr (PullLoop.getElem?_abort hp')
  | _ => exact .inr ⟨p', hp', rfl, rfl⟩

namespace Daemon

/-- A control operation does one of these. -/
theorem serves_of_serve {o : ServeOutcome} {stage stage' : RequestStage}
    (h : D.serve o stage = some (D', stage')) : Serves D o stage D' stage' := by
  cases stage with
  | registry op =>
    simp only [serve] at h
    split at h
    · rename_i registry changes hperform
      cases h
      exact .change hperform
    · rename_i e hperform
      cases h
      exact .refuse hperform
  | dispatcher changes =>
    cases h
    exact .reset
  | relay changes s =>
    cases changes with
    | nil =>
      cases h
      exact .finish
    | cons ch rest =>
      have hrelay : D.applyRelay o (ch :: rest) s = (D', stage') := Option.some_inj.mp h
      cases s with
      | begin =>
        cases ch <;> cases hrelay
        · exact .launch (.inl rfl)
        · exact .rebind rfl
        · exact .launch (.inr rfl)
        · exact .halt rfl
        · exact .halt rfl
      | read =>
        simp only [applyRelay] at hrelay
        split at hrelay
        · rename_i config hget
          split at hrelay
          · cases hrelay
            exact .read hget
          · rename_i hdis
            cases hrelay
            refine .skip ?_
            rintro ⟨config', hget', hen⟩
            obtain rfl : config = config' := Option.some_inj.mp (hget.symm.trans hget')
            exact hdis hen
        · rename_i hget
          cases hrelay
          refine .skip ?_
          rintro ⟨config', hget', hen⟩
          cases hget.symm.trans hget'
      | bind n =>
        simp only [applyRelay] at hrelay
        split at hrelay
        · rename_i hfails
          cases hrelay
          exact .unbound hfails
        · cases hrelay
          exact .bind
      | start =>
        cases hrelay
        exact .spawn
      | store l =>
        cases hrelay
        exact .store
  | returned result => cases h

/-- Between the accesses of control operations and crashes, the operations stay as they are and a
new one may arrive. -/
theorem step_requests {a : DaemonAction} (h : (daemonSystem C).step D a = some D')
    (hserve : ∀ r o, a ≠ .serve r o)
    (hrestart : ∀ registry now ttl, a ≠ .restart registry now ttl) :
    D'.requests = D.requests ∨
      ∃ op, a = .request op ∧ D'.requests = D.requests ++ [.registry op] := by
  cases a with
  | poll t o =>
    obtain ⟨world, -, rfl⟩ := Option.map_eq_some_iff.mp h
    exact .inl rfl
  | pull l move =>
    obtain ⟨p, D₁, p', -, htask, rfl⟩ := step_pull h
    obtain ⟨-, -, ⟨rfl, -⟩ | hpulls⟩ := pullTask_cases htask
    · exact .inl rfl
    · exact .inl hpulls.relay_eq.2.2.1
  | send loop agent sending =>
    obtain ⟨c, c', d, -, -, ⟨-, rfl⟩ | ⟨l, p, stage, -, -, -, -, rfl⟩⟩ := step_send h
    · exact .inl rfl
    · exact .inl rfl
  | settle agent seq =>
    obtain ⟨c, -, -, rfl⟩ := step_settle h
    exact .inl rfl
  | request op =>
    obtain ⟨-, rfl⟩ := step_request h
    exact .inr ⟨op, rfl, rfl⟩
  | serve r o => exact absurd rfl (hserve r o)
  | shutdown =>
    obtain ⟨-, rfl⟩ := step_shutdown h
    exact .inl rfl
  | stop => exact .inl (stop_cases h).1
  | join t =>
    obtain ⟨-, rfl⟩ := step_join h
    exact .inl rfl
  | restart registry now ttl => exact absurd rfl (hrestart registry now ttl)

/-- A step of the daemon makes at most one access to the dispatcher, the one `worldAction` gives. -/
theorem step_world {a : DaemonAction} (h : (daemonSystem C).step D a = some D') :
    D'.world = D.world ∨
      ∃ b, D.worldAction a = some b ∧ (dispatchSystem C).step D.world b = some D'.world := by
  cases a with
  | poll t o =>
    obtain ⟨world, hworld, rfl⟩ := Option.map_eq_some_iff.mp h
    exact .inr ⟨_, rfl, hworld⟩
  | pull l move =>
    obtain ⟨⟨agent, s, polling, aborted⟩, D₁, p', hp, htask, rfl⟩ := step_pull h
    obtain ⟨-, -, ⟨rfl, -⟩ | hpulls⟩ := pullTask_cases htask
    · exact .inl rfl
    generalize p'.stage = s' at hpulls
    cases hpulls with
    | call hworld => exact .inr ⟨.call agent, by simp [worldAction, hp], hworld⟩
    | @count c world hworld => exact .inr ⟨.pollCall c, by simp [worldAction, hp], hworld⟩
    | @spawn d credit inbox world hworld =>
      exact .inr ⟨.deliver d, by simp [worldAction, hp], hworld⟩
    | _ => exact .inl rfl
  | send loop agent sending =>
    obtain ⟨c, c', d, -, -, ⟨-, rfl⟩ | ⟨l, p, stage, -, -, -, -, rfl⟩⟩ := step_send h
    · exact .inl rfl
    · exact .inl rfl
  | settle agent seq =>
    obtain ⟨c, -, -, rfl⟩ := step_settle h
    exact .inl rfl
  | request op =>
    obtain ⟨-, rfl⟩ := step_request h
    exact .inl rfl
  | serve r o =>
    obtain ⟨stage, D₁, stage', hstage, hserve, rfl⟩ := step_serve h
    cases stage with
    | registry op =>
      simp only [serve] at hserve
      split at hserve
      · rename_i registry changes hperform
        cases hserve
        exact .inr ⟨.setRegistry registry, by simp [worldAction, hstage, hperform], rfl⟩
      · cases hserve
        exact .inl rfl
    | dispatcher changes =>
      cases hserve
      exact .inr ⟨.applyChanges changes, by simp [worldAction, hstage], rfl⟩
    | relay changes stage =>
      have hrelay : D.applyRelay o changes stage = (D₁, stage') := Option.some_inj.mp hserve
      have hworld := world_applyRelay D o changes stage
      rw [hrelay] at hworld
      exact .inl hworld
    | returned result => cases hserve
  | shutdown =>
    obtain ⟨-, rfl⟩ := step_shutdown h
    exact .inl rfl
  | stop => exact .inl (stop_cases h).2.1
  | join t =>
    obtain ⟨-, rfl⟩ := step_join h
    exact .inl rfl
  | restart registry now ttl =>
    obtain ⟨world, hworld, rfl⟩ := step_restart h
    exact .inr ⟨_, rfl, hworld⟩

end Daemon

/-- A run of the daemon projects to a run of the dispatcher. -/
theorem Daemon.run_world {ok : Daemon → DaemonAction → Prop} {okW : World → Action → Prop}
    {D₀ : Daemon} (hrun : (daemonSystem C).Run ok D₀ D)
    (hok : ∀ x a, ok x a → ∀ b ∈ x.worldAction a, okW x.world b) :
    (dispatchSystem C).Run okW D₀.world D.world := by
  refine hrun.map Daemon.world fun x a y hxa hstep => ?_
  rcases step_world hstep with hsame | ⟨b, hb, hstep⟩
  · exact .inl hsame
  · exact .inr ⟨b, hok x a hxa b hb, hstep⟩

end Agentd
