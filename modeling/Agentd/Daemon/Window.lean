import Agentd.Daemon.Reconcile

/-!
# The window the server keeps

The limit of a registration reaches the server at the bind, as the window (`max_ack_pending`) of the
durable consumer.  The bind is `get_or_create`: it sets the window of a new consumer and leaves that
of an existing one alone.

Every change of a registration that leaves its agent enabled is followed by a bind with the limit
registered (`WindowDue`), whatever other operations come in between.  So the stored window is the
registered limit as long as every bind finds no consumer or one that has the limit already
(`BindsStored`), over restarts of the daemon too.
-/

namespace Agentd

open TransitionSystem TaskPool

variable {C : DispatcherConfig} {D D' D₁ : Daemon} {agent : AgentId}

/-- The window the server keeps for the agent's consumer. -/
def Daemon.window (D : Daemon) (agent : AgentId) : Option ℕ :=
  (D.consumers agent).map fun c => c.config.maxAckPending

/-- The relay binds the consumer with the limit `n` for the change, when the registration has that
limit at that time. -/
def Change.BindsLimit (n : UInt32) : Change → Prop
  | .added c | .enabled c => c.maxConcurrency = n
  | .updated _ => True
  | .disabled _ | .removed _ => False

/-- At the stage of its first remaining change, the relay is still to bind the consumer with the
limit `n` for it. -/
def RelayStage.BindsLimit (ch : Change) (n : UInt32) : RelayStage → Prop
  | .begin => ch.BindsLimit n
  | .read => True
  | .bind m => m = n
  | .start | .store _ => False

/-- The relay is still to bind the agent's consumer with the limit `n` for one of the changes. -/
def BindsLimit (agent : AgentId) (n : UInt32) (s : RelayStage) : List Change → Prop
  | [] => False
  | ch :: rest => (ch.agentId = agent ∧ s.BindsLimit ch n) ∨ BindsLimit agent n .begin rest

/-- The operation is still to bind the agent's consumer with the limit `n`, when the registration
has that limit at that time. -/
def RequestStage.BindsLimit (agent : AgentId) (n : UInt32) : RequestStage → Prop
  | .dispatcher changes => Agentd.BindsLimit agent n .begin changes
  | .relay changes s => Agentd.BindsLimit agent n s changes
  | .registry _ | .returned _ => False

/-- The window of an enabled agent is the limit registered, or some operation is still to bind its
consumer with that limit. -/
def Daemon.WindowDue (D : Daemon) : Prop :=
  ∀ agent c, D.registry.get agent = some c → c.enabled = true →
    D.window agent = some c.maxConcurrency.toNat ∨
      ∃ stage ∈ D.requests, stage.BindsLimit agent c.maxConcurrency

theorem bindsLimit_begin {n : UInt32} {changes : List Change} :
    BindsLimit agent n .begin changes ↔ ∃ ch ∈ changes, ch.agentId = agent ∧ ch.BindsLimit n := by
  induction changes with
  | nil => simp [BindsLimit]
  | cons ch rest ih => simp [BindsLimit, RelayStage.BindsLimit, ih]

/-- A reload that leaves an agent enabled found it enabled with the same limit, or reports a change
for which the relay binds with the limit. -/
theorem Registry.diff_bindsLimit {old new : Registry} {c : AgentConfig}
    (hget : new.get agent = some c) (hen : c.enabled = true) :
    (∃ c', old.get agent = some c' ∧ c'.enabled = true ∧ c'.maxConcurrency = c.maxConcurrency) ∨
      ∃ ch ∈ old.diff new, ch.agentId = agent ∧ ch.BindsLimit c.maxConcurrency := by
  have hid : c.agentId = agent := agentId_of_get hget
  have hreport : ∀ ch, diffEntry agent (old.get agent) (new.get agent) = some ch →
      ch.BindsLimit c.maxConcurrency →
      ∃ ch ∈ old.diff new, ch.agentId = agent ∧ ch.BindsLimit c.maxConcurrency := by
    intro ch hch hbinds
    exact ⟨ch, mem_diff.mpr ⟨agent, hch⟩, agentId_of_diffEntry hch, hbinds⟩
  cases hold : old.get agent with
  | none =>
    refine .inr (hreport (.added c) ?_ rfl)
    rw [hold, hget]
    rfl
  | some a =>
    cases haen : a.enabled with
    | false =>
      refine .inr (hreport (.enabled c) ?_ rfl)
      rw [hold, hget]
      simp [diffEntry, haen, hen]
    | true =>
      cases heq : a.partialEq c with
      | true => exact .inl ⟨a, rfl, haen, (AgentConfig.eq_of_partialEq heq).1⟩
      | false =>
        refine .inr (hreport (.updated c) ?_ trivial)
        rw [hold, hget]
        simp [diffEntry, haen, hen, heq]

/-- An operation that leaves an agent enabled found it enabled with the same limit, or reports a
change for which the relay binds with the limit. -/
theorem ControlOp.perform_bindsLimit {op : ControlOp} {r r' : Registry} {o : ServeOutcome}
    {changes : List Change} {c : AgentConfig} (h : op.perform r o = .ok (r', changes))
    (hget : r'.get agent = some c) (hen : c.enabled = true) :
    (∃ c', r.get agent = some c' ∧ c'.enabled = true ∧ c'.maxConcurrency = c.maxConcurrency) ∨
      ∃ ch ∈ changes, ch.agentId = agent ∧ ch.BindsLimit c.maxConcurrency := by
  have hid := Registry.agentId_of_get hget
  -- an operation that writes one entry reports the entry it has written
  have hinsert : ∀ (c₁ : AgentConfig) (hvalid : c₁.validate = .ok ()) (ch : Change),
      r' = r.insert c₁ hvalid → changes = [ch] → ch.agentId = c₁.agentId →
      ch.BindsLimit c₁.maxConcurrency →
      (∃ c', r.get agent = some c' ∧ c'.enabled = true ∧ c'.maxConcurrency = c.maxConcurrency) ∨
        ∃ ch ∈ changes, ch.agentId = agent ∧ ch.BindsLimit c.maxConcurrency := by
    rintro c₁ hvalid ch rfl rfl hch hbinds
    by_cases hag : agent = c₁.agentId
    · subst hag
      obtain rfl : c₁ = c :=
        Option.some_inj.mp ((Registry.get_insert_self r c₁ hvalid).symm.trans hget)
      exact .inr ⟨ch, List.mem_singleton_self _, hch, hbinds⟩
    · rw [Registry.get_insert_of_ne hvalid hag] at hget
      exact .inl ⟨c, hget, hen, rfl⟩
  cases op.performs h with
  | register hnew hvalid => exact hinsert _ hvalid _ rfl rfl rfl rfl
  | update hold hvalid => exact hinsert _ hvalid _ rfl rfl rfl trivial
  | @unregister id hold =>
    by_cases hag : agent = id
    · simp [hag] at hget
    · rw [Registry.get_erase_of_ne hag] at hget
      exact .inl ⟨c, hget, hen, rfl⟩
  | reload hload => exact Registry.diff_bindsLimit hget hen

/-- The relay is not about to bind a consumer that has another window already. -/
def RequestStage.BindsStored (D : Daemon) : RequestStage → Prop
  | .relay (ch :: _) (.bind n) => ∀ m ∈ D.window ch.agentId, m = n.toNat
  | _ => True

/-- The step is no bind of a consumer that has another window already. -/
def Daemon.BindsStored (D : Daemon) : DaemonAction → Prop
  | .serve r _ => ∀ stage ∈ D.requests[r]?, stage.BindsStored D
  | _ => True

/-- The server keeps the configuration of a consumer it sends messages of. -/
theorem Consumer.config_of_send {c c' : Consumer} {d : Delivery} {sending : Sending}
    (h : c.send agent sending = some (c', d)) : c'.config = c.config := by
  cases sending with
  | new m =>
    simp only [send] at h
    split at h
    · cases h
      rfl
    · cases h
  | again seq =>
    simp only [send] at h
    split at h
    · cases h
      rfl
    · cases h

namespace Daemon

variable {r : ℕ} {stage stage' : RequestStage} {o : ServeOutcome} {id : AgentId} {n : UInt32}

/-- A bind leaves the window of an existing consumer alone. -/
theorem window_bind {m : ℕ} {config : ConsumerConfig} (h : D.window agent = some m) :
    ({ D with consumers := getOrCreateConsumer D.consumers id config } : Daemon).window agent =
      some m := by
  cases hid : D.consumers id with
  | some c => simpa [window, getOrCreateConsumer, hid] using h
  | none =>
    have hne : agent ≠ id := by
      rintro rfl
      simp [window, hid] at h
    simpa [window, getOrCreateConsumer, hid, hne] using h

/-- After a bind the consumer has the window that was bound, if it had no other one. -/
theorem window_bind_self (h : ∀ m ∈ D.window id, m = n.toNat) :
    ({ D with
      consumers := getOrCreateConsumer D.consumers id (consumerConfig id n.toNat) } :
        Daemon).window id = some n.toNat := by
  cases hid : D.consumers id with
  | some c =>
    have hsame : c.config.maxAckPending = n.toNat := h _ (by simp [window, hid])
    simp [window, getOrCreateConsumer, hid, hsame]
  | none => simp [window, getOrCreateConsumer, hid, consumerConfig]

/-- An access after which each enabled agent was enabled with the same limit before and keeps what
it had, or is still to be bound with its limit. -/
theorem WindowDue.set (h : D.WindowDue) (hr : D.requests[r]? = some stage)
    (hreq : D₁.requests = D.requests)
    (hstep : ∀ agent c, D₁.registry.get agent = some c → c.enabled = true →
      (∃ c', D.registry.get agent = some c' ∧ c'.enabled = true ∧
        c'.maxConcurrency = c.maxConcurrency ∧
        (∀ m, D.window agent = some m → D₁.window agent = some m) ∧
        (stage.BindsLimit agent c.maxConcurrency →
          stage'.BindsLimit agent c.maxConcurrency ∨
            D₁.window agent = some c.maxConcurrency.toNat)) ∨
      stage'.BindsLimit agent c.maxConcurrency) :
    ({ D₁ with requests := D₁.requests.set r stage' } : Daemon).WindowDue := by
  intro agent c hget hen
  show D₁.window agent = some c.maxConcurrency.toNat ∨
    ∃ s ∈ D₁.requests.set r stage', s.BindsLimit agent c.maxConcurrency
  rw [hreq]
  have hnow : stage' ∈ D.requests.set r stage' :=
    List.mem_of_getElem? (getElem?_set_self_of_mem hr)
  rcases hstep agent c hget hen with ⟨c', hget', hen', hsame, hwindow, hkeep⟩ | hdue
  · rcases h agent c' hget' hen' with hbound | ⟨s, hs, hdue⟩
    · rw [hsame] at hbound
      exact .inl (hwindow _ hbound)
    · rw [hsame] at hdue
      obtain ⟨j, hj⟩ := List.mem_iff_getElem?.mp hs
      by_cases hjr : j = r
      · subst hjr
        obtain rfl : stage = s := Option.some_inj.mp (hr.symm.trans hj)
        rcases hkeep hdue with hdue' | hbound
        · exact .inr ⟨stage', hnow, hdue'⟩
        · exact .inl hbound
      · refine .inr ⟨s, List.mem_of_getElem? (i := j) ?_, hdue⟩
        rw [List.getElem?_set_ne (Ne.symm hjr)]
        exact hj
  · exact .inr ⟨stage', hnow, hdue⟩

@[simp] theorem window_stopPull (D : Daemon) (id : AgentId) :
    (D.stopPull id).window agent = D.window agent := by
  unfold stopPull
  split <;> rfl

/-- An access of a control operation keeps the windows due. -/
theorem WindowDue.serve (h : D.WindowDue) (hr : D.requests[r]? = some stage)
    (hserve : Serves D o stage D₁ stage') (hbinds : o.bindFails = false)
    (hstored : stage.BindsStored D) :
    ({ D₁ with requests := D₁.requests.set r stage' } : Daemon).WindowDue := by
  cases hserve with
  | change hperform =>
    refine h.set hr rfl fun agent c hget hen => ?_
    rcases ControlOp.perform_bindsLimit hperform hget hen with ⟨c', hget', hen', hsame⟩ | hdue
    · exact .inl ⟨c', hget', hen', hsame, fun _ => id, False.elim⟩
    · exact .inr (bindsLimit_begin.mpr hdue)
  | refuse => exact h.set hr rfl fun agent c hget hen => .inl ⟨c, hget, hen, rfl, fun _ => id, .inl⟩
  | reset => exact h.set hr rfl fun agent c hget hen => .inl ⟨c, hget, hen, rfl, fun _ => id, .inl⟩
  | finish =>
    exact h.set hr rfl fun agent c hget hen => .inl ⟨c, hget, hen, rfl, fun _ => id, False.elim⟩
  | @launch ch rest c₁ hch =>
    refine h.set hr rfl fun agent c hget hen => .inl ⟨c, hget, hen, rfl, fun _ => id, ?_⟩
    rintro (⟨hag, hlimit⟩ | hrest)
    · rcases hch with rfl | rfl <;> exact .inl (.inl ⟨hag, hlimit⟩)
    · exact .inl (.inr hrest)
  | rebind =>
    refine h.set hr (requests_stopPull ..) fun agent c hget hen => ?_
    rw [registry, world_stopPull] at hget
    refine .inl ⟨c, hget, hen, rfl, fun m hm => by rw [window_stopPull]; exact hm, ?_⟩
    rintro (⟨hag, -⟩ | hrest)
    · exact .inl (.inl ⟨hag, trivial⟩)
    · exact .inl (.inr hrest)
  | @halt ch rest hstops =>
    refine h.set hr (requests_stopPull ..) fun agent c hget hen => ?_
    rw [registry, world_stopPull] at hget
    refine .inl ⟨c, hget, hen, rfl, fun m hm => by rw [window_stopPull]; exact hm, ?_⟩
    rintro (⟨-, hlimit⟩ | hrest)
    · cases ch with
      | disabled | removed => exact hlimit.elim
      | _ => cases hstops
    · exact .inl hrest
  | @read ch rest c₁ hget₁ =>
    refine h.set hr rfl fun agent c hget hen => .inl ⟨c, hget, hen, rfl, fun _ => id, ?_⟩
    rintro (⟨hag, -⟩ | hrest)
    · subst hag
      obtain rfl : c₁ = c := Option.some_inj.mp (hget₁.symm.trans hget)
      exact .inl (.inl ⟨rfl, rfl⟩)
    · exact .inl (.inr hrest)
  | @skip ch rest hdis =>
    refine h.set hr rfl fun agent c hget hen => .inl ⟨c, hget, hen, rfl, fun _ => id, ?_⟩
    rintro (⟨rfl, -⟩ | hrest)
    · exact absurd ⟨c, hget, hen⟩ hdis
    · exact .inl hrest
  | unbound hfails =>
    rw [hbinds] at hfails
    cases hfails
  | @bind ch rest n =>
    refine h.set hr rfl fun agent c hget hen =>
      .inl ⟨c, hget, hen, rfl, fun m hm => window_bind hm, ?_⟩
    rintro (⟨rfl, rfl⟩ | hrest)
    · exact .inr (window_bind_self hstored)
    · exact .inl (.inr hrest)
  | spawn =>
    refine h.set hr rfl fun agent c hget hen => .inl ⟨c, hget, hen, rfl, fun _ => id, ?_⟩
    rintro (⟨-, hlimit⟩ | hrest)
    · exact hlimit.elim
    · exact .inl (.inr hrest)
  | store =>
    refine h.set hr rfl fun agent c hget hen => .inl ⟨c, hget, hen, rfl, fun _ => id, ?_⟩
    rintro (⟨-, hlimit⟩ | hrest)
    · exact hlimit.elim
    · exact .inl hrest

/-- Between the accesses of control operations no window changes. -/
theorem window_of_step {a : DaemonAction} (hstep : (daemonSystem C).step D a = some D')
    (hserve : ∀ r o, a ≠ .serve r o) : D'.window agent = D.window agent := by
  cases a with
  | poll t o =>
    obtain ⟨world, -, rfl⟩ := Option.map_eq_some_iff.mp hstep
    rfl
  | pull l move =>
    obtain ⟨p, D₁, p', -, htask, rfl⟩ := step_pull hstep
    obtain ⟨-, -, ⟨rfl, -⟩ | hpulls⟩ := pullTask_cases htask
    · rfl
    · exact congrArg (fun consumers => (consumers agent).map fun c => c.config.maxAckPending)
        hpulls.relay_eq.2.2.2.1
  | send loop id sending =>
    have hupdate : ∀ c c' d, D.consumers id = some c → c.send id sending = some (c', d) →
        ((Function.update D.consumers id (some c')) agent).map (fun c => c.config.maxAckPending) =
          D.window agent := by
      intro c c' d hc hsend
      by_cases hag : agent = id
      · subst hag
        simp [window, hc, Consumer.config_of_send hsend]
      · simp [window, hag]
    obtain ⟨c, c', d, hc, hsend, ⟨-, rfl⟩ | ⟨l, p, stage, -, -, -, -, rfl⟩⟩ := step_send hstep
    · exact hupdate c c' d hc hsend
    · exact hupdate c c' d hc hsend
  | settle id seq =>
    obtain ⟨c, hc, -, rfl⟩ := step_settle hstep
    by_cases hag : agent = id
    · subst hag
      simp [window, hc, Consumer.settle]
    · simp [window, hag]
  | request op =>
    obtain ⟨-, rfl⟩ := Daemon.step_request hstep
    rfl
  | serve r o => exact absurd rfl (hserve r o)
  | shutdown =>
    obtain ⟨-, rfl⟩ := Daemon.step_shutdown hstep
    rfl
  | stop pick =>
    obtain ⟨-, -, hconsumers, -⟩ := stop_cases hstep
    simp only [window, hconsumers]
  | join t =>
    obtain ⟨-, rfl⟩ := Daemon.step_join hstep
    rfl
  | restart registry now ttl =>
    obtain ⟨world, -, rfl⟩ := Daemon.step_restart hstep
    rfl

/-- Between the accesses of control operations and crashes no registration changes. -/
theorem get_of_step {a : DaemonAction} (hstep : (daemonSystem C).step D a = some D')
    (hserve : ∀ r o, a ≠ .serve r o)
    (hrestart : ∀ registry now ttl, a ≠ .restart registry now ttl) :
    D'.registry.get agent = D.registry.get agent := by
  cases a with
  | shutdown =>
    obtain ⟨-, rfl⟩ := Daemon.step_shutdown hstep
    rfl
  | stop pick => rw [registry, (stop_cases hstep).2.1]
  | join t =>
    obtain ⟨-, rfl⟩ := Daemon.step_join hstep
    rfl
  | restart registry now ttl => exact absurd rfl (hrestart registry now ttl)
  | _ =>
    refine (step_other hstep ?_ hserve).1 agent
    trivial

/-- The startup binds the consumer of every enabled agent with the limit registered. -/
theorem bindsLimit_startup {registry : Registry} {c : AgentConfig}
    (hget : registry.get agent = some c) (hen : c.enabled = true) :
    (startup registry).BindsLimit agent c.maxConcurrency := by
  refine bindsLimit_begin.mpr ⟨.added c, ?_, Registry.agentId_of_get hget, rfl⟩
  have hsnapshot : c ∈ registry.snapshot := Registry.mem_snapshot.mpr ⟨agent, hget⟩
  exact List.mem_map_of_mem (List.mem_filter.mpr ⟨hsnapshot, hen⟩)

/-- The windows stay due. -/
theorem WindowDue.step (h : D.WindowDue) {a : DaemonAction} (hbinds : a.Binds)
    (hstored : D.BindsStored a) (hstep : (daemonSystem C).step D a = some D') : D'.WindowDue := by
  by_cases hserve : ∃ r o, a = .serve r o
  · obtain ⟨r, o, rfl⟩ := hserve
    obtain ⟨stage, D₁, stage', hr, hserve, rfl⟩ := step_serve hstep
    exact h.serve hr (serves_of_serve hserve) hbinds (hstored stage hr)
  by_cases hrestart : ∃ registry now ttl, a = .restart registry now ttl
  · obtain ⟨registry, now, ttl, rfl⟩ := hrestart
    simp only [daemonSystem, Daemon.step, World.step, Option.bind_eq_bind,
      Option.bind_some] at hstep
    cases hstep
    intro agent c hget hen
    exact .inr ⟨startup registry, List.mem_singleton_self _, bindsLimit_startup hget hen⟩
  · have hserve' : ∀ r o, a ≠ .serve r o := fun r o heq => hserve ⟨r, o, heq⟩
    have hrestart' : ∀ registry now ttl, a ≠ .restart registry now ttl :=
      fun registry now ttl heq => hrestart ⟨registry, now, ttl, heq⟩
    intro agent c hget hen
    rw [get_of_step hstep hserve' hrestart'] at hget
    rw [window_of_step hstep hserve']
    refine (h agent c hget hen).imp_right ?_
    rintro ⟨stage, hstage, hdue⟩
    rcases step_requests hstep hserve' hrestart' with hsame | ⟨op, -, happend⟩
    · exact ⟨stage, hsame.symm ▸ hstage, hdue⟩
    · exact ⟨stage, happend.symm ▸ List.mem_append_left _ hstage, hdue⟩

end Daemon

/-- In a run without a failing bind, over any number of restarts, in which every bind finds no
consumer or one whose window is the limit that is bound, the window of every enabled agent is the
limit registered whenever all operations have returned. -/
theorem window_eq_registered {registry : Registry} {dedup : DedupStore}
    {consumers : AgentId → Option Consumer} {config : AgentConfig}
    (hrun : (daemonSystem C).Run (fun D a => a.Binds ∧ D.BindsStored a)
      (.start registry dedup consumers) D)
    (hidle : D.Idle) (hget : D.registry.get agent = some config) (hen : config.enabled = true) :
    D.window agent = some config.maxConcurrency.toNat := by
  have hdue : D.WindowDue := by
    refine hrun.invariant (I := Daemon.WindowDue) ?_
      fun _ _ _ h hok hstep => h.step hok.1 hok.2 hstep
    intro agent c hget hen
    exact .inr ⟨Daemon.startup registry, List.mem_singleton_self _,
      Daemon.bindsLimit_startup hget hen⟩
  rcases hdue agent config hget hen with hbound | ⟨stage, hstage, hdue⟩
  · exact hbound
  · -- an operation that has returned has nothing to bind
    have hreturned := hidle stage hstage
    cases stage with
    | returned result => exact hdue.elim
    | _ => cases hreturned

instance (D : Daemon) : DecidablePred (RequestStage.BindsStored D)
  | .relay (ch :: _) (.bind n) =>
    inferInstanceAs (Decidable (∀ m ∈ D.window ch.agentId, m = n.toNat))
  | .relay [] _ | .relay (_ :: _) .begin | .relay (_ :: _) .read | .relay (_ :: _) .start
  | .relay (_ :: _) (.store _) | .registry _ | .dispatcher _ | .returned _ =>
    inferInstanceAs (Decidable True)

instance (D : Daemon) : DecidablePred D.BindsStored
  | .serve r _ => inferInstanceAs (Decidable (∀ stage ∈ D.requests[r]?, stage.BindsStored D))
  | .poll .. | .pull .. | .send .. | .settle .. | .request _ | .shutdown | .stop _ | .join _
  | .restart .. => inferInstanceAs (Decidable True)

namespace Sample

/-- The limit of the agent, which is disabled, is set to two; the agent is enabled, disabled again,
and enabled by a reload after a restart. -/
def raiseWhileDisabled : List DaemonAction :=
  serves 0 1 ++ [.request (.update (config 2 false false))] ++ serves 1 5 ++
    [.request (.update (config 2))] ++ serves 2 8 ++
    [.request (.update (config 2 false false))] ++ serves 3 5 ++
    [.restart (registry (config 2 false false)) 0 0] ++ serves 0 1 ++ [.request .reload] ++
    reloads 1 7 (config 2)

/-- The limit of the agent is raised from one to two. -/
def raiseLimit : List DaemonAction :=
  serves 0 5 ++ [.request (.update (config 2))] ++ serves 1 8

end Sample

theorem window_eq_registered_raiseWhileDisabled :
    ∃ D, (daemonSystem Sample.dispatcherConfig).Run (fun D a => a.Binds ∧ D.BindsStored a)
        (.start (Sample.registry (Sample.config 1 false false)) .empty fun _ => none) D ∧ D.Idle ∧
      D.registry.get Sample.agent = some (Sample.config 2) ∧ D.window Sample.agent = some 2 := by
  obtain ⟨D, hrun, hend⟩ := exists_run_of_exec (daemonSystem Sample.dispatcherConfig)
    (fun D a => a.Binds ∧ D.BindsStored a)
    (.start (Sample.registry (Sample.config 1 false false)) .empty fun _ => none)
    Sample.raiseWhileDisabled
    (fun D => decide (D.Idle ∧ D.registry.get Sample.agent = some (Sample.config 2)))
    (by decide +kernel)
  obtain ⟨hidle, hget⟩ := of_decide_eq_true hend
  exact ⟨D, hrun, hidle, hget, window_eq_registered hrun hidle hget rfl⟩

/-- An update that raises the limit of an enabled agent leaves the window of its consumer as it
was. -/
theorem window_not_raised :
    ¬∀ (C : DispatcherConfig) (registry : Registry) (dedup : DedupStore)
        (consumers : AgentId → Option Consumer) (D : Daemon) (agent : AgentId)
        (config : AgentConfig),
      (daemonSystem C).Run (fun _ a => a.InService ∧ a.Binds) (.start registry dedup consumers) D →
      D.Idle → D.registry.get agent = some config → config.enabled = true →
      D.window agent = some config.maxConcurrency.toNat := by
  intro h
  obtain ⟨D, hrun, hend⟩ := exists_run_of_exec (daemonSystem Sample.dispatcherConfig)
    (fun _ a => a.InService ∧ a.Binds)
    (.start (Sample.registry Sample.config) .empty fun _ => none) Sample.raiseLimit
    (fun D => decide (D.Idle ∧ D.registry.get Sample.agent = some (Sample.config 2) ∧
      D.window Sample.agent = some 1)) (by decide +kernel)
  obtain ⟨hidle, hget, hwindow⟩ := of_decide_eq_true hend
  have htwo := h _ _ _ _ D Sample.agent _ hrun hidle hget rfl
  rw [hwindow] at htwo
  exact absurd htwo (by decide)

end Agentd
