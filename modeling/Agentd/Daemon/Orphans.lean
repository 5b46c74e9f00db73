import Agentd.Daemon.LoopTable

/-!
# No pull loop is orphaned

`Relay::start_pull` spawns a pull loop before it takes the lock of the table, and
`Relay::shutdown` aborts the loops after it has given the lock back.  In between the handle of a
loop is with the operation alone.  At all other times it is in the table under the loop's agent, so
whoever stops, replaces or shuts down that agent's loop finds it (`sole_loop_stored`).

The operations of the relay are called here by anyone and any number of times, beside the control
operations and the shutdown of the daemon (`relaySystem`).
-/

namespace Agentd

open TransitionSystem TaskPool

variable {C : DispatcherConfig} {D D' D₁ : Daemon} {agent : AgentId} {l : ℕ}

/-! ## Calls of the relay -/

/-- An operation of the relay. -/
inductive RelayOp where
  | startPull (id : AgentId)
  | stopPull (id : AgentId)
  | applyChanges (changes : List Change)
  | shutdown

/-- The position of a call of one of them. -/
inductive RelayCall where
  /-- `Relay::start_pull`: spawn the pull loop. -/
  | startPull (id : AgentId)
  /-- `Relay::start_pull`: store the handle of the new loop. -/
  | storePull (id : AgentId) (loop : ℕ)
  | stopPull (id : AgentId)
  | applyChanges (changes : List Change) (stage : RelayStage)
  | shutdown (stage : ShutdownStage)
  | returned

/-- A call that has not begun. -/
def RelayOp.call : RelayOp → RelayCall
  | .startPull id => .startPull id
  | .stopPull id => .stopPull id
  | .applyChanges changes => .applyChanges changes .begin
  | .shutdown => .shutdown .drain

namespace RelayCall

/-- One access of a call.  A shutdown makes the accesses of the daemon's own at its own stage. -/
def advance (D : Daemon) (o : ServeOutcome) (pick : ℕ) : RelayCall → Option (Daemon × RelayCall)
  | .startPull id =>
    some ({ D with loops := D.loops ++ [⟨id, .free, false, false⟩] },
      .storePull id D.loops.length)
  | .storePull id l => some (D.storePull id l, .returned)
  | .stopPull id => some (D.stopPull id, .returned)
  | .applyChanges changes stage =>
    match D.applyRelay o changes stage with
    | (D', .relay changes stage) => some (D', .applyChanges changes stage)
    | (D', _) => some (D', .returned)
  | .shutdown stage =>
    (({ D with shutdown := some stage } : Daemon).stop pick).map fun D' =>
      ({ D' with shutdown := D.shutdown }, .shutdown (D'.shutdown.getD .returned))
  | .returned => none

/-- The call has returned. -/
def hasReturned : RelayCall → Bool
  | .returned => true
  | _ => false

/-- The call has the handle of the loop: it is about to store or to abort it. -/
def Holds (agent : AgentId) (l : ℕ) : RelayCall → Prop
  | .storePull id k => (id, k) = (agent, l)
  | .applyChanges changes stage =>
    (RequestStage.relay changes stage).newLoop = some (agent, l)
  | .shutdown (.abort handles) => l ∈ handles
  | _ => False

end RelayCall

/-- The daemon with calls of the relay from elsewhere. -/
structure CalledDaemon where
  daemon : Daemon
  calls : List RelayCall

/-- The atomic actions of the daemon, the server and the callers. -/
inductive RelayAction where
  | daemon (a : DaemonAction)
  /-- An operation of the relay is called. -/
  | call (op : RelayOp)
  /-- The call `i` makes its next access. -/
  | advance (i : ℕ) (o : ServeOutcome) (pick : ℕ := 0)
  /-- The call `i`, a shutdown, joins the finished dispatch `t`. -/
  | join (i t : ℕ)

/-- The calls after an action of the daemon: a crash ends them. -/
def DaemonAction.keep (calls : List RelayCall) : DaemonAction → List RelayCall
  | .restart .. => []
  | _ => calls

namespace CalledDaemon

/-- One action of the daemon, the server or a caller. -/
def step (C : DispatcherConfig) (S : CalledDaemon) : RelayAction → Option CalledDaemon
  | .daemon a => (S.daemon.step C a).map fun daemon => { daemon, calls := a.keep S.calls }
  | .call op => some { S with calls := S.calls ++ [op.call] }
  | .advance i o pick => do
    let call ← S.calls[i]?
    let (daemon, call') ← call.advance S.daemon o pick
    return { daemon, calls := S.calls.set i call' }
  | .join i t =>
    match S.calls[i]? with
    | some (.shutdown .join) =>
      (({ S.daemon with shutdown := some .join } : Daemon).step C (.join t)).map fun daemon =>
        { S with daemon := { daemon with shutdown := S.daemon.shutdown } }
    | _ => none

/-- The handle of the loop is with an operation under way, of the daemon or of a caller. -/
def Held (S : CalledDaemon) (agent : AgentId) (l : ℕ) : Prop :=
  S.daemon.Held agent l ∨ ∃ (i : ℕ) (call : RelayCall), S.calls[i]? = some call ∧ call.Holds agent l

end CalledDaemon

/-- The daemon, the server and the callers under every interleaving. -/
def relaySystem (C : DispatcherConfig) : TransitionSystem CalledDaemon RelayAction where
  step := CalledDaemon.step C

/-! ## Strays are held -/

namespace RelayCall

variable {o : ServeOutcome} {pick : ℕ} {call call' : RelayCall}

/-- An access of `apply_changes` is one of a control operation at that stage. -/
theorem serves_of_advance {changes : List Change} {stage : RelayStage}
    (h : (RelayCall.applyChanges changes stage).advance D o pick = some (D', call')) :
    ∃ stage', Serves D o (.relay changes stage) D' stage' ∧
      (∀ agent l, stage'.newLoop = some (agent, l) → call'.Holds agent l) := by
  cases hrelay : D.applyRelay o changes stage with
  | mk D₁ stage' =>
    have hserves : Serves D o (.relay changes stage) D₁ stage' :=
      Daemon.serves_of_serve (congrArg some hrelay)
    simp only [advance, hrelay] at h
    cases stage' with
    | relay =>
      cases h
      exact ⟨_, hserves, fun _ _ heq => heq⟩
    | _ =>
      cases h
      exact ⟨_, hserves, nofun⟩

/-- A call leaves the operations of the daemon alone. -/
theorem frame_of_advance (h : call.advance D o pick = some (D', call')) :
    D'.requests = D.requests ∧ D'.shutdown = D.shutdown := by
  cases call with
  | startPull id | storePull id k =>
    cases h
    exact ⟨rfl, rfl⟩
  | stopPull id =>
    cases h
    unfold Daemon.stopPull
    split <;> exact ⟨rfl, rfl⟩
  | applyChanges changes stage =>
    obtain ⟨stage', hserves, -⟩ := serves_of_advance h
    exact ⟨hserves.frame.1, Daemon.shutdown_of_serves hserves⟩
  | shutdown stage =>
    obtain ⟨D₁, hstop, heq⟩ := Option.map_eq_some_iff.mp h
    cases heq
    exact ⟨(Daemon.stop_cases hstop).1, rfl⟩
  | returned => cases h

/-- A stray that the call does not have after an access was one before, and the call did not have
it. -/
theorem stray_of_advance (h : call.advance D o pick = some (D', call')) (hstray : D'.Stray agent l)
    (hfree : ¬call'.Holds agent l) : D.Stray agent l ∧ ¬call.Holds agent l := by
  cases call with
  | startPull id =>
    cases h
    rcases Daemon.stray_of_append hstray with ⟨rfl, rfl⟩ | hstray
    · exact absurd rfl hfree
    · exact ⟨hstray, not_false⟩
  | storePull id k =>
    cases h
    exact Daemon.stray_of_storePull hstray
  | stopPull id =>
    cases h
    exact ⟨Daemon.stray_of_stopPull hstray, not_false⟩
  | applyChanges changes stage =>
    obtain ⟨stage', hserves, hholds⟩ := serves_of_advance h
    exact Daemon.stray_of_serves hserves hstray fun heq => hfree (hholds agent l heq)
  | shutdown stage =>
    obtain ⟨D₁, hstop, heq⟩ := Option.map_eq_some_iff.mp h
    cases heq
    obtain ⟨hbefore, hleft⟩ := Daemon.stray_of_stop hstop hstray fun ls habort hmem => by
      refine hfree ?_
      rw [habort]
      exact hmem
    refine ⟨hbefore, fun hholds => ?_⟩
    cases stage with
    | abort handles => exact hleft handles rfl hholds
    | _ => exact hholds
  | returned => cases h

end RelayCall

namespace CalledDaemon

variable {S S' : CalledDaemon}

/-- The strays are held, by an operation of the daemon or by a caller. -/
def Accounted (S : CalledDaemon) : Prop :=
  ∀ agent l, S.daemon.Stray agent l → S.Held agent l

/-- A step of the daemon keeps the strays held. -/
theorem Accounted.daemon (h : S.Accounted) {a : DaemonAction}
    (hstep : (daemonSystem C).step S.daemon a = some D) :
    Accounted { daemon := D, calls := a.keep S.calls } := by
  intro agent l hstray
  by_cases hheld : D.Held agent l
  · exact .inl hheld
  · obtain ⟨hbefore, hnot⟩ := Daemon.stray_of_step hstep hstray hheld
    obtain ⟨i, call, hi, hholds⟩ := (h agent l hbefore).resolve_left hnot
    cases a with
    | restart registry now ttl =>
      obtain ⟨world, -, rfl⟩ := Daemon.step_restart hstep
      cases hstray.1
    | _ => exact .inr ⟨i, call, hi, hholds⟩

/-- An access of a caller keeps the strays held. -/
theorem Accounted.advance (h : S.Accounted) {i pick : ℕ} {o : ServeOutcome}
    {call call' : RelayCall}
    (hi : S.calls[i]? = some call) (hadvance : call.advance S.daemon o pick = some (D, call')) :
    Accounted { daemon := D, calls := S.calls.set i call' } := by
  intro agent l hstray
  obtain ⟨hrequests, hshutdown⟩ := RelayCall.frame_of_advance hadvance
  by_cases hheld : call'.Holds agent l
  · exact .inr ⟨i, call', getElem?_set_self_of_mem hi, hheld⟩
  · obtain ⟨hbefore, hnot⟩ := RelayCall.stray_of_advance hadvance hstray hheld
    rcases h agent l hbefore with hdaemon | ⟨j, other, hj, hholds⟩
    · left
      unfold Daemon.Held at hdaemon ⊢
      rwa [hrequests, hshutdown]
    · refine .inr ⟨j, other, ?_, hholds⟩
      rw [List.getElem?_set_ne]
      · exact hj
      · rintro rfl
        obtain rfl : call = other := Option.some_inj.mp (hi.symm.trans hj)
        exact hnot hholds

/-- The strays stay held. -/
theorem Accounted.step (h : S.Accounted) {a : RelayAction}
    (hstep : (relaySystem C).step S a = some S') : S'.Accounted := by
  cases a with
  | daemon a =>
    obtain ⟨D, hdaemon, rfl⟩ := Option.map_eq_some_iff.mp hstep
    have hdaemon : (daemonSystem C).step S.daemon a = some D := hdaemon
    exact h.daemon hdaemon
  | call op =>
    cases hstep
    intro agent l hstray
    refine (h agent l hstray).imp_right ?_
    rintro ⟨i, call, hi, hholds⟩
    exact ⟨i, call, getElem?_append_of_some hi, hholds⟩
  | advance i o pick =>
    simp only [relaySystem, CalledDaemon.step, Option.bind_eq_bind, Option.bind_eq_some_iff]
      at hstep
    obtain ⟨call, hi, ⟨D, call'⟩, hadvance, heq⟩ := hstep
    cases heq
    exact h.advance hi hadvance
  | join i t =>
    simp only [relaySystem, CalledDaemon.step] at hstep
    split at hstep
    · obtain ⟨D, hjoin, rfl⟩ := Option.map_eq_some_iff.mp hstep
      have hjoin : (daemonSystem C).step { S.daemon with shutdown := some .join } (.join t) =
        some D := hjoin
      obtain ⟨-, rfl⟩ := Daemon.step_join hjoin
      exact h
    · cases hstep

/-- A daemon that has just started, before anyone calls the relay. -/
def start (registry : Registry) (dedup : DedupStore) (consumers : AgentId → Option Consumer) :
    CalledDaemon where
  daemon := .start registry dedup consumers
  calls := []

/-- When every operation has returned, no handle is held. -/
theorem not_held_of_returned (hcalls : S.calls.all RelayCall.hasReturned = true)
    (hidle : S.daemon.Idle) (hshutdown : S.daemon.shutdown = none) : ¬S.Held agent l := by
  rintro ((⟨r, stage, hr, hnew⟩ | ⟨ls, habort, -⟩) | ⟨i, call, hi, hholds⟩)
  · have hreturned := hidle stage (List.mem_of_getElem? hr)
    cases stage with
    | returned result => cases hnew
    | _ => cases hreturned
  · rw [hshutdown] at habort
    cases habort
  · have hreturned := List.all_eq_true.mp hcalls call (List.mem_of_getElem? hi)
    cases call with
    | returned => exact hholds
    | _ => cases hreturned

end CalledDaemon

/-- Stopping the loop of an agent aborts the one in the table. -/
theorem Daemon.loopInfo_stopPull_self (hlive : D.loopInfo l = some (agent, false))
    (htable : D.pulls agent = some l) : (D.stopPull agent).loopInfo l = some (agent, true) := by
  obtain ⟨p, hp, heq⟩ := Option.map_eq_some_iff.mp hlive
  obtain rfl : p.agent = agent := congrArg Prod.fst heq
  change D.loops[l]? = some p at hp
  simp [Daemon.stopPull, htable, Daemon.loopInfo, hp, PullLoop.abort]

/-- Storing another loop for an agent aborts the one in the table. -/
theorem Daemon.loopInfo_storePull_self {k : ℕ} (hlive : D.loopInfo l = some (agent, false))
    (htable : D.pulls agent = some l) : (D.storePull agent k).loopInfo l = some (agent, true) := by
  obtain ⟨p, hp, heq⟩ := Option.map_eq_some_iff.mp hlive
  obtain rfl : p.agent = agent := congrArg Prod.fst heq
  change D.loops[l]? = some p at hp
  simp [Daemon.storePull, htable, Daemon.loopInfo, hp, PullLoop.abort]

/-- Whoever calls the operations of the relay, in any order: a loop that was spawned and not
aborted, and whose handle no operation under way has, is the only such loop of its agent and the one
stored for it.  So stopping the agent's loop aborts it, storing another one does, and a drain of the
table collects it. -/
theorem sole_loop_stored {registry : Registry} {dedup : DedupStore}
    {consumers : AgentId → Option Consumer} {S : CalledDaemon}
    (hrun : (relaySystem C).Run (fun _ _ => True) (.start registry dedup consumers) S)
    (hlive : S.daemon.loopInfo l = some (agent, false)) (hfree : ¬S.Held agent l) :
    S.daemon.pulls agent = some l ∧
      (∀ k, S.daemon.loopInfo k = some (agent, false) → ¬S.Held agent k → k = l) ∧
      (S.daemon.stopPull agent).loopInfo l = some (agent, true) ∧
      (∀ k, (S.daemon.storePull agent k).loopInfo l = some (agent, true)) ∧
      l ∈ S.daemon.handles := by
  have hacc : S.Accounted := by
    refine hrun.invariant (I := CalledDaemon.Accounted) ?_ fun _ _ _ hx _ hstep => hx.step hstep
    intro agent l hstray
    cases hstray.1
  have hstored : ∀ k, S.daemon.loopInfo k = some (agent, false) → ¬S.Held agent k →
      S.daemon.pulls agent = some k := by
    intro k hk hnot
    by_contra htable
    exact hnot (hacc agent k ⟨hk, htable⟩)
  have htable := hstored l hlive hfree
  refine ⟨htable, fun k hk hnot => ?_, Daemon.loopInfo_stopPull_self hlive htable,
    fun k => Daemon.loopInfo_storePull_self hlive htable, Daemon.mem_handles hlive htable⟩
  exact Option.some_inj.mp ((hstored k hk hnot).symm.trans htable)

namespace Sample

/-- Two calls of `start_pull` for the same agent spawn a loop each before either stores its own. -/
def startTwice : List RelayAction :=
  [.daemon (.serve 0 {}), .call (.startPull Sample.agent), .call (.startPull Sample.agent)] ++
    [.advance 0 {}, .advance 1 {}, .advance 0 {}, .advance 1 {}]

end Sample

theorem sole_loop_stored_startTwice :
    ∃ S, (relaySystem Sample.dispatcherConfig).Run (fun _ _ => True)
        (.start .empty .empty fun _ => none) S ∧
      S.daemon.loopInfo 0 = some (Sample.agent, true) ∧
      S.daemon.pulls Sample.agent = some 1 ∧
      (∀ k, S.daemon.loopInfo k = some (Sample.agent, false) → ¬S.Held Sample.agent k → k = 1) ∧
      (S.daemon.stopPull Sample.agent).loopInfo 1 = some (Sample.agent, true) ∧
      (∀ k, (S.daemon.storePull Sample.agent k).loopInfo 1 = some (Sample.agent, true)) ∧
      1 ∈ S.daemon.handles := by
  obtain ⟨S, hrun, hend⟩ := exists_run_of_exec (relaySystem Sample.dispatcherConfig)
    (fun _ _ => True) (.start .empty .empty fun _ => none) Sample.startTwice
    (fun S => decide (S.daemon.loopInfo 0 = some (Sample.agent, true) ∧
      S.daemon.loopInfo 1 = some (Sample.agent, false) ∧
      S.calls.all RelayCall.hasReturned = true ∧ S.daemon.Idle ∧ S.daemon.shutdown = none))
    (by decide +kernel)
  obtain ⟨haborted, hlive, hcalls, hidle, hshutdown⟩ := of_decide_eq_true hend
  exact ⟨S, hrun, haborted, sole_loop_stored hrun hlive
    (CalledDaemon.not_held_of_returned hcalls hidle hshutdown)⟩

end Agentd
