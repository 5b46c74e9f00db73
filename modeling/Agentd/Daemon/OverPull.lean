import Agentd.Daemon.Restart
import Agentd.Daemon.SerialOrder
import Agentd.Dispatcher.Accounting

/-!
# Messages pulled and not resolved

A pull loop asks for the free slots and fetches at most that many messages; the dispatches that it
spawns take the slots later, when they are polled.  Slots that are free when the loop asks again may
already be spoken for by messages in hand, so the loop can pull more messages than the agent has
slots.  It cannot when every dispatch of the agent that has not resolved its message holds a permit
whenever the loop counts (`CountsSettled`).

The server is `openSystem`: besides everything the daemon and its consumers do, it may send any
message to the request of a loop, as long as the request allows one more.

The invariant `WithinSlots` is about the loop's budget, the messages it holds and the ones it may
still get: together with the unresolved dispatches they stay within the limit.  It needs that the
agent has one loop, which is the one the startup spawns (`OneLoop`).
-/

namespace Agentd

open TransitionSystem TaskPool

variable {C : DispatcherConfig} {D D' : Daemon} {agent : AgentId} {k : ℕ}

/-! ## The server -/

/-- The daemon with a server that answers a request with any messages, as many as it allows. -/
def openSystem (C : DispatcherConfig) :
    TransitionSystem Daemon (DaemonAction ⊕ (ℕ × Delivery)) where
  step D
    | .inl a => D.step C a
    | .inr (l, d) => do
      let p ← D.loops[l]?
      if d.agent = p.agent then
        let stage ← p.stage.accept d
        return { D with loops := D.loops.set l { p with stage } }
      else none

/-- The dispatch has called ack or term, or has dropped its copy. -/
def Stage.resolved : Stage → Bool
  | .finished | .slot _ _ .release => true
  | _ => false

/-- The dispatch is of the agent and has not resolved its message. -/
def Task.unresolvedFor (agent : AgentId) (task : Task) : Bool :=
  decide (task.delivery.agent = agent) && !task.stage.resolved

/-- The dispatches of the agent that have not resolved their messages. -/
def World.unresolved (agent : AgentId) (w : World) : ℕ :=
  w.tasks.countP (Task.unresolvedFor agent)

/-- The messages of the agent that were pulled and are neither resolved nor dropped: those its loops
hold and those of its dispatches. -/
def Daemon.pulled (agent : AgentId) (D : Daemon) : ℕ :=
  D.world.unresolved agent +
    ((D.loops.filter fun p => p.agent = agent).flatMap fun p => p.stage.held).length

/-- The call a loop is waiting for. -/
def LoopStage.call? : LoopStage → Option ℕ
  | .counting c => some c
  | _ => none

/-- The semaphore whose free permits a call is about to read. -/
def CallStage.counts? : CallStage → Option ℕ
  | .counting permits => some permits
  | _ => none

/-- When a loop of the agent counts free slots and finds some, every dispatch of the agent that has
not resolved its message holds a permit. -/
def Daemon.CountsSettled (agent : AgentId) (D : Daemon) : DaemonAction ⊕ (ℕ × Delivery) → Prop
  | .inl (.pull l .advance) => ∀ p ∈ D.loops[l]?, p.agent = agent → ∀ c ∈ p.stage.call?,
      ∀ call ∈ D.world.calls[c]?, ∀ s ∈ call.stage.counts?,
        0 < D.world.dispatcher.availablePermits s →
          ∀ task ∈ D.world.tasks, task.unresolvedFor agent = true → task.permit.isSome = true
  | _ => True

/-- The action leaves the agent's registration and state alone, and is no crash. -/
def Daemon.SparesOpen (agent : AgentId) (D : Daemon) : DaemonAction ⊕ (ℕ × Delivery) → Prop
  | .inl a => D.Spares agent a
  | .inr _ => True

instance (agent : AgentId) (D : Daemon) : DecidablePred (D.CountsSettled agent)
  | .inl (.pull l .advance) => inferInstanceAs (Decidable (∀ p ∈ D.loops[l]?, p.agent = agent →
      ∀ c ∈ p.stage.call?, ∀ call ∈ D.world.calls[c]?, ∀ s ∈ call.stage.counts?,
        0 < D.world.dispatcher.availablePermits s → ∀ task ∈ D.world.tasks,
          task.unresolvedFor agent = true → task.permit.isSome = true))
  | .inl (.pull _ .resume) | .inl (.pull _ .suspend) | .inl (.pull _ .fail)
  | .inl (.pull _ .skip) | .inl (.pull _ .stall) | .inl (.poll ..) | .inl (.send ..)
  | .inl (.settle ..) | .inl (.request _) | .inl (.serve ..) | .inl .shutdown | .inl (.stop _)
  | .inl (.join _) | .inl (.restart ..) | .inr _ => inferInstanceAs (Decidable True)

instance (agent : AgentId) (D : Daemon) : DecidablePred (D.SparesOpen agent)
  | .inl a => inferInstanceAs (Decidable (D.Spares agent a))
  | .inr _ => inferInstanceAs (Decidable True)

/-! ## One loop for the agent -/

/-- The loops of the agent. -/
def Daemon.loopsOf (agent : AgentId) (D : Daemon) : ℕ := D.loops.countP fun p => p.agent = agent

/-- The loops that the operation may still spawn for the agent, once it is past the dispatcher. -/
def RequestStage.launches (agent : AgentId) : RequestStage → ℕ
  | .relay (_ :: rest) (.store _) => rest.countP fun ch => ch.agentId = agent
  | .relay changes _ => changes.countP fun ch => ch.agentId = agent
  | _ => 0

/-- The agent has one loop at most, now and once the startup is done, and no other operation is
about to spawn one for it. -/
structure OneLoop (agent : AgentId) (D : Daemon) : Prop where
  sole : D.loopsOf agent ≤ 1
  startup : ∀ stage, D.requests[0]? = some stage → D.loopsOf agent + stage.launches agent ≤ 1
  others : ∀ (r : ℕ) (stage : RequestStage), D.requests[r]? = some stage → r ≠ 0 →
    stage.launches agent = 0

/-- An abort does not change the number of loops of the agent. -/
theorem PullLoop.countP_abort (agent : AgentId) (loops : List PullLoop) (j : ℕ) :
    (loops.modify j PullLoop.abort).countP (fun p => p.agent = agent) =
      loops.countP fun p => p.agent = agent := by
  induction loops generalizing j with
  | nil => simp
  | cons p loops ih =>
    cases j with
    | zero => simp [PullLoop.abort, List.countP_cons]
    | succ j => simp [List.countP_cons, ih]

theorem Daemon.loopsOf_stopPull (D : Daemon) (id : AgentId) :
    (D.stopPull id).loopsOf agent = D.loopsOf agent := by
  unfold stopPull loopsOf
  cases D.pulls id with
  | none => rfl
  | some l => exact PullLoop.countP_abort agent D.loops l

theorem Daemon.loopsOf_storePull (D : Daemon) (id : AgentId) (l : ℕ) :
    (D.storePull id l).loopsOf agent = D.loopsOf agent := by
  unfold storePull loopsOf
  cases D.pulls id with
  | none => rfl
  | some old => exact PullLoop.countP_abort agent D.loops old

/-- An operation between two changes may still spawn the loops of all changes left. -/
theorem RequestStage.launches_begin (changes : List Change) :
    (RequestStage.relay changes .begin).launches agent =
      changes.countP fun ch => ch.agentId = agent := by
  cases changes <;> rfl

/-- An access of an operation spawns at most the loops that it was about to spawn. -/
theorem Serves.launches_le {o : ServeOutcome} {stage stage' : RequestStage}
    (h : Serves D o stage D' stage')
    (hspares : ∀ changes, stage = .dispatcher changes → agent ∉ changes.map Change.agentId) :
    D.loopsOf agent ≤ D'.loopsOf agent ∧
      D'.loopsOf agent + stage'.launches agent ≤ D.loopsOf agent + stage.launches agent := by
  -- the operation is done with its first change, without a loop for it
  have hdone : ∀ (ch : Change) (rest : List Change),
      (RequestStage.relay rest .begin).launches agent ≤
        (ch :: rest).countP fun ch => ch.agentId = agent := by
    intro ch rest
    rw [RequestStage.launches_begin, List.countP_cons]
    exact Nat.le_add_right _ _
  cases h with
  | change | refuse | finish => exact ⟨le_rfl, Nat.le_add_right _ _⟩
  | @reset changes =>
    have hnone : changes.countP (fun ch => ch.agentId = agent) = 0 := by
      refine List.countP_eq_zero.mpr fun ch hch hag => ?_
      exact hspares changes rfl (List.mem_map.mpr ⟨ch, hch, of_decide_eq_true hag⟩)
    rw [RequestStage.launches_begin, hnone]
    exact ⟨le_rfl, Nat.le_add_right _ _⟩
  | launch | read | bind => exact ⟨le_rfl, le_rfl⟩
  | rebind =>
    rw [Daemon.loopsOf_stopPull]
    exact ⟨le_rfl, le_rfl⟩
  | @halt ch rest =>
    rw [Daemon.loopsOf_stopPull]
    exact ⟨le_rfl, Nat.add_le_add_left (hdone ch rest) _⟩
  | @skip ch rest | @unbound ch rest => exact ⟨le_rfl, Nat.add_le_add_left (hdone ch rest) _⟩
  | @spawn ch rest =>
    have hloops : ({ D with loops := D.loops ++ [⟨ch.agentId, .free, false, false⟩] } :
        Daemon).loopsOf agent = D.loopsOf agent + if ch.agentId = agent then 1 else 0 := by
      simp [Daemon.loopsOf, List.countP_append, List.countP_singleton]
    rw [hloops]
    simp only [RequestStage.launches, List.countP_cons, decide_eq_true_eq]
    omega
  | @store ch rest l =>
    rw [Daemon.loopsOf_storePull, RequestStage.launches_begin]
    exact ⟨le_rfl, le_rfl⟩

/-- Only an operation spawns a loop. -/
theorem Daemon.loopsOf_of_step {a : DaemonAction} (hstep : (daemonSystem C).step D a = some D')
    (hserve : ∀ r o, a ≠ .serve r o)
    (hrestart : ∀ registry now ttl, a ≠ .restart registry now ttl) :
    D'.loopsOf agent = D.loopsOf agent := by
  have hset : ∀ {l : ℕ} {p p' : PullLoop}, D.loops[l]? = some p → p'.agent = p.agent →
      (D.loops.set l p').countP (fun p => p.agent = agent) = D.loopsOf agent := by
    intro l p p' hp hagent
    exact countP_set_of_eq _ hp (by rw [hagent])
  cases a with
  | poll t o =>
    obtain ⟨world, -, rfl⟩ := Option.map_eq_some_iff.mp hstep
    rfl
  | pull l move =>
    obtain ⟨p, D₁, p', hp, htask, rfl⟩ := Daemon.step_pull hstep
    obtain ⟨hagent, -, hrun⟩ := Daemon.pullTask_cases htask
    have hloops : D₁.loops = D.loops := by
      rcases hrun with ⟨rfl, -⟩ | hrun
      · rfl
      · exact hrun.relay_eq.2.1
    rw [Daemon.loopsOf, hloops]
    exact hset hp hagent
  | send loop ag sending =>
    obtain ⟨c, c', d, -, -, ⟨-, rfl⟩ | ⟨l, p, stage, -, hp, -, -, rfl⟩⟩ := Daemon.step_send hstep
    · rfl
    · exact hset hp rfl
  | settle ag seq =>
    obtain ⟨c, -, -, rfl⟩ := Daemon.step_settle hstep
    rfl
  | serve r o => exact absurd rfl (hserve r o)
  | stop pick =>
    obtain ⟨-, -, -, hloops | ⟨l, hloops⟩⟩ := Daemon.stop_cases hstep
    · rw [Daemon.loopsOf, hloops, Daemon.loopsOf]
    · rw [Daemon.loopsOf, hloops]
      exact PullLoop.countP_abort agent D.loops l
  | restart registry now ttl => exact absurd rfl (hrestart registry now ttl)
  | request op =>
    obtain ⟨-, rfl⟩ := Daemon.step_request hstep
    rfl
  | shutdown =>
    obtain ⟨-, rfl⟩ := Daemon.step_shutdown hstep
    rfl
  | join t =>
    obtain ⟨-, rfl⟩ := Daemon.step_join hstep
    rfl

namespace OneLoop

/-- The startup spawns a loop for each enabled agent, one for each entry of the registry. -/
theorem start (registry : Registry) (dedup : DedupStore) (consumers : AgentId → Option Consumer)
    (agent : AgentId) : OneLoop agent (.start registry dedup consumers) := by
  have hlaunches : (Daemon.startup registry).launches agent ≤ 1 := by
    rw [Daemon.startup, RequestStage.launches_begin]
    have hpairwise := (Registry.snapshot_pairwise registry).filter AgentConfig.enabled
    generalize registry.snapshot.filter AgentConfig.enabled = entries at hpairwise ⊢
    induction hpairwise with
    | nil => exact Nat.zero_le _
    | @cons c rest hne _ ih =>
      rw [List.map_cons, List.countP_cons]
      split
      · rename_i hag
        -- the other entries are of other agents
        have hnone : (rest.map Change.added).countP (fun ch => ch.agentId = agent) = 0 := by
          refine List.countP_eq_zero.mpr fun ch hch hch' => ?_
          obtain ⟨c', hc', rfl⟩ := List.mem_map.mp hch
          exact hne c' hc' ((of_decide_eq_true hag).trans (of_decide_eq_true hch').symm)
        rw [hnone]
      · exact ih
  refine ⟨Nat.zero_le _, ?_, ?_⟩
  · intro stage hstage
    obtain rfl : Daemon.startup registry = stage := Option.some_inj.mp hstage
    exact (Nat.zero_add _).trans_le hlaunches
  · intro r stage hstage hr
    have hlt : r < 1 := (List.getElem?_eq_some_iff.mp hstage).1
    exact absurd (Nat.lt_one_iff.mp hlt) hr

/-- An access of an operation that spares the agent. -/
theorem serve (h : OneLoop agent D) {r : ℕ} {o : ServeOutcome}
    (hspares : D.Spares agent (.serve r o))
    (hstep : (daemonSystem C).step D (.serve r o) = some D') : OneLoop agent D' := by
  obtain ⟨stage, D₁, stage', hr, hserve, rfl⟩ := Daemon.step_serve hstep
  have hserves := Daemon.serves_of_serve hserve
  have hnot : ∀ changes, stage = .dispatcher changes → agent ∉ changes.map Change.agentId := by
    rintro changes rfl
    exact hspares (.applyChanges changes) (by simp [Daemon.worldAction, hr])
  obtain ⟨hge, hle⟩ := hserves.launches_le hnot
  have hloops : D₁.loopsOf agent ≤ 1 := by
    by_cases hzero : r = 0
    · subst hzero
      have := h.startup stage hr
      omega
    · have := h.others r stage hr hzero
      have := h.sole
      omega
  refine ⟨hloops, ?_, ?_⟩
  · intro s hs
    rw [hserves.frame.1] at hs
    rcases getElem?_set_cases hs with ⟨rfl, rfl⟩ | ⟨hne, hs⟩
    · exact hle.trans (h.startup stage hr)
    · have hnone := h.others r stage hr (Ne.symm hne)
      have hstartup := h.startup s hs
      show D₁.loopsOf agent + s.launches agent ≤ 1
      omega
  · intro j s hs hj
    rw [hserves.frame.1] at hs
    rcases getElem?_set_cases hs with ⟨rfl, rfl⟩ | ⟨hne, hs⟩
    · have hnone := h.others _ stage hr hj
      omega
    · exact h.others j s hs hj

/-- A step that spares the agent leaves it with one loop at most. -/
theorem step (h : OneLoop agent D) {a : DaemonAction} (hspares : D.Spares agent a)
    (hstep : (daemonSystem C).step D a = some D') : OneLoop agent D' := by
  by_cases hserve : ∃ r o, a = .serve r o
  · obtain ⟨r, o, rfl⟩ := hserve
    exact h.serve hspares hstep
  · have hother : ∀ r o, a ≠ .serve r o := fun r o heq => hserve ⟨r, o, heq⟩
    have hrestart : ∀ registry now ttl, a ≠ .restart registry now ttl := by
      rintro registry now ttl rfl
      exact hspares _ rfl
    have hloops : D'.loopsOf agent = D.loopsOf agent := Daemon.loopsOf_of_step hstep hother hrestart
    have hstages : ∀ (j : ℕ) (s : RequestStage), D'.requests[j]? = some s →
        D.requests[j]? = some s ∨ s.launches agent = 0 := by
      intro j s hs
      rcases Daemon.step_requests hstep hother hrestart with hreq | ⟨op, -, hreq⟩
      · exact .inl (hreq ▸ hs)
      · rw [hreq] at hs
        rcases getElem?_append_cases hs with ⟨-, rfl⟩ | hs
        · exact .inr rfl
        · exact .inl hs
    refine ⟨hloops ▸ h.sole, ?_, ?_⟩
    · intro s hs
      rw [hloops]
      rcases hstages 0 s hs with hs | hnone
      · exact h.startup s hs
      · rw [hnone]
        exact h.sole
    · intro j s hs hj
      rcases hstages j s hs with hs | hnone
      · exact h.others j s hs hj
      · exact hnone

/-- Two loops of the agent are the same. -/
theorem eq_of_agent (h : OneLoop agent D) {l l' : ℕ} {p p' : PullLoop} (hp : D.loops[l]? = some p)
    (hp' : D.loops[l']? = some p') (hag : p.agent = agent) (hag' : p'.agent = agent) : l = l' :=
  eq_of_countP_le_one h.sole hp hp' (decide_eq_true hag) (decide_eq_true hag')

end OneLoop

/-! ## The budget of a loop -/

/-- The free slots that a call has found. -/
def CallStage.slots : CallStage → ℕ
  | .done slots => slots
  | _ => 0

/-- The messages for which a loop may still spawn a dispatch before it counts again: those it holds,
those that its request allows, and the slots that its call has found. -/
def LoopStage.budget (calls : List Call) : LoopStage → ℕ
  | .free | .asleep => 0
  | .counting c => (calls[c]?).elim 0 fun call => call.stage.slots
  | .requesting slots => slots
  | .receiving credit inbox => credit + inbox.length
  | .spawning _ credit inbox => credit + inbox.length + 1

theorem LoopStage.length_held_le (calls : List Call) (s : LoopStage) :
    s.held.length ≤ s.budget calls := by
  cases s with
  | receiving credit inbox => exact Nat.le_add_left _ _
  | spawning d credit inbox =>
    have hlen : (LoopStage.spawning d credit inbox).held.length = inbox.length + 1 := rfl
    simp only [budget]
    omega
  | _ => exact Nat.zero_le _

/-- A message that arrives is one that the request allowed. -/
theorem LoopStage.budget_accept {calls : List Call} {d : Delivery} {s s' : LoopStage}
    (h : s.accept d = some s') : s'.budget calls = s.budget calls := by
  unfold accept at h
  split at h
  · cases h
    simp only [budget, List.length_append, List.length_singleton]
    omega
  · cases h
    simp only [budget, List.length_append, List.length_singleton]
    omega
  · cases h

/-- A message that arrives does not find the loop counting. -/
theorem LoopStage.call?_accept {d : Delivery} {s s' : LoopStage} (h : s.accept d = some s') :
    s'.call? = none := by
  unfold accept at h
  split at h <;> cases h <;> rfl

/-- The steps of a loop that is polled, by what they do to its budget: it asks for free slots, its
call goes on, it spawns a dispatch, or it neither counts nor gains anything. -/
theorem Daemon.pull_cases {s s' : LoopStage} {move : LoopMove}
    (h : D.pull C agent s move = some (D', s')) :
    (∃ world, s = .free ∧ World.step C D.world (.call agent) = some world ∧
      D' = { D with world } ∧ s' = .counting D.world.calls.length) ∨
    (∃ c world, s = .counting c ∧ move = .advance ∧
      World.step C D.world (.pollCall c) = some world ∧ D' = { D with world } ∧ s' = s) ∨
    (∃ d credit inbox world, s = .spawning d credit inbox ∧
      World.step C D.world (.deliver d) = some world ∧ D'.world = world ∧ D'.loops = D.loops ∧
      s' = .receiving credit inbox) ∨
    (D' = D ∧ s'.call? = none ∧ s'.budget D.world.calls ≤ s.budget D.world.calls) := by
  unfold pull at h
  split at h
  · simp only [Option.bind_eq_bind, Option.bind_eq_some_iff] at h
    obtain ⟨world, hworld, heq⟩ := h
    cases heq
    exact .inl ⟨world, rfl, hworld, rfl, rfl⟩
  · rename_i c
    split at h
    · rename_i agent' slots hc
      cases h
      refine .inr (.inr (.inr ⟨rfl, ?_, ?_⟩))
      · split <;> rfl
      · split
        · exact Nat.zero_le _
        · simp [LoopStage.budget, hc, CallStage.slots]
    · simp only [Option.bind_eq_bind, Option.bind_eq_some_iff] at h
      obtain ⟨world, hworld, heq⟩ := h
      cases heq
      exact .inr (.inl ⟨c, world, rfl, rfl, hworld, rfl, rfl⟩)
  · cases h
    exact .inr (.inr (.inr ⟨rfl, rfl, le_rfl⟩))
  · cases h
    exact .inr (.inr (.inr ⟨rfl, rfl, le_rfl⟩))
  · cases h
    exact .inr (.inr (.inr ⟨rfl, rfl, Nat.zero_le _⟩))
  · cases h
    exact .inr (.inr (.inr ⟨rfl, rfl, Nat.zero_le _⟩))
  · cases h
    exact .inr (.inr (.inr ⟨rfl, rfl, le_rfl⟩))
  · cases h
    exact .inr (.inr (.inr ⟨rfl, rfl, Nat.add_le_add_left (Nat.le_succ _) _⟩))
  · cases h
    exact .inr (.inr (.inr ⟨rfl, rfl, Nat.zero_le _⟩))
  · split at h
    · cases h
    · simp only [Option.bind_eq_bind, Option.bind_eq_some_iff] at h
      obtain ⟨world, hworld, heq⟩ := h
      cases heq
      exact .inr (.inr (.inl ⟨_, _, _, world, rfl, hworld, rfl, rfl, rfl⟩))
  · cases h

/-! ## Within the slots -/

/-- A dispatch that has resolved its message does not touch it again. -/
theorem Polls.resolved_mono {W W' : Dispatcher} {d : Delivery} {o : Outcome} {s s' : Stage}
    {effects : List Effect} (h : Polls C W d o s W' s' effects) (hs : s.resolved = true) :
    s'.resolved = true := by
  cases h with
  | release => rfl
  | _ => cases hs

/-- An access of a dispatch leaves no more messages unresolved than there were. -/
theorem World.unresolved_poll_le {w w' : World} {t : ℕ} {o : Outcome}
    (hstep : (dispatchSystem C).step w (.poll t o) = some w') :
    w'.unresolved agent ≤ w.unresolved agent := by
  obtain ⟨d, s, W', s', effects, htask, hpoll, rfl⟩ := World.step_poll hstep
  have hmono : (⟨d, s'⟩ : Task).unresolvedFor agent = true →
      (⟨d, s⟩ : Task).unresolvedFor agent = true := by
    intro h
    simp only [Task.unresolvedFor, Bool.and_eq_true, Bool.not_eq_true'] at h ⊢
    refine ⟨h.1, ?_⟩
    by_contra hs
    have hs' := hpoll.resolved_mono (Bool.not_eq_false _ ▸ hs)
    exact absurd (h.2.symm.trans hs') (by decide)
  have hcount := countP_set_add (y := ⟨d, s'⟩) (Task.unresolvedFor agent) htask
  show (w.tasks.set t ⟨d, s'⟩).countP _ ≤ w.tasks.countP _
  split at hcount <;> split at hcount
  · omega
  · omega
  · rename_i hx hy
    exact absurd (hmono hy) hx
  · omega

/-- A permit that is free is none that a dispatch holds: when every unresolved dispatch of the agent
holds one, the unresolved ones and the free permits stay within the limit. -/
theorem InBalance.unresolved_add_availablePermits_le {c : AgentConfig} {w : World}
    (h : InBalance agent c w) {call s : ℕ} (hcall : w.calls[call]? = some ⟨agent, .counting s⟩)
    (hsettled : ∀ task ∈ w.tasks, task.unresolvedFor agent = true → task.permit.isSome = true) :
    w.unresolved agent + w.dispatcher.availablePermits s ≤ c.maxConcurrency.toNat := by
  have hslots := h.one.availablePermits_add_holders h.accounts h.separate (h.attached call s hcall)
  have hholds : w.unresolved agent ≤ w.tasks.countP (Task.holdsFor agent) := by
    refine List.countP_mono_left fun task hmem hun => ?_
    have hpermit := hsettled task hmem hun
    simp only [Task.unresolvedFor, Bool.and_eq_true] at hun
    simp only [Task.holdsFor, Bool.and_eq_true]
    exact ⟨hun.1, hpermit⟩
  omega

/-- The messages that are in the hands of the agent's dispatches, and those for which its loop may
still spawn one, are within the limit.  Every loop holds messages of its own agent and waits for a
call of its own. -/
structure WithinSlots (agent : AgentId) (k : ℕ) (D : Daemon) : Prop where
  held : ∀ (l : ℕ) (p : PullLoop), D.loops[l]? = some p → ∀ d ∈ p.stage.held, d.agent = p.agent
  called : ∀ (l : ℕ) (p : PullLoop) (c : ℕ), D.loops[l]? = some p → p.stage.call? = some c →
    ∃ s, D.world.calls[c]? = some ⟨p.agent, s⟩
  unresolved : D.world.unresolved agent ≤ k
  budget : ∀ (l : ℕ) (p : PullLoop), D.loops[l]? = some p → p.agent = agent →
    D.world.unresolved agent + p.stage.budget D.world.calls ≤ k

/-- What a step does that is none of a pull loop and sends it nothing: no dispatch becomes
unresolved, and a loop keeps its agent and its stage or is new. -/
structure Aside (agent : AgentId) (D D' : Daemon) : Prop where
  unresolved : D'.world.unresolved agent ≤ D.world.unresolved agent
  calls : D'.world.calls = D.world.calls
  loops : ∀ (l : ℕ) (p' : PullLoop), D'.loops[l]? = some p' → p'.stage = .free ∨
    ∃ p, D.loops[l]? = some p ∧ p'.agent = p.agent ∧ p'.stage = p.stage

theorem WithinSlots.aside (h : WithinSlots agent k D) (haside : Aside agent D D') :
    WithinSlots agent k D' := by
  have hle := haside.unresolved
  constructor
  · intro l p' hp' d hd
    rcases haside.loops l p' hp' with hfree | ⟨p, hp, hagent, hstage⟩
    · rw [hfree] at hd
      cases hd
    · rw [hstage] at hd
      exact (h.held l p hp d hd).trans hagent.symm
  · intro l p' c hp' hc
    rw [haside.calls]
    rcases haside.loops l p' hp' with hfree | ⟨p, hp, hagent, hstage⟩
    · rw [hfree] at hc
      cases hc
    · rw [hstage] at hc
      rw [hagent]
      exact h.called l p c hp hc
  · exact hle.trans h.unresolved
  · intro l p' hp' hag
    rw [haside.calls]
    rcases haside.loops l p' hp' with hfree | ⟨p, hp, hagent, hstage⟩
    · rw [hfree]
      exact hle.trans h.unresolved
    · rw [hstage]
      have := h.budget l p hp (hagent.symm.trans hag)
      omega

/-- The request of a loop takes a message of the loop's agent. -/
theorem WithinSlots.accept (h : WithinSlots agent k D) {l : ℕ} {p : PullLoop} {d : Delivery}
    {stage : LoopStage} (hp : D.loops[l]? = some p) (hag : d.agent = p.agent)
    (haccept : p.stage.accept d = some stage)
    (consumers : AgentId → Option Consumer) :
    WithinSlots agent k
      { D with
        consumers
        loops := D.loops.set l { p with stage } } := by
  constructor
  · intro l' p' hp' d' hd'
    rcases getElem?_set_cases hp' with ⟨rfl, rfl⟩ | ⟨-, hp'⟩
    · rcases LoopStage.held_accept haccept hd' with hd' | rfl
      · exact h.held _ p hp d' hd'
      · exact hag
    · exact h.held l' p' hp' d' hd'
  · intro l' p' c hp' hc
    rcases getElem?_set_cases hp' with ⟨rfl, rfl⟩ | ⟨-, hp'⟩
    · rw [LoopStage.call?_accept haccept] at hc
      cases hc
    · exact h.called l' p' c hp' hc
  · exact h.unresolved
  · intro l' p' hp' hagent
    rcases getElem?_set_cases hp' with ⟨rfl, rfl⟩ | ⟨-, hp'⟩
    · rw [LoopStage.budget_accept haccept]
      exact h.budget _ p hp hagent
    · exact h.budget l' p' hp' hagent

/-- A budget only looks at the call that the loop is waiting for. -/
theorem LoopStage.budget_congr {calls calls' : List Call} {s : LoopStage}
    (h : ∀ c, s.call? = some c → calls'[c]? = calls[c]?) : s.budget calls' = s.budget calls := by
  cases s with
  | counting c =>
    have hc := h c rfl
    simp only [budget, hc]
  | _ => rfl

/-- One loop goes on.  When it is the agent's loop, it is the only one, and its budget has to be
within the limit; otherwise the step must not matter for the agent. -/
theorem WithinSlots.set (h : WithinSlots agent k D) (hone : OneLoop agent D) (D₁ : Daemon) {l : ℕ}
    {p p' : PullLoop} (hp : D.loops[l]? = some p) (hloops : D₁.loops = D.loops)
    (hagent : p'.agent = p.agent) (hheld : ∀ d ∈ p'.stage.held, d ∈ p.stage.held)
    (hkeep : ∀ (c : ℕ) (call : Call), D.world.calls[c]? = some call →
      ∃ s, D₁.world.calls[c]? = some ⟨call.agent, s⟩)
    (hcalled : ∀ c, p'.stage.call? = some c → ∃ s, D₁.world.calls[c]? = some ⟨p.agent, s⟩)
    (hmine : p.agent = agent →
      D₁.world.unresolved agent + p'.stage.budget D₁.world.calls ≤ k)
    (hother : p.agent ≠ agent → D₁.world.unresolved agent = D.world.unresolved agent ∧
      ∀ (l' : ℕ) (q : PullLoop), D.loops[l']? = some q → q.agent = agent →
        ∀ c, q.stage.call? = some c → D₁.world.calls[c]? = D.world.calls[c]?) :
    WithinSlots agent k { D₁ with loops := D₁.loops.set l p' } := by
  rw [hloops]
  constructor
  · intro l' q hq d hd
    rcases getElem?_set_cases hq with ⟨rfl, rfl⟩ | ⟨-, hq⟩
    · exact (h.held _ p hp d (hheld d hd)).trans hagent.symm
    · exact h.held l' q hq d hd
  · intro l' q c hq hc
    rcases getElem?_set_cases hq with ⟨rfl, rfl⟩ | ⟨-, hq⟩
    · rw [hagent]
      exact hcalled c hc
    · obtain ⟨s, hs⟩ := h.called l' q c hq hc
      exact hkeep c _ hs
  · by_cases hag : p.agent = agent
    · exact (Nat.le_add_right _ _).trans (hmine hag)
    · exact (hother hag).1.trans_le h.unresolved
  · intro l' q hq hqag
    rcases getElem?_set_cases hq with ⟨rfl, rfl⟩ | ⟨hne, hq⟩
    · exact hmine (hagent.symm.trans hqag)
    · have hag : p.agent ≠ agent := fun hag => hne (hone.eq_of_agent hq hp hqag hag)
      obtain ⟨hsame, hcalls⟩ := hother hag
      show D₁.world.unresolved agent + q.stage.budget D₁.world.calls ≤ k
      rw [hsame, LoopStage.budget_congr (hcalls l' q hq hqag)]
      exact h.budget l' q hq hqag

section LoopSteps

variable {l : ℕ} {p p' : PullLoop}

/-- The loop asks for free slots. -/
theorem WithinSlots.call (h : WithinSlots agent k D) (hone : OneLoop agent D)
    (hp : D.loops[l]? = some p) (hagent : p'.agent = p.agent) {world : World}
    (hworld : World.step C D.world (.call p.agent) = some world)
    (hstage : p'.stage = .counting D.world.calls.length) :
    WithinSlots agent k { D with world, loops := D.loops.set l p' } := by
  cases hworld
  have hold : ∀ (j : ℕ) (call : Call), D.world.calls[j]? = some call →
      (D.world.calls ++ [⟨p.agent, .start⟩])[j]? = some call :=
    fun j call hj => getElem?_append_of_some hj
  have hnew : (D.world.calls ++ [⟨p.agent, .start⟩])[D.world.calls.length]? =
      some ⟨p.agent, .start⟩ := List.getElem?_concat_length
  refine h.set hone { D with
    world := { D.world with calls := D.world.calls ++ [⟨p.agent, .start⟩] } } hp rfl hagent
    ?_ (fun j call hj => ⟨_, hold j call hj⟩) ?_ ?_ ?_
  · rw [hstage]
    intro d hd
    cases hd
  · intro j hj
    rw [hstage] at hj
    obtain rfl : D.world.calls.length = j := Option.some_inj.mp hj
    exact ⟨_, hnew⟩
  · intro hag
    have hzero : p'.stage.budget (D.world.calls ++ [⟨p.agent, .start⟩]) = 0 := by
      simp [hstage, LoopStage.budget, CallStage.slots]
    show D.world.unresolved agent + p'.stage.budget (D.world.calls ++ [⟨p.agent, .start⟩]) ≤ k
    rw [hzero]
    exact h.unresolved
  · intro hag
    refine ⟨rfl, fun l' q hq hqag j hj => ?_⟩
    obtain ⟨s, hs⟩ := h.called l' q j hq hj
    exact (hold j _ hs).trans hs.symm

/-- The call of the loop makes an access.  This is where the budget grows: when the call counts. -/
theorem WithinSlots.count {c : AgentConfig} {i : ℕ}
    (h : WithinSlots agent c.maxConcurrency.toNat D) (hone : OneLoop agent D)
    (hbalance : InBalance agent c D.world) (hp : D.loops[l]? = some p)
    (hagent : p'.agent = p.agent) (hcounting : p.stage = .counting i) (hstage : p'.stage = p.stage)
    (hsettled : D.CountsSettled agent (.inl (.pull l .advance))) {world : World}
    (hworld : World.step C D.world (.pollCall i) = some world) :
    WithinSlots agent c.maxConcurrency.toNat { D with world, loops := D.loops.set l p' } := by
  obtain ⟨agent', s, W', s', hi, hpoll, rfl⟩ := World.step_pollCall (C := C) hworld
  obtain ⟨s₀, hs₀⟩ := h.called l p i hp (by rw [hcounting]; rfl)
  obtain ⟨rfl, rfl⟩ : agent' = p.agent ∧ s = s₀ := by simpa using hi.symm.trans hs₀
  have hnew : (D.world.calls.set i ⟨p.agent, s'⟩)[i]? = some ⟨p.agent, s'⟩ :=
    getElem?_set_self_of_mem hi
  refine h.set hone { D with
    world := { D.world with
      dispatcher := W'
      calls := D.world.calls.set i ⟨p.agent, s'⟩ } } hp rfl hagent
    (fun d hd => hstage ▸ hd) ?_ ?_ ?_ ?_
  · intro j call hj
    by_cases hji : i = j
    · subst hji
      obtain rfl : ⟨p.agent, s⟩ = call := Option.some_inj.mp (hi.symm.trans hj)
      exact ⟨s', hnew⟩
    · exact ⟨call.stage, (List.getElem?_set_ne hji).trans hj⟩
  · intro j hj
    rw [hstage, hcounting] at hj
    obtain rfl : i = j := Option.some_inj.mp hj
    exact ⟨s', hnew⟩
  · intro hag
    have hbudget : p'.stage.budget (D.world.calls.set i ⟨p.agent, s'⟩) = s'.slots := by
      simp [hstage, hcounting, LoopStage.budget, hnew]
    show D.world.unresolved agent + p'.stage.budget (D.world.calls.set i ⟨p.agent, s'⟩) ≤ _
    rw [hbudget]
    cases hpoll with
    | @count permits =>
      by_cases hfree : 0 < D.world.dispatcher.availablePermits permits
      · refine hbalance.unresolved_add_availablePermits_le (hag ▸ hi) ?_
        exact hsettled p hp hag i (by rw [hcounting]; rfl) _ hi permits rfl hfree
      · have hzero : D.world.dispatcher.availablePermits permits = 0 := Nat.eq_zero_of_not_pos hfree
        simp only [CallStage.slots, hzero]
        exact h.unresolved
    | _ => exact h.unresolved
  · intro hag
    refine ⟨rfl, fun l' q hq hqag j hj => List.getElem?_set_ne ?_⟩
    -- the call of a loop of the agent is another one
    rintro rfl
    obtain ⟨s₁, hs₁⟩ := h.called l' q i hq hj
    obtain ⟨hsame, -⟩ : p.agent = q.agent ∧ s = s₁ := by simpa using hi.symm.trans hs₁
    exact hag (hsame.trans hqag)

/-- The loop spawns the dispatch of a message that it holds. -/
theorem WithinSlots.spawn (h : WithinSlots agent k D) (hone : OneLoop agent D) {D₁ : Daemon}
    {d : Delivery} {credit : ℕ} {inbox : List Delivery} (hp : D.loops[l]? = some p)
    (hagent : p'.agent = p.agent) (hspawning : p.stage = .spawning d credit inbox)
    (hstage : p'.stage = .receiving credit inbox)
    (hworld : World.step C D.world (.deliver d) = some D₁.world) (hloops : D₁.loops = D.loops) :
    WithinSlots agent k { D₁ with loops := D₁.loops.set l p' } := by
  have hw : { D.world with tasks := D.world.tasks ++ [⟨d, .received⟩] } = D₁.world :=
    Option.some_inj.mp hworld
  have hdag : d.agent = p.agent := h.held l p hp d (by rw [hspawning]; exact List.mem_cons_self)
  have hcount : D₁.world.unresolved agent =
      D.world.unresolved agent + if p.agent = agent then 1 else 0 := by
    rw [← hw, ← hdag]
    simp [World.unresolved, Task.unresolvedFor, Stage.resolved, List.countP_append,
      List.countP_singleton]
  have hcalls : D₁.world.calls = D.world.calls := by rw [← hw]
  refine h.set hone D₁ hp hloops hagent ?_ (fun j call hj => ⟨_, hcalls ▸ hj⟩) ?_ ?_ ?_
  · rw [hstage, hspawning]
    exact fun d' hd' => List.mem_cons_of_mem _ hd'
  · intro j hj
    rw [hstage] at hj
    cases hj
  · intro hag
    have hle := h.budget l p hp hag
    rw [hspawning] at hle
    rw [hcount, if_pos hag, hstage]
    simp only [LoopStage.budget] at hle ⊢
    omega
  · intro hag
    rw [hcount, if_neg hag]
    exact ⟨rfl, fun _ _ _ _ j _ => by rw [hcalls]⟩

/-- The loop neither counts nor gains anything. -/
theorem WithinSlots.goOn (h : WithinSlots agent k D) (hone : OneLoop agent D)
    (hp : D.loops[l]? = some p) (hagent : p'.agent = p.agent)
    (hheld : ∀ d ∈ p'.stage.held, d ∈ p.stage.held)
    (hcall : ∀ i, p'.stage.call? = some i → p.stage.call? = some i)
    (hbudget : p'.stage.budget D.world.calls ≤ p.stage.budget D.world.calls) :
    WithinSlots agent k { D with loops := D.loops.set l p' } := by
  refine h.set hone D hp rfl hagent hheld (fun i call hi => ⟨_, hi⟩) ?_ ?_ ?_
  · exact fun i hi => h.called l p i hp (hcall i hi)
  · intro hag
    have := h.budget l p hp hag
    omega
  · exact fun _ => ⟨rfl, fun _ _ _ _ _ _ => rfl⟩

/-- A step of a pull loop. -/
theorem WithinSlots.pull {c : AgentConfig} (h : WithinSlots agent c.maxConcurrency.toNat D)
    (hone : OneLoop agent D) (hbalance : InBalance agent c D.world) {move : LoopMove}
    (hsettled : D.CountsSettled agent (.inl (.pull l move)))
    (hstep : (daemonSystem C).step D (.pull l move) = some D') :
    WithinSlots agent c.maxConcurrency.toNat D' := by
  obtain ⟨p, D₁, p', hp, htask, rfl⟩ := Daemon.step_pull hstep
  obtain ⟨hagent, -, ⟨rfl, hstage⟩ | hpull⟩ := Daemon.pull_of_pullTask htask
  · refine h.goOn hone hp hagent ?_ ?_ ?_
    · exact fun d hd => hstage ▸ hd
    · exact fun i hi => hstage ▸ hi
    · rw [hstage]
  · rcases Daemon.pull_cases hpull with ⟨world, -, hworld, rfl, hstage⟩ |
      ⟨i, world, hcounting, rfl, hworld, rfl, hstage⟩ |
      ⟨d, credit, inbox, world, hspawning, hworld, rfl, hloops, hstage⟩ | ⟨rfl, hcall, hbudget⟩
    · exact h.call hone hp hagent hworld hstage
    · exact h.count hone hbalance hp hagent hcounting hstage hsettled hworld
    · exact h.spawn hone hp hagent hspawning hstage hworld hloops
    · have hheld := fun d hd => (Daemon.pulls_of_pull hpull).held_subset (d := d) hd
      refine h.goOn hone hp hagent hheld ?_ hbudget
      intro i hi
      rw [hcall] at hi
      cases hi

end LoopSteps

namespace Aside

/-- Neither the dispatcher nor the loops change. -/
theorem of_eq (hworld : D'.world = D.world) (hloops : D'.loops = D.loops) : Aside agent D D' where
  unresolved := by rw [hworld]
  calls := by rw [hworld]
  loops l p' hp' := .inr ⟨p', hloops ▸ hp', rfl, rfl⟩

/-- At most one loop is aborted. -/
theorem of_abort {j : ℕ} (hworld : D'.world = D.world)
    (hloops : D'.loops = D.loops.modify j PullLoop.abort) : Aside agent D D' where
  unresolved := by rw [hworld]
  calls := by rw [hworld]
  loops l p' hp' := by
    rw [hloops] at hp'
    obtain ⟨p, hp, hagent, hstage⟩ := PullLoop.getElem?_abort hp'
    exact .inr ⟨p, hp, hagent, hstage⟩

/-- An operation touches no dispatch and no call, aborts loops and spawns new ones. -/
theorem of_serves {o : ServeOutcome} {stage stage' : RequestStage}
    (h : Serves D o stage D' stage') : Aside agent D D' where
  unresolved := by rw [World.unresolved, h.frame.2.1, World.unresolved]
  calls := h.frame.2.2.2
  loops l p' hp' := h.loop_cases hp'

/-- Every step that is none of a pull loop and no send. -/
theorem of_step {a : DaemonAction} (hstep : (daemonSystem C).step D a = some D')
    (hpull : ∀ l move, a ≠ .pull l move) (hsend : ∀ loop ag sending, a ≠ .send loop ag sending)
    (hrestart : ∀ registry now ttl, a ≠ .restart registry now ttl) : Aside agent D D' := by
  cases a with
  | poll t o =>
    obtain ⟨world, hworld, rfl⟩ := Option.map_eq_some_iff.mp hstep
    refine ⟨World.unresolved_poll_le hworld, ?_, fun l p' hp' => .inr ⟨p', hp', rfl, rfl⟩⟩
    obtain ⟨d, s, W', s', effects, -, -, rfl⟩ := World.step_poll (C := C) hworld
    rfl
  | pull l move => exact absurd rfl (hpull l move)
  | send loop ag sending => exact absurd rfl (hsend loop ag sending)
  | settle ag seq =>
    obtain ⟨c, -, -, rfl⟩ := Daemon.step_settle hstep
    exact .of_eq rfl rfl
  | serve r o =>
    obtain ⟨stage, D₁, stage', -, hserve, rfl⟩ := Daemon.step_serve hstep
    have haside : Aside agent D D₁ := of_serves (Daemon.serves_of_serve hserve)
    exact ⟨haside.unresolved, haside.calls, haside.loops⟩
  | stop pick =>
    obtain ⟨-, hworld, -, hloops | ⟨l, hloops⟩⟩ := Daemon.stop_cases hstep
    · exact .of_eq hworld hloops
    · exact .of_abort hworld hloops
  | restart registry now ttl => exact absurd rfl (hrestart registry now ttl)
  | request op =>
    obtain ⟨-, rfl⟩ := Daemon.step_request hstep
    exact .of_eq rfl rfl
  | shutdown =>
    obtain ⟨-, rfl⟩ := Daemon.step_shutdown hstep
    exact .of_eq rfl rfl
  | join t =>
    obtain ⟨-, rfl⟩ := Daemon.step_join hstep
    exact .of_eq rfl rfl

end Aside

/-- A step of the daemon that spares the agent. -/
theorem WithinSlots.step {c : AgentConfig} (h : WithinSlots agent c.maxConcurrency.toNat D)
    (hone : OneLoop agent D) (hbalance : InBalance agent c D.world) {a : DaemonAction}
    (hspares : D.Spares agent a) (hsettled : D.CountsSettled agent (.inl a))
    (hstep : (daemonSystem C).step D a = some D') :
    WithinSlots agent c.maxConcurrency.toNat D' := by
  by_cases hpull : ∃ l move, a = .pull l move
  · obtain ⟨l, move, rfl⟩ := hpull
    exact h.pull hone hbalance hsettled hstep
  by_cases hsend : ∃ loop ag sending, a = .send loop ag sending
  · obtain ⟨loop, ag, sending, rfl⟩ := hsend
    obtain ⟨consumer, consumer', d, -, hd, ⟨-, rfl⟩ | ⟨l, p, stage, -, hp, hag, haccept, rfl⟩⟩ :=
      Daemon.step_send hstep
    · exact h.aside (.of_eq rfl rfl)
    · exact h.accept hp ((Consumer.agent_of_send hd).trans hag.symm) haccept _
  · refine h.aside (.of_step hstep ?_ ?_ ?_)
    · exact fun l move heq => hpull ⟨l, move, heq⟩
    · exact fun loop ag sending heq => hsend ⟨loop, ag, sending, heq⟩
    · rintro registry now ttl rfl
      exact hspares _ rfl

/-- What every step that spares the agent keeps, when the counts are settled. -/
structure Paced (agent : AgentId) (c : AgentConfig) (D : Daemon) : Prop where
  balance : InBalance agent c D.world
  one : OneLoop agent D
  within : WithinSlots agent c.maxConcurrency.toNat D

namespace Paced

variable {c : AgentConfig}

theorem start {registry : Registry} (hget : registry.get agent = some c) (dedup : DedupStore)
    (consumers : AgentId → Option Consumer) : Paced agent c (.start registry dedup consumers) where
  balance := .start hget dedup
  one := .start registry dedup consumers agent
  within := by
    constructor
    · intro l p hp
      cases hp
    · intro l p i hp
      cases hp
    · exact Nat.zero_le _
    · intro l p hp
      cases hp

/-- A step of the daemon or a message from the server. -/
theorem step (h : Paced agent c D) {a : DaemonAction ⊕ (ℕ × Delivery)}
    (hspares : D.SparesOpen agent a) (hsettled : D.CountsSettled agent a)
    (hstep : (openSystem C).step D a = some D') : Paced agent c D' := by
  cases a with
  | inl a =>
    refine ⟨?_, h.one.step hspares hstep, h.within.step h.one h.balance hspares hsettled hstep⟩
    rcases Daemon.step_world hstep with hsame | ⟨b, hb, hworld⟩
    · rw [hsame]
      exact h.balance
    · exact h.balance.step (hspares b hb) hworld
  | inr message =>
    obtain ⟨l, d⟩ := message
    simp only [openSystem, Option.bind_eq_bind, Option.bind_eq_some_iff] at hstep
    obtain ⟨p, hp, hstep⟩ := hstep
    split at hstep
    · rename_i hag
      obtain ⟨stage, haccept, heq⟩ := Option.bind_eq_some_iff.mp hstep
      cases heq
      refine ⟨h.balance, ?_, h.within.accept hp hag haccept D.consumers⟩
      have hloops : (D.loops.set l { p with stage }).countP (fun p => p.agent = agent) =
          D.loopsOf agent := countP_set_of_eq _ hp rfl
      exact ⟨hloops.trans_le h.one.sole, fun s hs => (congrArg (· + _) hloops).trans_le
        (h.one.startup s hs), h.one.others⟩
    · cases hstep

/-- What the agent's loop holds is within its budget. -/
theorem pulled_le (h : Paced agent c D) : D.pulled agent ≤ c.maxConcurrency.toNat := by
  have hlen : (D.loops.filter fun p => p.agent = agent).length ≤ 1 := by
    rw [← List.countP_eq_length_filter]
    exact h.one.sole
  unfold Daemon.pulled
  cases hloops : D.loops.filter fun p => p.agent = agent with
  | nil => exact h.within.unresolved
  | cons p rest =>
    rw [hloops, List.length_cons] at hlen
    obtain rfl : rest = [] := List.length_eq_zero_iff.mp (by omega)
    have hmem : p ∈ D.loops.filter fun p => p.agent = agent := by
      rw [hloops]
      exact List.mem_cons_self
    obtain ⟨hp, hag⟩ := List.mem_filter.mp hmem
    obtain ⟨l, hl⟩ := List.mem_iff_getElem?.mp hp
    have hbudget := h.within.budget l p hl (of_decide_eq_true hag)
    have hheld := p.stage.length_held_le D.world.calls
    rw [List.flatMap_singleton]
    omega

end Paced

/-- The registration of an agent stays as it is, no change is applied to it, and the process does
not crash.  If every dispatch of the agent that has not resolved its message holds a permit whenever
the loop counts free slots and finds some, then the messages of the agent that were pulled and are
neither resolved nor dropped are never more than its slots, whatever the server sends. -/
theorem never_overpulls {registry : Registry} {dedup : DedupStore}
    {consumers : AgentId → Option Consumer} {c : AgentConfig} (hget : registry.get agent = some c)
    (hrun : (openSystem C).Run (fun D a => D.SparesOpen agent a ∧ D.CountsSettled agent a)
      (.start registry dedup consumers) D) :
    D.pulled agent ≤ c.maxConcurrency.toNat := by
  have hpaced : Paced agent c D := by
    refine hrun.invariant (.start hget dedup consumers) ?_
    intro x a y h hok hstep
    exact h.step hok.1 hok.2 hstep
  exact hpaced.pulled_le

namespace Sample

/-- The loop `0` makes `n` accesses without a failure. -/
def pulls (n : ℕ) : List (DaemonAction ⊕ (ℕ × Delivery)) := (advances 0 n).map .inl

/-- The daemon starts, and the loop of the agent pulls a message and spawns its dispatch. -/
def pullOnce : List (DaemonAction ⊕ (ℕ × Delivery)) :=
  (serves 0 5 ++ [DaemonAction.pull 0 .resume]).map .inl ++ pulls 6 ++ [.inr (0, delivery "e")] ++
    pulls 2

/-- The stream of messages ends; the loop asks again for free slots and pulls another message. -/
def pullOther : List (DaemonAction ⊕ (ℕ × Delivery)) :=
  [.inl (.pull 0 .fail)] ++ pulls 6 ++ [.inr (0, delivery "f" 2)]

end Sample

theorem never_overpulls_pullOther :
    ∃ D, (openSystem Sample.dispatcherConfig).Run
        (fun D a => D.SparesOpen Sample.agent a ∧ D.CountsSettled Sample.agent a)
        (.start (Sample.registry (Sample.config 2)) .empty fun _ => none) D ∧
      D.pulled Sample.agent = 2 ∧ D.pulled Sample.agent ≤ (2 : UInt32).toNat := by
  obtain ⟨D, hrun, hpulled⟩ := exists_run_of_exec (openSystem Sample.dispatcherConfig)
    (fun D a => D.SparesOpen Sample.agent a ∧ D.CountsSettled Sample.agent a)
    (.start (Sample.registry (Sample.config 2)) .empty fun _ => none)
    (Sample.pullOnce ++ (Sample.dispatches 0 3).map .inl ++ Sample.pullOther)
    (fun D => D.pulled Sample.agent == 2) (by decide +kernel)
  have hget : (Sample.registry (Sample.config 2)).get Sample.agent = some (Sample.config 2) := by
    decide +kernel
  exact ⟨D, hrun, beq_iff_eq.mp hpulled, never_overpulls hget hrun⟩

/-- The loop can pull more messages than the agent has slots: it asks again before the dispatch that
it has spawned is polled. -/
theorem pulls_more_than_slots :
    ¬∀ (C : DispatcherConfig) (agent : AgentId) (registry : Registry) (dedup : DedupStore)
        (consumers : AgentId → Option Consumer) (c : AgentConfig) (D : Daemon),
      registry.get agent = some c →
      (openSystem C).Run (fun D a => D.SparesOpen agent a) (.start registry dedup consumers) D →
        D.pulled agent ≤ c.maxConcurrency.toNat := by
  intro h
  obtain ⟨D, hrun, hpulled⟩ := exists_run_of_exec (openSystem Sample.dispatcherConfig)
    (fun D a => D.SparesOpen Sample.agent a)
    (.start (Sample.registry Sample.config) .empty fun _ => none)
    (Sample.pullOnce ++ Sample.pullOther) (fun D => D.pulled Sample.agent == 2)
    (by decide +kernel)
  have hget : (Sample.registry Sample.config).get Sample.agent = some Sample.config := by
    decide +kernel
  have hle := h _ _ _ _ _ _ D hget hrun
  rw [beq_iff_eq.mp hpulled] at hle
  exact absurd hle (by decide)

end Agentd
