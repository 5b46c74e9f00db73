import Agentd.Daemon.LoopTable
import Agentd.Dispatcher.History
import Agentd.Dispatcher.InFlight

/-!
# What a shutdown leaves behind

`Relay::shutdown` takes the pull loops out of the relay's table, aborts them, and waits until the
set of dispatches is empty.  It does not wait for the loops.  A loop outlives it in three ways: its
handle is not stored when the table is drained, it is spawned after that, or it is still being
polled when the set of dispatches is found empty, since an abort only takes effect at an `await`.
`DrainsCleanly` is the condition that none of them happens.  Under it every dispatch has returned
when the shutdown has, and nothing is started afterwards (`drained_of_returned`).

The first section is about the dispatches: one that has returned has waited for its handler, and it
acknowledged or terminated its delivery or dropped it as a duplicate (`Told`).  The second one
follows the loops: after the drain the table stays empty (`Drains`), so with `Accounted` every loop
that was not aborted is about to be.
-/

namespace Agentd

open TransitionSystem TaskPool

variable {C : DispatcherConfig} {D D' D₁ : Daemon} {w w' : World} {t : ℕ} {d : Delivery}
  {s s' : Stage} {o : Outcome} {effects : List Effect} {k : EventKey} {past : List Emission}

/-! ## Dispatches that have returned -/

/-- An ack or a term was called, or the delivery was dropped as a duplicate of one in flight. -/
def Effect.settles : Effect → Bool
  | .acked _ | .termed | .duplicateDropped _ => true
  | _ => false

/-- The dispatch `t` settled its delivery. -/
def SettledBy (t : ℕ) (past : List Emission) : Prop :=
  ∃ em ∈ past, em.task = t ∧ em.effect.settles = true

/-- Every handler that the dispatch `t` started has exited. -/
def HandlersExited (t : ℕ) (d : Delivery) (past : List Emission) : Prop :=
  ∀ k, StartedBy t d k past → RanBy t d k past

/-- What the history must tell of a dispatch of the event `k` in the given phase. -/
def Phase.Tells (t : ℕ) (d : Delivery) (k : EventKey) (past : List Emission) : Phase → Prop
  | .wait => ∀ k', StartedBy t d k' past → k' = k
  | .mark | .remove | .ack => HandlersExited t d past
  | .release => HandlersExited t d past ∧ SettledBy t past
  | _ => ∀ k', ¬StartedBy t d k' past

/-- What the history must tell of a dispatch. -/
def Task.Tells (t : ℕ) (past : List Emission) (task : Task) : Prop :=
  match task.stage with
  | .slot job _ phase =>
    phase.Tells t task.delivery (task.delivery.agent, job.envelope.eventId) past
  | .finished => HandlersExited t task.delivery past ∧ SettledBy t past
  | _ => ∀ k, ¬StartedBy t task.delivery k past

/-- The history tells of every dispatch, and every emission is of a dispatch of the pool. -/
structure World.Told (w : World) : Prop where
  known : ∀ em ∈ w.trace, em.task < w.tasks.length
  tells : ∀ (t : ℕ) (task : Task), w.tasks[t]? = some task → task.Tells t w.trace

theorem SettledBy.append (h : SettledBy t past) (newer : List Emission) :
    SettledBy t (newer ++ past) := by
  obtain ⟨em, hem, hrest⟩ := h
  exact ⟨em, List.mem_append_right _ hem, hrest⟩

/-- A start in an extended history is an old one, or one of the new emissions is it. -/
theorem StartedBy.of_append {newer : List Emission} (h : StartedBy t d k (newer ++ past)) :
    StartedBy t d k newer ∨ StartedBy t d k past := by
  obtain ⟨em, hem, hrest⟩ := h
  rcases List.mem_append.mp hem with hem | hem
  · exact .inl ⟨em, hem, hrest⟩
  · exact .inr ⟨em, hem, hrest⟩

/-- Emissions none of which is a start of the dispatch leave its handlers exited. -/
theorem HandlersExited.append {newer : List Emission} (h : HandlersExited t d past)
    (hnewer : ∀ k, ¬StartedBy t d k newer) : HandlersExited t d (newer ++ past) := by
  intro k hk
  rcases hk.of_append with hk | hk
  · exact absurd hk (hnewer k)
  · exact (h k hk).append newer

/-- Emissions none of which is a start of the dispatch keep what the history tells of it. -/
theorem Task.Tells.append {task : Task} {newer : List Emission} (h : task.Tells t past)
    (hnewer : ∀ k, ¬StartedBy t task.delivery k newer) : task.Tells t (newer ++ past) := by
  have hnone : (∀ k, ¬StartedBy t task.delivery k past) →
      ∀ k, ¬StartedBy t task.delivery k (newer ++ past) := by
    intro h k hk
    rcases hk.of_append with hk | hk
    · exact hnewer k hk
    · exact h k hk
  obtain ⟨d, s⟩ := task
  cases s with
  | slot job permits phase =>
    cases phase with
    | wait =>
      intro k' hk
      rcases hk.of_append with hk | hk
      · exact absurd hk (hnewer k')
      · exact h k' hk
    | mark | remove | ack => exact HandlersExited.append h hnewer
    | release => exact ⟨h.1.append hnewer, h.2.append newer⟩
    | _ => exact hnone h
  | finished => exact ⟨h.1.append hnewer, h.2.append newer⟩
  | _ => exact hnone h

/-- A dispatch that started no handler has none running. -/
theorem HandlersExited.of_not_started (h : ∀ k, ¬StartedBy t d k past) :
    HandlersExited t d past := fun k hk => absurd hk (h k)

/-- An emission that is no start. -/
theorem not_startedBy_of_started {em : Emission} (h : em.started = none) (k : EventKey) :
    ¬StartedBy t d k [em] := by
  rintro ⟨em', hem, -, -, hk⟩
  obtain rfl := List.mem_singleton.mp hem
  rw [h] at hk
  cases hk

/-- A history without a start has none after an emission that is no start. -/
theorem not_startedBy_cons {em : Emission} (hem : em.started = none)
    (h : ∀ k, ¬StartedBy t d k past) (k : EventKey) : ¬StartedBy t d k (em :: past) := by
  intro hk
  have hsplit : StartedBy t d k ([em] ++ past) := hk
  rcases hsplit.of_append with hk | hk
  · exact not_startedBy_of_started hem k hk
  · exact h k hk

/-- An emission that settles the delivery of the dispatch settles it. -/
theorem SettledBy.cons {effect : Effect} (h : effect.settles = true) :
    SettledBy t (⟨t, d, effect⟩ :: past) :=
  ⟨_, List.mem_cons_self, rfl, h⟩

/-- An access of a dispatch keeps the history telling of it. -/
theorem Polls.tells {S S' : Dispatcher} (hpoll : Polls C S d o s S' s' effects)
    (h : (⟨d, s⟩ : Task).Tells t past) :
    (⟨d, s'⟩ : Task).Tells t (effects.map (fun effect => ⟨t, d, effect⟩) ++ past) := by
  cases hpoll with
  | reject hrej =>
    cases hrej with
    | invalid => exact not_startedBy_cons rfl h
    | unregistered => exact not_startedBy_cons rfl h
    | disabled => exact not_startedBy_cons rfl h
  | configure | ensure | acquire | miss | enter | abort => exact h
  | hit | spawnFail => exact not_startedBy_cons rfl h
  | termRejected =>
    exact ⟨.of_not_started (not_startedBy_cons rfl h), .cons rfl⟩
  | ackHit | drop | term =>
    exact ⟨.of_not_started (not_startedBy_cons rfl h), .cons rfl⟩
  | @spawn job permits =>
    intro k' hk
    rcases hk.of_append with ⟨em, hem, -, -, hstarted⟩ | hk
    · obtain rfl := List.mem_singleton.mp hem
      exact (Option.some_inj.mp hstarted).symm
    · exact absurd hk (h k')
  | @exit job permits =>
    intro k' hk
    rcases hk.of_append with hk | hk
    · exact absurd hk (not_startedBy_of_started rfl k')
    · obtain rfl : k' = (d.agent, job.envelope.eventId) := h k' hk
      obtain ⟨em, hem, htask, hd, hstarted⟩ := hk
      exact ⟨_, em, (List.singleton_sublist.mpr hem).cons_cons _, rfl, rfl, rfl, htask, hd,
        hstarted⟩
  | mark | markFail =>
    exact HandlersExited.append h fun k => not_startedBy_of_started rfl k
  | remove => exact h
  | ack => exact ⟨HandlersExited.append h fun k => not_startedBy_of_started rfl k, .cons rfl⟩
  | release => exact h

namespace World.Told

theorem start (registry : Registry) (dedup : DedupStore) : Told (.start registry dedup) where
  known em hem := by simp [World.start] at hem
  tells t task htask := by simp [World.start] at htask

/-- A step that is no crash keeps the history telling of every dispatch. -/
theorem step (h : w.Told) {a : Action} (ha : a.OneLifetime)
    (hstep : (dispatchSystem C).step w a = some w') : w'.Told := by
  cases a with
  | poll t o =>
    obtain ⟨d, s, S', s', effects, htask, hpoll, rfl⟩ := World.step_poll hstep
    have hlt : t < w.tasks.length := (List.getElem?_eq_some_iff.mp htask).1
    refine ⟨fun em hem => ?_, fun i task hi => ?_⟩
    · show em.task < (w.tasks.set t _).length
      rw [List.length_set]
      rcases List.mem_append.mp hem with hem | hem
      · obtain ⟨effect, -, rfl⟩ := List.mem_map.mp hem
        exact hlt
      · exact h.known em hem
    · rcases getElem?_set_cases hi with ⟨rfl, rfl⟩ | ⟨hne, hi⟩
      · exact hpoll.tells (h.tells _ _ htask)
      · apply (h.tells i task hi).append
        rintro k ⟨em, hem, hem_task, -⟩
        obtain ⟨effect, -, rfl⟩ := List.mem_map.mp hem
        exact hne hem_task.symm
  | deliver d =>
    cases hstep
    refine ⟨fun em hem => ?_, fun i task hi => ?_⟩
    · have hlt := h.known em hem
      show em.task < (w.tasks ++ [_]).length
      rw [List.length_append]
      omega
    · rcases getElem?_append_cases hi with ⟨rfl, rfl⟩ | hi
      · -- no emission is of the new dispatch
        rintro k ⟨em, hem, hem_task, -⟩
        have hlt := h.known em hem
        omega
      · exact h.tells i task hi
  | pollCall c =>
    obtain ⟨agent, s, S', s', -, -, rfl⟩ := World.step_pollCall hstep
    exact ⟨h.known, h.tells⟩
  | restart registry now ttl => exact ha.elim
  | call | setRegistry | applyChanges | purge =>
    cases hstep
    exact ⟨h.known, h.tells⟩

end World.Told

/-! ## Loops that outlive the shutdown -/

/-- `Relay::start_pull` is about to spawn a loop. -/
def RequestStage.spawnsLoop : RequestStage → Bool
  | .relay (_ :: _) .start => true
  | _ => false

/-- The shutdown has drained the table of pull loops. -/
def ShutdownStage.drained : ShutdownStage → Bool
  | .drain => false
  | _ => true

/-- No loop is overlooked by the access of the shutdown: no operation is to store one when the table
is drained, and none is being polled when the set of dispatches is found empty. -/
def ShutdownStage.Clean (D : Daemon) : ShutdownStage → Prop
  | .drain => ∀ stage ∈ D.requests, stage.newLoop = none
  | .join => ∀ p ∈ D.loops, p.polling = false
  | _ => True

/-- No pull loop outlives the shutdown by the step, and the daemon does not crash. -/
def Daemon.DrainsCleanly (D : Daemon) : DaemonAction → Prop
  | .stop _ => ∀ stage ∈ D.shutdown, stage.Clean D
  | .serve r _ => ∀ stage ∈ D.shutdown, stage.drained = true →
      ∀ stage ∈ D.requests[r]?, stage.spawnsLoop = false
  | .restart .. => False
  | _ => True

/-- Every dispatch is in the set or has returned. -/
def Daemon.Joins (D : Daemon) : Prop :=
  ∀ (t : ℕ) (task : Task), D.world.tasks[t]? = some task →
    t ∈ D.dispatchTasks ∨ task.stage.isFinished = true

/-- Every dispatch is in the set or has returned.  After the drain the table is empty and stays so,
and when the shutdown has returned the set is empty and no loop runs any more. -/
structure Daemon.Drains (D : Daemon) : Prop where
  joins : D.Joins
  empty : ∀ stage ∈ D.shutdown, stage.drained = true →
    (∀ agent, D.pulls agent = none) ∧ ∀ stage ∈ D.requests, stage.newLoop = none
  halted : D.shutdown = some .returned →
    D.dispatchTasks = [] ∧ ∀ p ∈ D.loops, p.aborted = true ∧ p.polling = false

namespace Daemon

theorem Drains.start (registry : Registry) (dedup : DedupStore)
    (consumers : AgentId → Option Consumer) : (start registry dedup consumers).Drains where
  joins t task htask := by simp [Daemon.start, World.start] at htask
  empty stage hstage := by cases hstage
  halted h := by cases h

/-- A loop that is not polled and was aborted does nothing. -/
theorem pullTask_eq_none {p : PullLoop} (haborted : p.aborted = true) (hpolling : p.polling = false)
    (move : LoopMove) : D.pullTask C p move = none := by
  cases move with
  | _ => simp [pullTask, haborted, hpolling]

/-- When no loop runs, no loop makes a step. -/
theorem not_step_pull (h : ∀ p ∈ D.loops, p.aborted = true ∧ p.polling = false) {l : ℕ}
    {move : LoopMove} : (daemonSystem C).step D (.pull l move) ≠ some D' := by
  intro hstep
  obtain ⟨p, D₁, p', hp, htask, -⟩ := step_pull hstep
  obtain ⟨haborted, hpolling⟩ := h p (List.mem_of_getElem? hp)
  rw [pullTask_eq_none haborted hpolling] at htask
  cases htask

/-- An access of a dispatch keeps it in the set until it has returned. -/
theorem Joins.poll (h : D.Joins) {t : ℕ} {o : Outcome}
    (hstep : (daemonSystem C).step D (.poll t o) = some D') : D'.Joins := by
  obtain ⟨world, hworld, rfl⟩ := Option.map_eq_some_iff.mp hstep
  obtain ⟨d, s, S', s', effects, htask, hpoll, rfl⟩ := World.step_poll hworld
  intro i task hi
  rcases getElem?_set_cases hi with ⟨rfl, rfl⟩ | ⟨-, hi⟩
  · left
    -- a dispatch that has returned makes no access
    have hrunning : s.isFinished = false := by cases hpoll <;> rfl
    rcases h i ⟨d, s⟩ htask with hmem | hfinished
    · exact hmem
    · rw [hrunning] at hfinished
      cases hfinished
  · exact h i task hi

/-- A loop puts every dispatch that it spawns into the set. -/
theorem Joins.pulls (h : D.Joins) {agent : AgentId} {s s' : LoopStage}
    (hpulls : Pulls C D agent s D' s') : D'.Joins := by
  cases hpulls with
  | call hworld =>
    cases hworld
    exact h
  | count hworld =>
    obtain ⟨agent', s, S', s', -, -, rfl⟩ := World.step_pollCall (C := C) hworld
    exact h
  | spawn hworld =>
    cases hworld
    intro i task hi
    rcases getElem?_append_cases hi with ⟨rfl, -⟩ | hi
    · exact .inl (List.mem_append_right _ (List.mem_singleton_self _))
    · exact (h i task hi).imp_left (List.mem_append_left _)
  | receive | skip | idle => exact h

/-- An access of a control operation does not touch the set of dispatches. -/
theorem dispatchTasks_of_serves {o : ServeOutcome} {stage stage' : RequestStage}
    (h : Serves D o stage D₁ stage') : D₁.dispatchTasks = D.dispatchTasks := by
  cases h with
  | rebind | halt =>
    unfold stopPull
    split <;> rfl
  | _ => rfl

/-- After the drain, an operation that is neither to spawn a loop nor to store one leaves the table
and the loops as they are. -/
theorem relay_of_serves {o : ServeOutcome} {stage stage' : RequestStage}
    (h : Serves D o stage D₁ stage') (hpulls : ∀ agent, D.pulls agent = none)
    (hnew : stage.newLoop = none) (hspawn : stage.spawnsLoop = false) :
    D₁.pulls = D.pulls ∧ D₁.loops = D.loops ∧ stage'.newLoop = none := by
  have hstop : ∀ id, D.stopPull id = D := fun id => by simp [stopPull, hpulls id]
  cases h with
  | rebind =>
    rw [hstop]
    exact ⟨rfl, rfl, rfl⟩
  | halt =>
    rw [hstop]
    exact ⟨rfl, rfl, rfl⟩
  | spawn => cases hspawn
  | store => cases hnew
  | _ => exact ⟨rfl, rfl, rfl⟩

/-- An access of a control operation keeps the table empty after the drain, unless it spawns a
loop. -/
theorem Drains.serve (h : D.Drains) {r : ℕ} {o : ServeOutcome} (hok : D.DrainsCleanly (.serve r o))
    (hstep : (daemonSystem C).step D (.serve r o) = some D') : D'.Drains := by
  obtain ⟨stage, D₁, stage', hr, hserve, rfl⟩ := step_serve hstep
  have hserves := serves_of_serve hserve
  obtain ⟨hrequests, htasks, -⟩ := hserves.frame
  have hshutdown := shutdown_of_serves hserves
  have hset := dispatchTasks_of_serves hserves
  -- after the drain the operation leaves the relay alone
  have hrelay : ∀ sd ∈ D.shutdown, sd.drained = true →
      D₁.pulls = D.pulls ∧ D₁.loops = D.loops ∧ stage'.newLoop = none := by
    intro sd hsd hdrained
    obtain ⟨hpulls, hnew⟩ := h.empty sd hsd hdrained
    exact relay_of_serves hserves hpulls (hnew stage (List.mem_of_getElem? hr))
      (hok sd hsd hdrained stage hr)
  refine ⟨?_, ?_, ?_⟩
  · show ∀ (t : ℕ) (task : Task), D₁.world.tasks[t]? = some task → t ∈ D₁.dispatchTasks ∨ _
    rw [htasks, hset]
    exact h.joins
  · intro sd hsd hdrained
    change sd ∈ D₁.shutdown at hsd
    rw [hshutdown] at hsd
    obtain ⟨hpulls, -, hnew'⟩ := hrelay sd hsd hdrained
    obtain ⟨hempty, hnew⟩ := h.empty sd hsd hdrained
    refine ⟨fun agent => ?_, fun s hs => ?_⟩
    · show D₁.pulls agent = none
      rw [hpulls]
      exact hempty agent
    · change s ∈ D₁.requests.set r stage' at hs
      rw [hrequests] at hs
      rcases List.mem_or_eq_of_mem_set hs with hs | rfl
      · exact hnew s hs
      · exact hnew'
  · intro hret
    change D₁.shutdown = some .returned at hret
    rw [hshutdown] at hret
    obtain ⟨-, hloops, -⟩ := hrelay .returned hret rfl
    obtain ⟨hnil, hhalted⟩ := h.halted hret
    show D₁.dispatchTasks = [] ∧ ∀ p ∈ D₁.loops, p.aborted = true ∧ p.polling = false
    rw [hset, hloops]
    exact ⟨hnil, hhalted⟩

/-- When the table is empty, no operation is to store a loop, and the drained loops have been
aborted, all loops have been. -/
theorem Accounted.aborted (h : D.Accounted) (hpulls : ∀ agent, D.pulls agent = none)
    (hnew : ∀ stage ∈ D.requests, stage.newLoop = none) (hjoin : D.shutdown = some .join) :
    ∀ p ∈ D.loops, p.aborted = true := by
  intro p hp
  obtain ⟨l, hl⟩ := List.getElem?_of_mem hp
  by_contra haborted
  rw [Bool.not_eq_true] at haborted
  have hinfo : D.loopInfo l = some (p.agent, false) := by simp [loopInfo, hl, haborted]
  rcases h l p.agent hinfo with htable | ⟨i, stage, hstage, hown⟩ | ⟨ls, habort, -⟩
  · rw [hpulls] at htable
    cases htable
  · rw [hnew stage (List.mem_of_getElem? hstage)] at hown
    cases hown
  · rw [hjoin] at habort
    cases habort

/-- An access of the shutdown that overlooks no loop keeps the loops in hand. -/
theorem Drains.stop (h : D.Drains) (hacc : D.Accounted) {pick : ℕ}
    (hok : D.DrainsCleanly (.stop pick)) (hstop : D.stop pick = some D') : D'.Drains := by
  cases Daemon.stops_of_stop hstop with
  | drain hdrain =>
    refine ⟨h.joins, fun stage hstage hdrained => ⟨fun agent => rfl, ?_⟩, ?_⟩
    · exact hok .drain hdrain
    · intro hret
      cases hret
  | abort hls | lock hls =>
    refine ⟨h.joins, fun stage hstage hdrained => h.empty _ hls rfl, ?_⟩
    intro hret
    cases hret
  | finish hjoin hnil =>
    obtain ⟨hpulls, hnew⟩ := h.empty _ hjoin rfl
    refine ⟨h.joins, fun stage hstage hdrained => ⟨hpulls, hnew⟩, fun _ => ⟨hnil, ?_⟩⟩
    intro p hp
    exact ⟨hacc.aborted hpulls hnew hjoin p hp, hok .join hjoin p hp⟩

/-- A step that lets no loop outlive the shutdown keeps the loops in hand. -/
theorem Drains.step (h : D.Drains) (hacc : D.Accounted) {a : DaemonAction} (hok : D.DrainsCleanly a)
    (hstep : (daemonSystem C).step D a = some D') : D'.Drains := by
  cases a with
  | poll t o =>
    have hjoins := h.joins.poll hstep
    obtain ⟨world, -, rfl⟩ := Option.map_eq_some_iff.mp hstep
    exact ⟨hjoins, h.empty, h.halted⟩
  | pull l move =>
    have hrunning : D.shutdown ≠ some .returned := by
      intro hret
      exact not_step_pull (h.halted hret).2 hstep
    obtain ⟨p, D₁, p', -, htask, rfl⟩ := step_pull hstep
    obtain ⟨-, -, ⟨rfl, -⟩ | hpulls⟩ := pullTask_cases htask
    · exact ⟨h.joins, h.empty, fun hret => absurd hret hrunning⟩
    · have hjoins := h.joins.pulls hpulls
      obtain ⟨htable, -, hrequests, -, hshutdown⟩ := hpulls.relay_eq
      refine ⟨hjoins, fun stage hstage hdrained => ?_, fun hret => ?_⟩
      · change stage ∈ D₁.shutdown at hstage
        show (∀ agent, D₁.pulls agent = none) ∧ ∀ stage ∈ D₁.requests, stage.newLoop = none
        rw [htable, hrequests]
        rw [hshutdown] at hstage
        exact h.empty stage hstage hdrained
      · change D₁.shutdown = some .returned at hret
        rw [hshutdown] at hret
        exact absurd hret hrunning
  | send loop agent sending =>
    obtain ⟨c, c', d, -, -, ⟨-, rfl⟩ | ⟨l, p, stage, -, hp, -, -, rfl⟩⟩ := step_send hstep
    · exact ⟨h.joins, h.empty, h.halted⟩
    · refine ⟨h.joins, h.empty, fun hret => ?_⟩
      obtain ⟨hnil, hhalted⟩ := h.halted hret
      refine ⟨hnil, fun q hq => ?_⟩
      rcases List.mem_or_eq_of_mem_set hq with hq | rfl
      · exact hhalted q hq
      · exact hhalted p (List.mem_of_getElem? hp)
  | settle agent seq =>
    obtain ⟨c, -, -, rfl⟩ := step_settle hstep
    exact ⟨h.joins, h.empty, h.halted⟩
  | request op =>
    obtain ⟨-, rfl⟩ := Daemon.step_request hstep
    refine ⟨h.joins, fun stage hstage hdrained => ?_, h.halted⟩
    obtain ⟨hpulls, hnew⟩ := h.empty stage hstage hdrained
    refine ⟨hpulls, fun s hs => ?_⟩
    rcases List.mem_append.mp hs with hs | hs
    · exact hnew s hs
    · obtain rfl := List.mem_singleton.mp hs
      rfl
  | serve r o => exact h.serve hok hstep
  | shutdown =>
    obtain ⟨-, rfl⟩ := Daemon.step_shutdown hstep
    refine ⟨h.joins, fun stage hstage hdrained => ?_, fun hret => ?_⟩
    · obtain rfl : ShutdownStage.drain = stage := Option.some_inj.mp hstage
      cases hdrained
    · cases hret
  | stop pick => exact h.stop hacc hok hstep
  | join t =>
    obtain ⟨⟨hshutdown, -, hfinished⟩, rfl⟩ := Daemon.step_join hstep
    refine ⟨fun i task hi => ?_, h.empty, fun hret => ?_⟩
    · by_cases hit : i = t
      · subst hit
        change D.world.tasks[i]? = some task at hi
        right
        simpa [hi] using hfinished
      · exact (h.joins i task hi).imp_left fun hmem => (List.mem_erase_of_ne hit).mpr hmem
    · change D.shutdown = some .returned at hret
      rw [hshutdown] at hret
      cases hret
  | restart registry now ttl => exact hok.elim

/-- Once the shutdown has returned no dispatch is spawned and none makes an access. -/
theorem Drains.step_returned (h : D.Drains) (hret : D.shutdown = some .returned) {a : DaemonAction}
    (hok : D.DrainsCleanly a) (hstep : (daemonSystem C).step D a = some D') :
    D'.shutdown = some .returned ∧ D'.world.tasks = D.world.tasks ∧
      D'.world.trace = D.world.trace := by
  obtain ⟨hnil, hhalted⟩ := h.halted hret
  cases a with
  | poll t o =>
    obtain ⟨world, hworld, rfl⟩ := Option.map_eq_some_iff.mp hstep
    obtain ⟨d, s, S', s', effects, htask, hpoll, -⟩ := World.step_poll hworld
    have hfinished : s.isFinished = true := by simpa [hnil] using h.joins t ⟨d, s⟩ htask
    cases hpoll <;> cases hfinished
  | pull l move => exact absurd hstep (not_step_pull hhalted)
  | serve r o =>
    obtain ⟨stage, D₁, stage', -, hserve, rfl⟩ := step_serve hstep
    have hserves := serves_of_serve hserve
    obtain ⟨-, htasks, htrace, -⟩ := hserves.frame
    exact ⟨(shutdown_of_serves hserves).trans hret, htasks, htrace⟩
  | send loop agent sending =>
    obtain ⟨c, c', d, -, -, ⟨-, rfl⟩ | ⟨l, p, stage, -, -, -, -, rfl⟩⟩ := step_send hstep
    · exact ⟨hret, rfl, rfl⟩
    · exact ⟨hret, rfl, rfl⟩
  | settle agent seq =>
    obtain ⟨c, -, -, rfl⟩ := step_settle hstep
    exact ⟨hret, rfl, rfl⟩
  | request op =>
    obtain ⟨-, rfl⟩ := Daemon.step_request hstep
    exact ⟨hret, rfl, rfl⟩
  | shutdown | join =>
    simp [daemonSystem, Daemon.step, hret] at hstep
  | stop pick =>
    have hstop : D.stop pick = some D' := hstep
    simp [Daemon.stop, hret] at hstop
  | restart registry now ttl => exact hok.elim

/-- Without a crash of the daemon the dispatcher does not crash. -/
theorem DrainsCleanly.oneLifetime {a : DaemonAction} (h : D.DrainsCleanly a) {b : Action}
    (hb : b ∈ D.worldAction a) : b.OneLifetime := by
  cases a with
  | poll t o =>
    cases hb
    trivial
  | pull l move =>
    simp only [worldAction] at hb
    split at hb <;> cases hb <;> trivial
  | serve r o =>
    simp only [worldAction] at hb
    split at hb
    · split at hb <;> cases hb
      trivial
    · cases hb
      trivial
    · cases hb
  | restart registry now ttl => exact h.elim
  | _ => cases hb

/-- When no pull loop outlives the shutdown, then every dispatch has returned when the shutdown has:
every handler it started has exited, and its delivery was acknowledged or terminated or dropped as a
duplicate.  Nothing is started afterwards. -/
theorem drained_of_returned {registry : Registry} {dedup : DedupStore}
    {consumers : AgentId → Option Consumer}
    (hrun : (daemonSystem C).Run Daemon.DrainsCleanly (.start registry dedup consumers) D)
    (hret : D.shutdown = some .returned) :
    (∀ (t : ℕ) (task : Task), D.world.tasks[t]? = some task →
      task.stage.isFinished = true ∧ HandlersExited t task.delivery D.world.trace ∧
        SettledBy t D.world.trace) ∧
    ∀ D', (daemonSystem C).Run Daemon.DrainsCleanly D D' →
      D'.world.tasks = D.world.tasks ∧ D'.world.trace = D.world.trace := by
  have hdrains : D.Drains ∧ D.Accounted := by
    refine hrun.invariant (I := fun D => D.Drains ∧ D.Accounted) ?_ ?_
    · exact ⟨.start registry dedup consumers, .start registry dedup consumers⟩
    · intro x a y hx hok hstep
      exact ⟨hx.1.step hx.2 hok hstep, hx.2.step hstep⟩
  have htold : D.world.Told := by
    have hworld :
        (dispatchSystem C).Run (fun _ b => b.OneLifetime) (.start registry dedup) D.world :=
      run_world hrun fun _ _ hok _ hb => hok.oneLifetime hb
    exact hworld.invariant (.start registry dedup) fun _ _ _ h ha hstep => h.step ha hstep
  refine ⟨fun t task htask => ?_, fun D' hrun' => ?_⟩
  · have hfinished : task.stage.isFinished = true := by
      simpa [(hdrains.1.halted hret).1] using hdrains.1.joins t task htask
    refine ⟨hfinished, ?_⟩
    have htells := htold.tells t task htask
    obtain ⟨d, s⟩ := task
    cases s with
    | finished => exact htells
    | _ => cases hfinished
  · have hkept : (D'.Drains ∧ D'.Accounted) ∧ D'.shutdown = some .returned ∧
        D'.world.tasks = D.world.tasks ∧ D'.world.trace = D.world.trace := by
      refine hrun'.invariant (I := fun x => (x.Drains ∧ x.Accounted) ∧ x.shutdown = some .returned ∧
        x.world.tasks = D.world.tasks ∧ x.world.trace = D.world.trace) ⟨hdrains, hret, rfl, rfl⟩ ?_
      rintro x a y ⟨⟨hx, hacc⟩, hretx, htasks, htrace⟩ hok hstep
      obtain ⟨hrety, htasksy, htracey⟩ := hx.step_returned hretx hok hstep
      exact ⟨⟨hx.step hacc hok hstep, hacc.step hstep⟩, hrety, htasksy.trans htasks,
        htracey.trans htrace⟩
    exact hkept.2.2

end Daemon

instance (D : Daemon) : DecidablePred (ShutdownStage.Clean D)
  | .drain => inferInstanceAs (Decidable (∀ stage ∈ D.requests, stage.newLoop = none))
  | .join => inferInstanceAs (Decidable (∀ p ∈ D.loops, p.polling = false))
  | .abort _ | .returned => inferInstanceAs (Decidable True)

instance (D : Daemon) : DecidablePred D.DrainsCleanly
  | .stop _ => inferInstanceAs (Decidable (∀ stage ∈ D.shutdown, stage.Clean D))
  | .serve r _ => inferInstanceAs (Decidable (∀ stage ∈ D.shutdown, stage.drained = true →
      ∀ stage ∈ D.requests[r]?, stage.spawnsLoop = false))
  | .restart .. => inferInstanceAs (Decidable False)
  | .poll .. | .pull .. | .send .. | .settle .. | .request _ | .shutdown | .join _ =>
    inferInstanceAs (Decidable True)

/-- The shutdown aborts a loop that is waiting for the next message, and waits for the dispatch of
the first one. -/
def Sample.drainOne : List DaemonAction :=
  pullFirst ++ [.shutdown, .stop, .stop, .pull 0 .suspend, .stop] ++ dispatches 0 11 ++
    [.join 0, .stop]

theorem drained_of_returned_drainOne :
    ∃ D, (daemonSystem Sample.dispatcherConfig).Run Daemon.DrainsCleanly
        (.start (Sample.registry Sample.config) .empty fun _ => none) D ∧
      D.shutdown = some .returned ∧ (D.world.trace.any fun em => em.started.isSome) = true ∧
      (∀ (t : ℕ) (task : Task), D.world.tasks[t]? = some task →
        task.stage.isFinished = true ∧ HandlersExited t task.delivery D.world.trace ∧
          SettledBy t D.world.trace) ∧
      ∀ D', (daemonSystem Sample.dispatcherConfig).Run Daemon.DrainsCleanly D D' →
        D'.world.tasks = D.world.tasks ∧ D'.world.trace = D.world.trace := by
  obtain ⟨D, hrun, hend⟩ := exists_run_of_exec (daemonSystem Sample.dispatcherConfig)
    Daemon.DrainsCleanly (.start (Sample.registry Sample.config) .empty fun _ => none)
    Sample.drainOne
    (fun D => decide (D.shutdown = some .returned ∧
      (D.world.trace.any fun em => em.started.isSome) = true)) (by decide +kernel)
  obtain ⟨hret, hstarted⟩ := of_decide_eq_true hend
  exact ⟨D, hrun, hret, hstarted, Daemon.drained_of_returned hrun hret⟩

/-- The shutdown returns while a loop is being polled that has a message in its hand. -/
def Sample.returnEarly : List DaemonAction :=
  serves 0 5 ++ [.pull 0 .resume] ++ advances 0 6 ++ [.send (some 0) agent (.new message)] ++
    advances 0 1 ++ [.shutdown, .stop, .stop, .stop, .stop]

/-- The loop spawns the dispatch of the message, and the dispatch starts its handler. -/
def Sample.handleLate : List DaemonAction := advances 0 1 ++ dispatches 0 6

/-- A pull loop that is being polled when the shutdown aborts it may spawn a dispatch after the
shutdown has returned, and the dispatch starts a handler. -/
theorem handler_started_after_shutdown :
    ¬∀ (C : DispatcherConfig) (registry : Registry) (dedup : DedupStore)
        (consumers : AgentId → Option Consumer) (D : Daemon),
      (daemonSystem C).Run (fun _ a => a.OneLifetime) (.start registry dedup consumers) D →
      D.shutdown = some .returned →
      (∀ (t : ℕ) (task : Task), D.world.tasks[t]? = some task →
        task.stage.isFinished = true ∧ HandlersExited t task.delivery D.world.trace ∧
          SettledBy t D.world.trace) ∧
      ∀ D', (daemonSystem C).Run (fun _ a => a.OneLifetime) D D' →
        D'.world.tasks.length = D.world.tasks.length ∧
          ∀ em ∈ D'.world.trace, em.started ≠ none → em ∈ D.world.trace := by
  intro h
  obtain ⟨D, hrun, hend⟩ := exists_run_of_exec (daemonSystem Sample.dispatcherConfig)
    (fun _ a => a.OneLifetime) (.start (Sample.registry Sample.config) .empty fun _ => none)
    Sample.returnEarly
    (fun D => decide (D.shutdown = some .returned ∧ D.world.trace = [] ∧
      (((daemonSystem Sample.dispatcherConfig).exec (fun _ a => a.OneLifetime) D
        Sample.handleLate).any fun D' => D'.world.trace.any fun em => em.started.isSome) = true))
    (by decide +kernel)
  obtain ⟨hret, hquiet, hlate⟩ := of_decide_eq_true hend
  obtain ⟨D', hrun', hstarted⟩ := exists_run_of_exec _ _ D Sample.handleLate _ hlate
  obtain ⟨em, hem, hsome⟩ := List.any_eq_true.mp hstarted
  obtain ⟨-, hstarts⟩ := (h _ _ _ _ D hrun hret).2 D' hrun'
  have hmem : em ∈ D.world.trace := by
    apply hstarts em hem
    intro hnone
    rw [hnone] at hsome
    cases hsome
  rw [hquiet] at hmem
  cases hmem

end Agentd
