import Agentd.Daemon.Shutdown

/-!
# The set of dispatches

A pull loop spawns the dispatch of each message into `Relay::dispatch_tasks`, and only the shutdown
joins the dispatches that have returned.  While the daemon is in service no entry leaves the set: it
has one for every dispatch of the process (`Retains`).  So the entries are all of dispatches under
way (`Trim`) exactly as long as no dispatch has returned, and from then on the set only grows.
-/

namespace Agentd

open TransitionSystem TaskPool

variable {C : DispatcherConfig} {D D' D₀ : Daemon}

/-- The next access of the dispatch is its last one. -/
def Stage.isLast : Stage → Bool
  | .rejected | .slot _ _ .release => true
  | _ => false

namespace Daemon

/-- Nothing was delivered to the process so far, and the shutdown has nothing to wait for. -/
structure JustStarted (D : Daemon) : Prop where
  tasks : D.world.tasks = []
  dispatchTasks : D.dispatchTasks = []

/-- Every entry of the set of dispatches is of a dispatch that has not returned, and the set has no
more entries than there are such dispatches. -/
structure Trim (D : Daemon) : Prop where
  underWay : ∀ t ∈ D.dispatchTasks, ∃ task, D.world.tasks[t]? = some task ∧
    task.stage.isFinished = false
  size : D.dispatchTasks.length ≤ D.world.tasks.countP fun task => !task.stage.isFinished

/-- A dispatch returns. -/
def Returns (D : Daemon) : DaemonAction → Prop
  | .poll t _ => (D.world.tasks[t]?.any fun task => task.stage.isLast) = true
  | _ => False

instance (D : Daemon) : DecidablePred D.Returns
  | .poll t _ =>
    inferInstanceAs (Decidable ((D.world.tasks[t]?.any fun task => task.stage.isLast) = true))
  | .pull .. | .send .. | .settle .. | .request _ | .serve .. | .shutdown | .stop _ | .join _
  | .restart .. => inferInstanceAs (Decidable False)

/-- The set has one entry for every dispatch of the process. -/
def Retains (D : Daemon) : Prop := D.dispatchTasks = List.range D.world.tasks.length

/-- No dispatch of the process has returned. -/
def AllUnderWay (D : Daemon) : Prop :=
  ∀ task ∈ D.world.tasks, task.stage.isFinished = false

end Daemon

/-- A dispatch that makes an access has not returned, and it has afterwards exactly if this was the
last one. -/
theorem Polls.isFinished_eq {E E' : Dispatcher} {d : Delivery} {o : Outcome} {s s' : Stage}
    {effects : List Effect} (h : Polls C E d o s E' s' effects) :
    s.isFinished = false ∧ s'.isFinished = s.isLast := by
  cases h <;> exact ⟨rfl, rfl⟩

namespace Daemon

/-- In service, a step polls one dispatch, or spawns one into the set, or leaves the dispatches and
the set alone. -/
theorem tasks_of_step {a : DaemonAction} (ha : a.InService)
    (hstep : (daemonSystem C).step D a = some D') :
    (∃ t o d s s', a = .poll t o ∧ D.world.tasks[t]? = some ⟨d, s⟩ ∧ s.isFinished = false ∧
      s'.isFinished = s.isLast ∧ D'.world.tasks = D.world.tasks.set t ⟨d, s'⟩ ∧
      D'.dispatchTasks = D.dispatchTasks) ∨
    (∀ t o, a ≠ .poll t o) ∧
      ((∃ d, D'.world.tasks = D.world.tasks ++ [⟨d, .received⟩] ∧
          D'.dispatchTasks = D.dispatchTasks ++ [D.world.tasks.length]) ∨
        (D'.world.tasks = D.world.tasks ∧ D'.dispatchTasks = D.dispatchTasks)) := by
  cases a with
  | poll t o =>
    left
    obtain ⟨world, hworld, rfl⟩ := Option.map_eq_some_iff.mp hstep
    obtain ⟨d, s, E', s', effects, htask, hpolls, rfl⟩ := World.step_poll hworld
    obtain ⟨hnot, hfin⟩ := hpolls.isFinished_eq
    exact ⟨t, o, d, s, s', rfl, htask, hnot, hfin, rfl, rfl⟩
  | pull l move =>
    refine .inr ⟨nofun, ?_⟩
    obtain ⟨⟨agent, s, polling, aborted⟩, D₁, p', -, htask, rfl⟩ := step_pull hstep
    obtain ⟨-, -, ⟨rfl, -⟩ | hpulls⟩ := pullTask_cases htask
    · exact .inr ⟨rfl, rfl⟩
    generalize p'.stage = s' at hpulls
    cases hpulls with
    | call hworld =>
      cases hworld
      exact .inr ⟨rfl, rfl⟩
    | count hworld =>
      obtain ⟨agent, s, E', s', -, -, rfl⟩ := World.step_pollCall (C := C) hworld
      exact .inr ⟨rfl, rfl⟩
    | @spawn d credit inbox world hworld =>
      cases hworld
      exact .inl ⟨d, rfl, rfl⟩
    | _ => exact .inr ⟨rfl, rfl⟩
  | send loop agent sending =>
    refine .inr ⟨nofun, .inr ?_⟩
    obtain ⟨c, c', d, -, -, ⟨-, rfl⟩ | ⟨l, p, stage, -, -, -, -, rfl⟩⟩ := step_send hstep
    · exact ⟨rfl, rfl⟩
    · exact ⟨rfl, rfl⟩
  | settle agent seq =>
    obtain ⟨c, -, -, rfl⟩ := step_settle hstep
    exact .inr ⟨nofun, .inr ⟨rfl, rfl⟩⟩
  | request op =>
    obtain ⟨-, rfl⟩ := step_request hstep
    exact .inr ⟨nofun, .inr ⟨rfl, rfl⟩⟩
  | serve r o =>
    refine .inr ⟨nofun, .inr ?_⟩
    obtain ⟨stage, D₁, stage', -, hserve, rfl⟩ := step_serve hstep
    have hserves := serves_of_serve hserve
    have hset : D₁.dispatchTasks = D.dispatchTasks := dispatchTasks_of_serves hserves
    exact ⟨hserves.frame.2.1, hset⟩
  | shutdown | stop | join | restart => exact ha.elim

variable {a : DaemonAction}

/-- In service, the set keeps an entry for every dispatch. -/
theorem Retains.step (h : D.Retains) (ha : a.InService)
    (hstep : (daemonSystem C).step D a = some D') : D'.Retains := by
  unfold Retains at h ⊢
  rcases tasks_of_step ha hstep with ⟨t, o, d, s, s', -, -, -, -, htasks, hset⟩ |
    ⟨-, ⟨d, htasks, hset⟩ | ⟨htasks, hset⟩⟩
  · rw [hset, htasks, List.length_set, h]
  · rw [hset, htasks, List.length_append, List.length_singleton, List.range_succ, h]
  · rw [hset, htasks, h]

/-- In service, no dispatch returns unless a step is the last access of one. -/
theorem AllUnderWay.step (h : D.AllUnderWay) (ha : a.InService) (hnot : ¬D.Returns a)
    (hstep : (daemonSystem C).step D a = some D') : D'.AllUnderWay := by
  intro task htask
  rcases tasks_of_step ha hstep with ⟨t, o, d, s, s', rfl, ht, -, hfin, htasks, -⟩ |
    ⟨-, ⟨d, htasks, -⟩ | ⟨htasks, -⟩⟩
  · rw [htasks] at htask
    rcases List.mem_or_eq_of_mem_set htask with hold | rfl
    · exact h task hold
    · have hlast : s.isLast = false := by simpa [Returns, ht] using hnot
      exact hfin.trans hlast
  · rw [htasks] at htask
    rcases List.mem_append.mp htask with hold | hnew
    · exact h task hold
    · obtain rfl := List.mem_singleton.mp hnew
      rfl
  · exact h task (htasks ▸ htask)

/-- In service, a dispatch that has returned stays so. -/
theorem not_allUnderWay_step (h : ¬D.AllUnderWay) (ha : a.InService)
    (hstep : (daemonSystem C).step D a = some D') : ¬D'.AllUnderWay := by
  intro hall
  apply h
  intro task htask
  rcases tasks_of_step ha hstep with ⟨t, o, d, s, s', -, ht, hnot, -, htasks, -⟩ |
    ⟨-, ⟨d, htasks, -⟩ | ⟨htasks, -⟩⟩
  · obtain ⟨i, hi⟩ := List.mem_iff_getElem?.mp htask
    by_cases hit : i = t
    · subst hit
      obtain rfl : (⟨d, s⟩ : Task) = task := Option.some_inj.mp (ht.symm.trans hi)
      exact hnot
    · have hi' : D'.world.tasks[i]? = some task := by
        rw [htasks, List.getElem?_set_ne (Ne.symm hit)]
        exact hi
      exact hall task (List.mem_of_getElem? hi')
  · exact hall task (htasks ▸ List.mem_append_left _ htask)
  · exact hall task (htasks ▸ htask)

/-- After the last access of a dispatch one has returned. -/
theorem not_allUnderWay_of_returns (ha : a.InService) (hreturns : D.Returns a)
    (hstep : (daemonSystem C).step D a = some D') : ¬D'.AllUnderWay := by
  intro hall
  rcases tasks_of_step ha hstep with ⟨t, o, d, s, s', rfl, ht, -, hfin, htasks, -⟩ | ⟨hpoll, -⟩
  · have hlast : s.isLast = true := by simpa [Returns, ht] using hreturns
    have hmem : (⟨d, s'⟩ : Task) ∈ D'.world.tasks := by
      rw [htasks]
      exact List.mem_of_getElem? (getElem?_set_self_of_mem ht)
    have hrunning : s'.isFinished = false := hall _ hmem
    rw [hfin, hlast] at hrunning
    cases hrunning
  · cases a with
    | poll t o => exact hpoll t o rfl
    | _ => exact hreturns.elim

/-- While every dispatch has its entry, the entries are all of dispatches under way exactly when no
dispatch has returned. -/
theorem Retains.trim_iff_allUnderWay (h : D.Retains) : D.Trim ↔ D.AllUnderWay := by
  constructor
  · intro htrim task htask
    obtain ⟨t, ht⟩ := List.mem_iff_getElem?.mp htask
    have hentry : t ∈ D.dispatchTasks := by
      rw [h]
      exact List.mem_range.mpr (List.getElem?_eq_some_iff.mp ht).1
    obtain ⟨task', ht', hnot⟩ := htrim.underWay t hentry
    obtain rfl : task = task' := Option.some_inj.mp (ht.symm.trans ht')
    exact hnot
  · intro hall
    refine ⟨fun t hentry => ?_, ?_⟩
    · rw [h] at hentry
      have hlt := List.mem_range.mp hentry
      exact ⟨_, List.getElem?_eq_getElem hlt, hall _ (List.getElem_mem hlt)⟩
    · have hcount : D.world.tasks.countP (fun task => !task.stage.isFinished) =
          D.world.tasks.length := by
        refine List.countP_eq_length.mpr fun task htask => ?_
        rw [hall task htask]
        rfl
      rw [h, hcount, List.length_range]

end Daemon

/-- A process that has just started, and any actions it takes in service.  The entries of the set of
dispatches are all of dispatches under way, and no more than these, exactly if none of the actions
was the last access of a dispatch. -/
theorem trim_iff (hstart : D₀.JustStarted) {as : List DaemonAction}
    (hrun : (daemonSystem C).exec (fun _ a => a.InService) D₀ as = some D) :
    D.Trim ↔
      (daemonSystem C).exec (fun x a => a.InService ∧ ¬x.Returns a) D₀ as = some D := by
  have hretains : D.Retains := by
    refine (run_of_exec hrun).invariant (I := Daemon.Retains) ?_ fun x a y hx ha hxy =>
      hx.step ha hxy
    simp [Daemon.Retains, hstart.tasks, hstart.dispatchTasks]
  rw [hretains.trim_iff_allUnderWay]
  constructor
  · intro hall
    rcases exec_or_violates (fun x a => a.InService ∧ ¬x.Returns a) hrun with
      hexec | ⟨v, a, v', -, ha, hviolates, hstep, hrest⟩
    · exact hexec
    · have hreturns : v.Returns a := by
        by_contra hnot
        exact hviolates ⟨ha, hnot⟩
      have hreturned : ¬D.AllUnderWay :=
        hrest.invariant (I := fun x => ¬x.AllUnderWay)
          (Daemon.not_allUnderWay_of_returns ha hreturns hstep) fun x a y hx ha hxy =>
            Daemon.not_allUnderWay_step hx ha hxy
      exact absurd hall hreturned
  · intro hexec
    refine (run_of_exec hexec).invariant (I := Daemon.AllUnderWay) ?_ fun x a y hx ha hxy =>
      hx.step ha.1 ha.2 hxy
    intro task htask
    rw [hstart.tasks] at htask
    cases htask

namespace Sample

/-- A dispatch is under way. -/
def dispatchOne : List DaemonAction := pullFirst ++ dispatches 0 4

/-- The dispatch has returned. -/
def handleOne : List DaemonAction := pullFirst ++ dispatches 0 11

/-- Where these actions end. -/
def inService (as : List DaemonAction) : Option Daemon :=
  (daemonSystem dispatcherConfig).exec (fun _ a => a.InService)
    (.start (registry config) .empty fun _ => none) as

end Sample

theorem trim_iff_dispatchOne :
    ∃ D, Sample.inService Sample.dispatchOne = some D ∧ D.dispatchTasks = [0] ∧
      (D.Trim ↔ (daemonSystem Sample.dispatcherConfig).exec
        (fun x a => a.InService ∧ ¬x.Returns a)
        (.start (Sample.registry Sample.config) .empty fun _ => none) Sample.dispatchOne =
          some D) := by
  obtain ⟨D, hD, hentry⟩ := (Option.any_eq_true
    (fun D : Daemon => decide (D.dispatchTasks = [0])) _).mp
    (show (Sample.inService Sample.dispatchOne).any _ = true by decide +kernel)
  exact ⟨D, hD, of_decide_eq_true hentry, trim_iff ⟨rfl, rfl⟩ hD⟩

/-- The entry of a dispatch stays in the set when the dispatch has returned. -/
theorem returned_dispatch_retained :
    ¬∀ (C : DispatcherConfig) (registry : Registry) (dedup : DedupStore)
        (consumers : AgentId → Option Consumer) (D : Daemon),
      (daemonSystem C).Run (fun _ a => a.InService) (.start registry dedup consumers) D →
      D.Trim := by
  intro h
  obtain ⟨D, hrun, hend⟩ := exists_run_of_exec (daemonSystem Sample.dispatcherConfig)
    (fun _ a => a.InService) (.start (Sample.registry Sample.config) .empty fun _ => none)
    Sample.handleOne
    (fun D => decide (0 ∈ D.dispatchTasks ∧
      (D.world.tasks[0]?.any fun task => task.stage.isFinished) = true)) (by decide +kernel)
  obtain ⟨hentry, hreturned⟩ := of_decide_eq_true hend
  obtain ⟨task, htask, hrunning⟩ := (h _ _ _ _ D hrun).underWay 0 hentry
  rw [htask, Option.any_some, hrunning] at hreturned
  cases hreturned

end Agentd
