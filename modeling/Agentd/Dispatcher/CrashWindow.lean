import Agentd.Dispatcher.InFlight
import Agentd.Dispatcher.Slots

/-!
# The crash window

How often can the handler of a serial agent be started for one event, over all the processes of a
daemon that crashes and starts again?  A dispatch of a serial agent holds the only permit of the
agent from its lookup in the completed store to the end, so nobody else records the event between
its lookup and its spawn.  What a crash can lose is the record of a handler that was started and
has not been recorded yet; each such crash (`World.crashesInWindow`) allows one more start.

`CrashBounded` says so of every state: the starts of an event are at most the crashes counted, or
one more when the event is recorded or its handler stands in the window.
-/

namespace Agentd

open TransitionSystem TaskPool

variable {C : DispatcherConfig} {w w' : World} {D' : Dispatcher} {agent : AgentId} {k : EventKey}
  {n t : ℕ} {d : Delivery} {o : Outcome} {s s' : Stage} {effects : List Effect}

/-! ## The environment of the bound -/

/-- The agent's registration stays as it is, over crashes too, and no change is applied to it. -/
def World.KeepsRegistration (agent : AgentId) (w : World) : Action → Prop
  | .setRegistry registry | .restart registry _ _ =>
    registry.get agent = w.dispatcher.registry.get agent
  | .applyChanges changes => agent ∉ changes.map Change.agentId
  | _ => True

/-- The store does not fail for the agent, and no row of the agent is expired when expired rows are
deleted. -/
def World.KeepsRows (agent : AgentId) (w : World) : Action → Prop
  | .poll t o => ∀ task ∈ w.tasks[t]?, task.delivery.agent = agent →
      o.lookupFails = false ∧ o.markFails = false
  | .purge now ttl | .restart _ now ttl => ∀ row ∈ w.dispatcher.dedup.rows,
      row.agentId = agent → ¬row.completedAt < DedupStore.cutoff now ttl
  | _ => True

/-- The daemon crashes when the handler was started for the event and its completion is not
recorded. -/
def World.crashesInWindow (k : EventKey) (w : World) : Action → Bool
  | .restart .. => w.tasks.any fun task => task.keyIn Phase.unrecorded == some k
  | _ => false

instance (agent : AgentId) (w : World) : DecidablePred (w.KeepsRegistration agent)
  | .setRegistry registry | .restart registry _ _ =>
    inferInstanceAs (Decidable (registry.get agent = w.dispatcher.registry.get agent))
  | .applyChanges changes => inferInstanceAs (Decidable (agent ∉ changes.map Change.agentId))
  | .deliver _ | .poll .. | .call _ | .pollCall _ | .purge .. => inferInstanceAs (Decidable True)

instance (agent : AgentId) (w : World) : DecidablePred (w.KeepsRows agent)
  | .poll t o => inferInstanceAs (Decidable (∀ task ∈ w.tasks[t]?, task.delivery.agent = agent →
      o.lookupFails = false ∧ o.markFails = false))
  | .purge now ttl | .restart _ now ttl =>
    inferInstanceAs (Decidable (∀ row ∈ w.dispatcher.dedup.rows, row.agentId = agent →
      ¬row.completedAt < DedupStore.cutoff now ttl))
  | .deliver _ | .call _ | .pollCall _ | .setRegistry _ | .applyChanges _ =>
    inferInstanceAs (Decidable True)

/-! ## A serial agent -/

/-- The key of a dispatch is of its agent, and the dispatch holds a permit. -/
theorem Task.permit_of_keyIn {p : Phase → Bool} {task : Task} (h : task.keyIn p = some k) :
    task.delivery.agent = k.1 ∧ ∃ permits, task.permit = some permits := by
  obtain ⟨d, s⟩ := task
  cases s with
  | slot job permits phase =>
    simp only [keyIn] at h
    split at h
    · obtain rfl := Option.some_inj.mp h
      exact ⟨rfl, permits, rfl⟩
    · cases h
  | _ => cases h

namespace OneSemaphore

/-- At most one dispatch of a serial agent holds a permit. -/
theorem eq_of_keyIn (h : OneSemaphore k.1 1 w) (hacc : w.Accounts) {p q : Phase → Bool}
    {i j : ℕ} {x y : Task} (hx : w.tasks[i]? = some x) (hy : w.tasks[j]? = some y)
    (hkx : x.keyIn p = some k) (hky : y.keyIn q = some k) : i = j := by
  obtain ⟨hagx, px, hpx⟩ := Task.permit_of_keyIn hkx
  obtain ⟨hagy, py, hpy⟩ := Task.permit_of_keyIn hky
  have hstate : w.dispatcher.permitsOf k.1 = some px :=
    h.attached i x px hx hagx (x.semaphore_of_permit hpx)
  have hstate' : w.dispatcher.permitsOf k.1 = some py :=
    h.attached j y py hy hagy (y.semaphore_of_permit hpy)
  obtain rfl : px = py := Option.some_inj.mp (hstate.symm.trans hstate')
  exact hacc.eq_of_size_one (h.sized px hstate) hx hy hpx hpy

/-- A step that keeps the registration, a crash included, keeps the agent on one semaphore. -/
theorem step_of_keeps {limit : UInt32} (h : OneSemaphore agent limit w) {a : Action}
    (hok : w.KeepsRegistration agent a) (hstep : (dispatchSystem C).step w a = some w') :
    OneSemaphore agent limit w' := by
  have hregistered := h.registered
  have hsame : ∀ registry : Registry, registry.get agent = w.dispatcher.registry.get agent →
      registry.Limits agent limit := by
    intro registry hget
    unfold Registry.Limits at hregistered ⊢
    rwa [hget]
  cases a with
  | restart registry now ttl =>
    cases hstep
    refine ⟨hsame registry hok, ?_, ?_, ?_, ?_⟩
    · intro t d job ht
      simp at ht
    · intro c config hc
      simp at hc
    · intro p hp
      cases hp
    · intro t task p ht
      simp at ht
  | setRegistry registry =>
    have hlimit : (Action.setRegistry registry).KeepsLimit agent limit := hsame registry hok
    exact h.step hlimit trivial hstep
  | applyChanges changes =>
    have hdetached : w.DetachedApply agent (.applyChanges changes) := fun hmem => absurd hmem hok
    exact h.step (a := .applyChanges changes) trivial hdetached hstep
  | _ =>
    refine h.step ?_ ?_ hstep
    · trivial
    · trivial

end OneSemaphore

/-! ## The bound -/

/-- The phases between the lookup and the spawn. -/
def Phase.unstarted : Phase → Bool
  | .check | .spawn => true
  | _ => false

/-- The starts of the event are at most `n`, or one more while the event is recorded or its handler
is in the window; and a dispatch on its way to the spawn found the event as it still is, not
completed. -/
structure CrashBounded (k : EventKey) (n : ℕ) (w : World) : Prop where
  /-- The starts so far. -/
  bound : starts k w.trace ≤ n ∨ (starts k w.trace ≤ n + 1 ∧
    (w.dispatcher.dedup.isCompleted k.1 k.2 = true ∨
      k ∈ Owned (Task.keyIn Phase.unrecorded) w.tasks))
  /-- The start to come. -/
  uncompleted : ∀ (t : ℕ) (task : Task), w.tasks[t]? = some task →
    task.keyIn Phase.unstarted = some k → w.dispatcher.dedup.isCompleted k.1 k.2 = false

namespace CrashBounded

theorem start (registry : Registry) (dedup : DedupStore) (k : EventKey) :
    CrashBounded k 0 (.start registry dedup) where
  bound := .inl (by simp [starts, World.start])
  uncompleted t task ht := by simp [World.start] at ht

theorem starts_le (h : CrashBounded k n w) : starts k w.trace ≤ 1 + n := by
  rcases h.bound with hle | ⟨hle, -⟩ <;> omega

/-- An access that starts no handler and leaves the store alone. -/
theorem poll_quiet (h : CrashBounded k n w) (htask : w.tasks[t]? = some ⟨d, s⟩)
    (hstarts : starts k (effects.map fun effect => ⟨t, d, effect⟩) = 0)
    (hdedup : D'.dedup = w.dispatcher.dedup)
    (hwindow : (⟨d, s⟩ : Task).keyIn Phase.unrecorded = some k →
      (⟨d, s'⟩ : Task).keyIn Phase.unrecorded = some k)
    (huncompleted : (⟨d, s'⟩ : Task).keyIn Phase.unstarted = some k →
      (⟨d, s⟩ : Task).keyIn Phase.unstarted = some k ∨
        w.dispatcher.dedup.isCompleted k.1 k.2 = false) :
    CrashBounded k n (w.commit t ⟨d, s⟩ D' s' effects) := by
  have hcount : starts k (w.commit t ⟨d, s⟩ D' s' effects).trace = starts k w.trace := by
    unfold starts at hstarts ⊢
    rw [World.commit, List.countP_append, hstarts, Nat.zero_add]
  constructor
  · rw [hcount]
    refine h.bound.imp_right (And.imp_right (Or.imp ?_ ?_))
    · intro hdone
      rwa [World.commit, hdedup]
    · intro hmem
      exact mem_owned_set htask hmem hwindow
  · intro i task hi hkey
    rw [World.commit, hdedup]
    rcases getElem?_set_cases hi with ⟨-, rfl⟩ | ⟨-, hi⟩
    · rcases huncompleted hkey with hbefore | hnow
      · exact h.uncompleted t _ htask hbefore
      · exact hnow
    · exact h.uncompleted i task hi hkey

/-- The handler is started. -/
theorem poll_spawn {job : Job} {permits : ℕ} {command : Command} (h : CrashBounded k n w)
    (hone : OneSemaphore k.1 1 w) (hacc : w.Accounts)
    (htask : w.tasks[t]? = some ⟨d, .slot job permits .spawn⟩) :
    CrashBounded k n (w.commit t ⟨d, .slot job permits .spawn⟩ w.dispatcher
      (.slot job permits .wait) [.spawned job.envelope.eventId command]) := by
  have huncompleted : ∀ (i : ℕ) (task : Task),
      (w.tasks.set t ⟨d, .slot job permits .wait⟩)[i]? = some task →
      task.keyIn Phase.unstarted = some k →
      w.dispatcher.dedup.isCompleted k.1 k.2 = false := by
    intro i task hi hkey
    rcases getElem?_set_cases hi with ⟨-, rfl⟩ | ⟨-, hi⟩
    · cases hkey
    · exact h.uncompleted i task hi hkey
  refine ⟨?_, huncompleted⟩
  by_cases hk : (d.agent, job.envelope.eventId) = k
  · have hmine : (⟨d, .slot job permits .spawn⟩ : Task).keyIn Phase.unstarted = some k :=
      congrArg some hk
    have hrow := h.uncompleted t _ htask hmine
    -- nobody else holds the permit, so no handler of the event is in the window
    have hle : starts k w.trace ≤ n := by
      rcases h.bound with hle | ⟨-, hdone | ⟨i, task, hi, hkey⟩⟩
      · exact hle
      · rw [hrow] at hdone
        cases hdone
      · obtain rfl : i = t := hone.eq_of_keyIn hacc hi htask hkey hmine
        obtain rfl : task = ⟨d, .slot job permits .spawn⟩ :=
          Option.some_inj.mp (hi.symm.trans htask)
        cases hkey
    refine .inr ⟨?_, .inr ⟨t, ⟨d, .slot job permits .wait⟩, getElem?_set_self_of_mem htask,
      congrArg some hk⟩⟩
    simp only [starts, World.commit, List.map_cons, List.map_nil, List.singleton_append,
      List.countP_cons] at hle ⊢
    split <;> omega
  · have hcount : starts k (w.commit t ⟨d, .slot job permits .spawn⟩ w.dispatcher
        (.slot job permits .wait) [.spawned job.envelope.eventId command]).trace =
          starts k w.trace := by
      simp [starts, World.commit, Emission.started, hk]
    rw [hcount]
    refine h.bound.imp_right (And.imp_right (Or.imp_right ?_))
    intro hmem
    refine mem_owned_set htask hmem ?_
    intro hkey
    cases hkey

/-- Completion is recorded. -/
theorem poll_mark {job : Job} {permits : ℕ} {now : UInt64} (h : CrashBounded k n w)
    (hone : OneSemaphore k.1 1 w) (hacc : w.Accounts)
    (htask : w.tasks[t]? = some ⟨d, .slot job permits .mark⟩) :
    CrashBounded k n (w.commit t ⟨d, .slot job permits .mark⟩
      { w.dispatcher with
        dedup := w.dispatcher.dedup.markCompleted d.agent job.envelope.eventId now }
      (.slot job permits .remove) [.marked job.envelope.eventId true]) := by
  have hrow : (w.dispatcher.dedup.markCompleted d.agent job.envelope.eventId now).isCompleted
      k.1 k.2 = (w.dispatcher.dedup.isCompleted k.1 k.2 ||
        decide ((d.agent, job.envelope.eventId) = k)) :=
    DedupStore.isCompleted_markCompleted
  constructor
  · change starts k w.trace ≤ n ∨ (starts k w.trace ≤ n + 1 ∧
      ((w.dispatcher.dedup.markCompleted d.agent job.envelope.eventId now).isCompleted k.1 k.2 =
        true ∨ _))
    rw [hrow]
    refine h.bound.imp_right (And.imp_right ?_)
    rintro (hdone | ⟨i, task, hi, hkey⟩)
    · exact .inl (by rw [hdone, Bool.true_or])
    · by_cases hit : i = t
      · -- the dispatch in the window is the one that records the event
        subst hit
        obtain rfl : task = ⟨d, .slot job permits .mark⟩ := Option.some_inj.mp (hi.symm.trans htask)
        have hk : (d.agent, job.envelope.eventId) = k := Option.some_inj.mp hkey
        exact .inl (by rw [decide_eq_true hk, Bool.or_true])
      · refine .inr ⟨i, task, ?_, hkey⟩
        rwa [World.commit, List.getElem?_set_ne (Ne.symm hit)]
  · intro i task hi hkey
    change (w.dispatcher.dedup.markCompleted d.agent job.envelope.eventId now).isCompleted k.1 k.2 =
      false
    rcases getElem?_set_cases hi with ⟨-, rfl⟩ | ⟨hne, hi⟩
    · cases hkey
    · rw [hrow, h.uncompleted i task hi hkey, Bool.false_or, decide_eq_false_iff_not]
      intro hk
      exact hne (hone.eq_of_keyIn (q := Phase.unrecorded) hacc hi htask hkey (congrArg some hk))

/-- An access of a dispatch keeps the bound. -/
theorem poll (h : CrashBounded k n w) (hone : OneSemaphore k.1 1 w) (hacc : w.Accounts)
    (hstore : d.agent = k.1 → o.lookupFails = false ∧ o.markFails = false)
    (htask : w.tasks[t]? = some ⟨d, s⟩) (hpoll : Polls C w.dispatcher d o s D' s' effects) :
    CrashBounded k n (w.commit t ⟨d, s⟩ D' s' effects) := by
  cases hpoll with
  | spawn => exact h.poll_spawn hone hacc htask
  | mark => exact h.poll_mark hone hacc htask
  | @markFail job permits hfail =>
    have hne : (d.agent, job.envelope.eventId) ≠ k := by
      intro hk
      have hok := (hstore (congrArg Prod.fst hk)).2
      rw [hfail] at hok
      cases hok
    exact h.poll_quiet htask rfl rfl (fun hkey => absurd (Option.some_inj.mp hkey) hne) nofun
  | @miss job permits hmiss =>
    refine h.poll_quiet htask rfl rfl nofun fun hkey => .inr ?_
    obtain rfl : (d.agent, job.envelope.eventId) = k := Option.some_inj.mp hkey
    rcases hmiss with hfail | hrow
    · rw [(hstore rfl).1] at hfail
      cases hfail
    · exact hrow
  | ensure | remove | abort => exact h.poll_quiet htask rfl (by simp) nofun nofun
  | enter => exact h.poll_quiet htask rfl rfl nofun .inl
  | exit => exact h.poll_quiet htask rfl rfl id nofun
  | reject hrej =>
    refine h.poll_quiet htask ?_ rfl nofun nofun
    cases hrej <;> rfl
  | _ => exact h.poll_quiet htask rfl rfl nofun nofun

/-- A step keeps the bound, when a crash in the window is counted. -/
theorem step (h : CrashBounded k n w) (hone : OneSemaphore k.1 1 w) (hacc : w.Accounts)
    {a : Action} (hrows : w.KeepsRows k.1 a) (hstep : (dispatchSystem C).step w a = some w') :
    CrashBounded k (if w.crashesInWindow k a then n + 1 else n) w' := by
  cases a with
  | poll t o =>
    obtain ⟨d, s, D', s', effects, htask, hpoll, rfl⟩ := World.step_poll hstep
    exact h.poll hone hacc (hrows _ htask) htask hpoll
  | pollCall c =>
    obtain ⟨agent, s, D', s', -, hpoll, rfl⟩ := World.step_pollCall hstep
    have hdedup : D'.dedup = w.dispatcher.dedup := hpoll.dedup_eq
    change CrashBounded k n _
    constructor
    · simpa only [hdedup] using h.bound
    · simpa only [hdedup] using h.uncompleted
  | deliver d =>
    cases hstep
    have howned : Owned (Task.keyIn Phase.unrecorded) (w.tasks ++ [⟨d, .received⟩]) =
        Owned (Task.keyIn Phase.unrecorded) w.tasks := owned_append rfl
    change CrashBounded k n _
    constructor
    · simpa only [howned] using h.bound
    · intro i task hi hkey
      rcases getElem?_append_cases hi with ⟨-, rfl⟩ | hi
      · cases hkey
      · exact h.uncompleted i task hi hkey
  | purge now ttl =>
    cases hstep
    have hkeep : (w.dispatcher.dedup.purgeExpired now ttl).1.isCompleted k.1 k.2 =
        w.dispatcher.dedup.isCompleted k.1 k.2 := DedupStore.isCompleted_purgeExpired hrows
    change CrashBounded k n _
    constructor
    · simpa only [hkeep] using h.bound
    · simpa only [hkeep] using h.uncompleted
  | restart registry now ttl =>
    cases hstep
    have hkeep : (w.dispatcher.dedup.purgeExpired now ttl).1.isCompleted k.1 k.2 =
        w.dispatcher.dedup.isCompleted k.1 k.2 := DedupStore.isCompleted_purgeExpired hrows
    refine ⟨?_, fun i task hi => by simp at hi⟩
    change starts k w.trace ≤ _ ∨ _
    rcases h.bound with hle | ⟨hle, hdone | ⟨i, task, hi, hkey⟩⟩
    · refine .inl (hle.trans ?_)
      split <;> omega
    · refine .inr ⟨hle.trans ?_, .inl (hkeep.trans hdone)⟩
      split <;> omega
    · -- the process was lost with the handler in the window
      have hcrash : w.crashesInWindow k (.restart registry now ttl) = true :=
        List.any_eq_true.mpr ⟨task, List.mem_of_getElem? hi, beq_iff_eq.mpr hkey⟩
      rw [if_pos hcrash]
      exact .inl hle
  | _ =>
    cases hstep
    exact ⟨h.bound, h.uncompleted⟩

end CrashBounded

/-- For an agent with the limit 1 whose registration stays as it is, and a store that does not fail
and loses no row of the agent, the handler is started for an event at most once more than the daemon
crashed with the handler started and not recorded, over any number of processes and
redeliveries. -/
theorem starts_le_crashes {registry : Registry} {dedup : DedupStore}
    (hserial : registry.Limits k.1 1)
    (hrun : ((dispatchSystem C).counting (World.crashesInWindow k)).Run
      (fun x a => x.1.KeepsRegistration k.1 a ∧ x.1.KeepsRows k.1 a)
      (.start registry dedup, 0) (w, n)) : starts k w.trace ≤ 1 + n := by
  have hinv := hrun.invariant
    (I := fun x => OneSemaphore k.1 1 x.1 ∧ x.1.Accounts ∧ CrashBounded k x.2 x.1)
    ⟨.start hserial dedup, .start registry dedup, .start registry dedup k⟩ ?_
  · exact hinv.2.2.starts_le
  · rintro x a y ⟨hone, hacc, hbounded⟩ ⟨hkeeps, hrows⟩ hstep
    obtain ⟨hstep, hcount⟩ := step_counting hstep
    refine ⟨hone.step_of_keeps hkeeps hstep, hacc.step hstep, ?_⟩
    rw [hcount]
    exact hbounded.step hone hacc hrows hstep

/-- The daemon crashes while the handler runs, and the redelivered event is handled again; then it
crashes between the record and the ack, and the event that comes a third time is acknowledged. -/
def Sample.crashTwice : List Action :=
  [.deliver (delivery "e")] ++ polls 0 6 ++ [.restart (registry config) 0 0,
    .deliver (delivery "e" 1 2)] ++ polls 0 8 ++ [.restart (registry config) 0 0,
    .deliver (delivery "e" 1 3)] ++ polls 0 6

theorem starts_le_crashes_crashTwice :
    ∃ w, ((dispatchSystem Sample.dispatcherConfig).counting
          (World.crashesInWindow (Sample.agent, "e"))).Run
        (fun x a => x.1.KeepsRegistration Sample.agent a ∧ x.1.KeepsRows Sample.agent a)
        (.start (Sample.registry Sample.config) .empty, 0) (w, 1) ∧
      starts (Sample.agent, "e") w.trace = 2 ∧ starts (Sample.agent, "e") w.trace ≤ 1 + 1 := by
  obtain ⟨⟨w, n⟩, hrun, hw⟩ := exists_run_of_exec
    ((dispatchSystem Sample.dispatcherConfig).counting
      (World.crashesInWindow (Sample.agent, "e")))
    (fun x a => x.1.KeepsRegistration Sample.agent a ∧ x.1.KeepsRows Sample.agent a)
    (.start (Sample.registry Sample.config) .empty, 0) Sample.crashTwice
    (fun x => x.2 == 1 && starts (Sample.agent, "e") x.1.trace == 2) (by decide +kernel)
  simp only [Bool.and_eq_true, beq_iff_eq] at hw
  obtain ⟨rfl, hstarts⟩ := hw
  exact ⟨w, hrun, hstarts, starts_le_crashes (k := (Sample.agent, "e")) (by decide +kernel) hrun⟩

end Agentd
