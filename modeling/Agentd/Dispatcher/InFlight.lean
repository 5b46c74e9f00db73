import Agentd.Dispatcher.Steps

/-!
# In-flight ids and executions

Two questions about the handlers started for one event of one agent: can two of them run at the
same time, and can more than one be started?

The invariant behind both is `ClaimsAgree`: the in-flight ids are exactly the events that some
dispatch claims, and no event is claimed twice.  A poll keeps it, since the check and the insertion
are one access.  `apply_changes` breaks it when it discards ids whose dispatches go on; under the
guard `DrainedApply` it does not, and then no two handlers of an event overlap.

At most one start needs more.  Between the mark of an event and the removal of its id nothing is
wrong, but a dispatch that looked the event up before the mark and checks the in-flight ids after
the removal passes both tests.  `ChecksUncompleted` excludes exactly that access.
-/

namespace Agentd

open TransitionSystem TaskPool

variable {C : DispatcherConfig} {w w' : World}

/-! ## Claims and in-flight ids -/

/-- Every event is claimed by at most one dispatch, and the claimed events are those in flight. -/
structure ClaimsAgree (w : World) : Prop where
  /-- No event is claimed twice. -/
  exclusive : Exclusive Task.claim w.tasks
  /-- The in-flight ids are the claimed events. -/
  owned : Owned Task.claim w.tasks = w.dispatcher.inFlight

/-- The access does not apply changes to an agent with in-flight ids, and is not a crash. -/
def World.DrainedApply (w : World) : Action → Prop
  | .applyChanges changes => ∀ ch ∈ changes, w.dispatcher.inFlightIds ch.agentId = ∅
  | .restart .. => False
  | _ => True

instance (w : World) : DecidablePred w.DrainedApply
  | .applyChanges changes =>
    inferInstanceAs (Decidable (∀ ch ∈ changes, w.dispatcher.inFlightIds ch.agentId = ∅))
  | .restart .. => inferInstanceAs (Decidable False)
  | .deliver _ | .poll .. | .call _ | .pollCall _ | .setRegistry _ | .purge .. =>
    inferInstanceAs (Decidable True)

namespace ClaimsAgree

theorem start (registry : Registry) (dedup : DedupStore) :
    ClaimsAgree (.start registry dedup) := by
  refine ⟨exclusive_nil, ?_⟩
  ext k
  simp [World.start, Dispatcher.inFlight, Dispatcher.inFlightIds]

/-- An access of a dispatch keeps the claims in agreement with the in-flight ids. -/
theorem poll (h : ClaimsAgree w) {t : ℕ} {d : Delivery} {o : Outcome} {D' : Dispatcher}
    {s s' : Stage} {effects : List Effect} (htask : w.tasks[t]? = some ⟨d, s⟩)
    (hpoll : Polls C w.dispatcher d o s D' s' effects) :
    ClaimsAgree (w.commit t ⟨d, s⟩ D' s' effects) := by
  rcases hpoll.claim_cases with ⟨hkeep, hids⟩ | ⟨k, hnone, htake, hk, hids⟩ |
    ⟨k, hclaim, hgive, hids⟩
  · refine ⟨h.exclusive.set_keep htask hkeep, ?_⟩
    exact (owned_set_keep htask hkeep).trans (h.owned.trans hids.symm)
  · refine ⟨h.exclusive.set_take htake (h.owned ▸ hk), ?_⟩
    exact (owned_set_take htask hnone htake).trans (by rw [h.owned, ← hids]; rfl)
  · refine ⟨h.exclusive.set_give hgive, ?_⟩
    exact (owned_set_give h.exclusive htask hclaim hgive).trans (by rw [h.owned, ← hids]; rfl)

/-- A change of the dispatcher that keeps the in-flight ids keeps the agreement. -/
theorem of_inFlight_eq (h : ClaimsAgree w) (htasks : w'.tasks = w.tasks)
    (hids : w'.dispatcher.inFlight = w.dispatcher.inFlight) : ClaimsAgree w' :=
  ⟨htasks ▸ h.exclusive, by rw [htasks, h.owned, hids]⟩

/-- Changes applied to agents without in-flight ids discard no id. -/
theorem inFlight_applyChanges {D : Dispatcher} {changes : List Change}
    (h : ∀ ch ∈ changes, D.inFlightIds ch.agentId = ∅) :
    (D.applyChanges changes).inFlight = D.inFlight := by
  ext ⟨agent, event⟩
  simp only [Dispatcher.inFlight, Dispatcher.inFlightIds_applyChanges, Set.mem_ofPred_eq]
  split
  · rename_i hmem
    obtain ⟨ch, hch, rfl⟩ := List.mem_map.mp hmem
    rw [h ch hch]
  · rfl

/-- A step that discards no in-flight id keeps the agreement. -/
theorem step (h : ClaimsAgree w) {a : Action} (hok : w.DrainedApply a)
    (hstep : (dispatchSystem C).step w a = some w') : ClaimsAgree w' := by
  cases a with
  | poll t o =>
    obtain ⟨d, s, D', s', effects, htask, hpoll, rfl⟩ := World.step_poll hstep
    exact h.poll htask hpoll
  | pollCall c =>
    obtain ⟨agent, s, D', s', -, hpoll, rfl⟩ := World.step_pollCall hstep
    cases hpoll with
    | ensure => exact h.of_inFlight_eq rfl (Dispatcher.inFlight_ensureState ..)
    | _ => exact h.of_inFlight_eq rfl rfl
  | deliver d =>
    cases hstep
    exact ⟨h.exclusive.append rfl, (owned_append rfl).trans h.owned⟩
  | applyChanges changes =>
    cases hstep
    exact h.of_inFlight_eq rfl (inFlight_applyChanges hok)
  | restart => exact hok.elim
  | _ =>
    cases hstep
    exact h.of_inFlight_eq rfl rfl

end ClaimsAgree

/-! ## No overlapping executions -/

/-- A run without a crash. -/
def Action.OneLifetime : Action → Prop
  | .restart .. => False
  | _ => True

instance : DecidablePred Action.OneLifetime
  | .restart .. => inferInstanceAs (Decidable False)
  | .deliver _ | .poll .. | .call _ | .pollCall _ | .setRegistry _ | .applyChanges _
  | .purge .. => inferInstanceAs (Decidable True)

/-- When changes are applied only to agents without in-flight ids, no two handlers of one event
run at the same time. -/
theorem running_exclusive {registry : Registry} {dedup : DedupStore}
    (hrun : (dispatchSystem C).Run World.DrainedApply (.start registry dedup) w) :
    Exclusive Task.running w.tasks := by
  have hagree : ClaimsAgree w :=
    hrun.invariant (ClaimsAgree.start registry dedup) fun _ _ _ h hok hstep => h.step hok hstep
  intro t t' task task' k ht ht' hk hk'
  exact hagree.exclusive t t' task task' k ht ht' (Task.claim_of_running hk)
    (Task.claim_of_running hk')

/-- Changes are applied to a drained agent, then a handler starts and a second copy of its event
is dropped. -/
def Sample.drainedUpdate : List Action :=
  [.deliver (delivery "e")] ++ polls 0 2 ++ [.applyChanges [.updated (config 2)]] ++ polls 0 4 ++
    [.deliver (delivery "e" 1 2)] ++ polls 1 5

theorem running_exclusive_drainedUpdate :
    ∃ w, (dispatchSystem Sample.dispatcherConfig).Run World.DrainedApply
        (.start (Sample.registry (Sample.config 2)) .empty) w ∧
      (w.tasks[0]?.bind Task.running).isSome = true ∧ Exclusive Task.running w.tasks := by
  obtain ⟨w, hrun, hw⟩ := exists_run_of_exec (dispatchSystem Sample.dispatcherConfig)
    World.DrainedApply (.start (Sample.registry (Sample.config 2)) .empty) Sample.drainedUpdate
    (fun w => (w.tasks[0]?.bind Task.running).isSome) (by decide +kernel)
  exact ⟨w, hrun, hw, running_exclusive hrun⟩

/-- The handler is swapped while an event is handled, and the event is redelivered. -/
def Sample.updateWhileRunning : List Action :=
  [.deliver (delivery "e")] ++ polls 0 6 ++
    [.setRegistry (registry (config 1 true)), .applyChanges [.updated (config 1 true)],
      .deliver (delivery "e" 1 2)] ++ polls 1 6

/-- An update discards the in-flight id of a running handler, so that a redelivery of its event
starts a second one. -/
theorem handlers_overlap_after_update :
    ¬∀ (C : DispatcherConfig) (registry : Registry) (dedup : DedupStore) (w : World),
      (dispatchSystem C).Run (fun _ a => a.OneLifetime) (.start registry dedup) w →
        Exclusive Task.running w.tasks := by
  intro h
  obtain ⟨w, hrun, hw⟩ := exists_run_of_exec (dispatchSystem Sample.dispatcherConfig)
    (fun _ a => a.OneLifetime) (.start (Sample.registry Sample.config) .empty)
    Sample.updateWhileRunning (fun w => w.tasks.map Task.running ==
      [some (Sample.agent, "e"), some (Sample.agent, "e")]) (by decide +kernel)
  have hmap := beq_iff_eq.mp hw
  obtain ⟨task, task', htasks⟩ : ∃ task task', w.tasks = [task, task'] :=
    List.length_eq_two.mp (by simpa using congrArg List.length hmap)
  obtain ⟨hk, hk'⟩ : task.running = some (Sample.agent, "e") ∧
      task'.running = some (Sample.agent, "e") := by
    simpa [htasks] using hmap
  have := h _ _ _ w hrun 0 1 task task' _ (by simp [htasks]) (by simp [htasks]) hk hk'
  cases this

/-! ## At most one start -/

/-- How many handlers were started for the event. -/
def starts (k : EventKey) (trace : List Emission) : ℕ :=
  trace.countP fun em => em.started == some k

/-- No store error, no purge, no registration change and no crash. -/
def Action.Undisturbed : Action → Prop
  | .deliver _ | .call _ | .pollCall _ => True
  | .poll _ o => o.lookupFails = false ∧ o.markFails = false
  | _ => False

instance : DecidablePred Action.Undisturbed
  | .poll _ o => inferInstanceAs (Decidable (o.lookupFails = false ∧ o.markFails = false))
  | .deliver _ | .call _ | .pollCall _ => inferInstanceAs (Decidable True)
  | .setRegistry _ | .applyChanges _ | .purge .. | .restart .. =>
    inferInstanceAs (Decidable False)

/-- The access is not an in-flight check of an event that is already recorded as completed. -/
def World.ChecksUncompleted (w : World) : Action → Prop
  | .poll t _ => ∀ k ∈ w.tasks[t]?.bind (Task.keyIn (· == .check)),
      w.dispatcher.dedup.isCompleted k.1 k.2 = false
  | _ => True

instance (w : World) : DecidablePred w.ChecksUncompleted
  | .poll t _ => inferInstanceAs (Decidable (∀ k ∈ w.tasks[t]?.bind (Task.keyIn (· == .check)),
      w.dispatcher.dedup.isCompleted k.1 k.2 = false))
  | .deliver _ | .call _ | .pollCall _ | .setRegistry _ | .applyChanges _ | .purge ..
  | .restart .. => inferInstanceAs (Decidable True)

/-- The phases of a dispatch that has started its handler and not yet recorded completion. -/
def Phase.unrecorded : Phase → Bool
  | .wait | .mark => true
  | _ => false

theorem Task.claim_of_unrecorded {task : Task} {k : EventKey}
    (h : task.keyIn Phase.unrecorded = some k) : task.claim = some k :=
  Task.keyIn_mono (fun p hp => by cases p <;> first | rfl | cases hp) h

theorem Task.claim_of_spawning {task : Task} {k : EventKey}
    (h : task.keyIn (· == .spawn) = some k) : task.claim = some k :=
  Task.keyIn_mono (fun p hp => by cases p <;> first | rfl | cases hp) h

/-- What holds while no event is started twice. -/
structure StartedOnce (w : World) : Prop where
  /-- Claims agree with the in-flight ids. -/
  claims : ClaimsAgree w
  /-- An event whose handler was started is recorded, or the dispatch that started it has not yet
  come to record it. -/
  covered : ∀ k, 0 < starts k w.trace → w.dispatcher.dedup.isCompleted k.1 k.2 = true ∨
    k ∈ Owned (Task.keyIn Phase.unrecorded) w.tasks
  /-- A dispatch that is about to start a handler is the first to do so. -/
  first : ∀ (t : ℕ) (task : Task) (k : EventKey), w.tasks[t]? = some task →
    task.keyIn (· == .spawn) = some k → starts k w.trace = 0
  /-- No event was started twice. -/
  once : ∀ k, starts k w.trace ≤ 1

namespace StartedOnce

theorem start (registry : Registry) (dedup : DedupStore) :
    StartedOnce (.start registry dedup) where
  claims := ClaimsAgree.start registry dedup
  covered := by
    intro k hk
    simp [World.start, starts] at hk
  first := by
    intro t task k ht
    simp [World.start] at ht
  once := by
    intro k
    simp [World.start, starts]

variable {t : ℕ} {d : Delivery} {s s' : Stage} {o : Outcome} {D' : Dispatcher}
  {effects : List Effect} {k : EventKey}

/-- An event that is neither recorded nor in flight was never started. -/
theorem starts_eq_zero (h : StartedOnce w)
    (hrow : w.dispatcher.dedup.isCompleted k.1 k.2 = false) (hids : k ∉ w.dispatcher.inFlight) :
    starts k w.trace = 0 := by
  by_contra hne
  rcases h.covered k (Nat.pos_of_ne_zero hne) with hdone | ⟨t, task, ht, hk⟩
  · simp [hrow] at hdone
  · refine hids (h.claims.owned ▸ ⟨t, task, ht, ?_⟩)
    exact Task.claim_of_unrecorded hk

/-- An access that starts no handler. -/
theorem poll_of_not_started (h : StartedOnce w) (htask : w.tasks[t]? = some ⟨d, s⟩)
    (hpoll : Polls C w.dispatcher d o s D' s' effects)
    (hquiet : ∀ k, starts k (effects.map fun effect => ⟨t, d, effect⟩) = 0)
    (hrow : ∀ k : EventKey, w.dispatcher.dedup.isCompleted k.1 k.2 = true →
      D'.dedup.isCompleted k.1 k.2 = true)
    (hcovered : ∀ k, (⟨d, s⟩ : Task).keyIn Phase.unrecorded = some k →
      D'.dedup.isCompleted k.1 k.2 = true ∨ (⟨d, s'⟩ : Task).keyIn Phase.unrecorded = some k)
    (hfirst : ∀ k, (⟨d, s'⟩ : Task).keyIn (· == .spawn) = some k → starts k w.trace = 0) :
    StartedOnce (w.commit t ⟨d, s⟩ D' s' effects) := by
  have hstarts : ∀ k, starts k (w.commit t ⟨d, s⟩ D' s' effects).trace = starts k w.trace := by
    intro k
    have := hquiet k
    simp only [starts, World.commit, List.countP_append] at this ⊢
    omega
  refine ⟨h.claims.poll htask hpoll, fun k hk => ?_, fun i x k hi hx => ?_, fun k => ?_⟩
  · rw [hstarts] at hk
    rcases h.covered k hk with hdone | ⟨i, x, hi, hx⟩
    · exact .inl (hrow k hdone)
    by_cases hit : i = t
    · subst hit
      obtain rfl : x = ⟨d, s⟩ := Option.some_inj.mp (hi.symm.trans htask)
      rcases hcovered k hx with hdone | hy
      · exact .inl hdone
      · exact .inr ⟨i, _, getElem?_set_self_of_mem htask, hy⟩
    · refine .inr ⟨i, x, ?_, hx⟩
      simpa [World.commit, List.getElem?_set_ne (Ne.symm hit)] using hi
  · rw [hstarts]
    rcases getElem?_set_cases hi with ⟨rfl, rfl⟩ | ⟨-, hi⟩
    · exact hfirst k hx
    · exact h.first i x k hi hx
  · rw [hstarts]
    exact h.once k

/-- The access that starts a handler. -/
theorem poll_spawn {job : Job} {permits : ℕ} {command : Command} (h : StartedOnce w)
    (htask : w.tasks[t]? = some ⟨d, .slot job permits .spawn⟩)
    (hclaims : ClaimsAgree (w.commit t ⟨d, .slot job permits .spawn⟩ w.dispatcher
      (.slot job permits .wait) [.spawned job.envelope.eventId command])) :
    StartedOnce (w.commit t ⟨d, .slot job permits .spawn⟩ w.dispatcher
      (.slot job permits .wait) [.spawned job.envelope.eventId command]) := by
  have hfirst := h.first t _ _ htask rfl
  have hstarts : ∀ k, starts k (w.commit t ⟨d, .slot job permits .spawn⟩ w.dispatcher
      (.slot job permits .wait) [.spawned job.envelope.eventId command]).trace =
      starts k w.trace + if (d.agent, job.envelope.eventId) = k then 1 else 0 := by
    intro k
    simp [starts, World.commit, List.countP_cons, Emission.started]
  refine ⟨hclaims, fun k hk => ?_, fun i x k hi hx => ?_, fun k => ?_⟩
  · rw [hstarts] at hk
    by_cases heq : (d.agent, job.envelope.eventId) = k
    · exact .inr ⟨t, _, getElem?_set_self_of_mem htask, congrArg some heq⟩
    rw [if_neg heq, add_zero] at hk
    refine (h.covered k hk).imp_right ?_
    rintro ⟨i, x, hi, hx⟩
    have hit : i ≠ t := by
      rintro rfl
      obtain rfl : x = _ := Option.some_inj.mp (hi.symm.trans htask)
      cases hx
    refine ⟨i, x, ?_, hx⟩
    simpa [World.commit, List.getElem?_set_ne hit.symm] using hi
  · rw [hstarts]
    rcases getElem?_set_cases hi with ⟨rfl, rfl⟩ | ⟨hit, hi⟩
    · cases hx
    -- no other dispatch is about to start the event, since this one claims it
    have hne : (d.agent, job.envelope.eventId) ≠ k := by
      rintro rfl
      exact hit (h.claims.exclusive i t x _ _ hi htask (Task.claim_of_spawning hx) rfl)
    rw [if_neg hne, add_zero]
    exact h.first i x k hi hx
  · rw [hstarts]
    by_cases heq : (d.agent, job.envelope.eventId) = k
    · rw [if_pos heq, ← heq, hfirst]
    · rw [if_neg heq, add_zero]
      exact h.once k

/-- An access of a dispatch starts no event a second time, unless it is an in-flight check of a
recorded event. -/
theorem poll (h : StartedOnce w) (hmark : o.markFails = false)
    (hcheck : w.ChecksUncompleted (.poll t o)) (htask : w.tasks[t]? = some ⟨d, s⟩)
    (hpoll : Polls C w.dispatcher d o s D' s' effects) :
    StartedOnce (w.commit t ⟨d, s⟩ D' s' effects) := by
  have hpoll' := hpoll
  cases hpoll with
  | spawn _ => exact h.poll_spawn htask (h.claims.poll htask hpoll')
  | @enter job permits hids =>
    have hrow : w.dispatcher.dedup.isCompleted d.agent job.envelope.eventId = false :=
      hcheck _ (by rw [htask]; rfl)
    refine h.poll_of_not_started htask hpoll' (fun _ => rfl) (fun _ hk => hk) nofun ?_
    intro k hk
    obtain rfl : (d.agent, job.envelope.eventId) = k := Option.some_inj.mp hk
    exact h.starts_eq_zero hrow hids
  | @mark job permits _ =>
    refine h.poll_of_not_started htask hpoll' (fun _ => rfl) (fun k hk => ?_) (fun k hk => ?_)
      nofun
    · simp [DedupStore.isCompleted_markCompleted, hk]
    · obtain rfl : (d.agent, job.envelope.eventId) = k := Option.some_inj.mp hk
      simp [DedupStore.isCompleted_markCompleted]
  | markFail hfail => simp [hmark] at hfail
  | exit =>
    exact h.poll_of_not_started htask hpoll' (fun _ => rfl) (fun _ hk => hk)
      (fun _ hk => .inr hk) nofun
  | reject hrej =>
    refine h.poll_of_not_started htask hpoll' (fun _ => ?_) (fun _ hk => hk) nofun nofun
    cases hrej <;> rfl
  | _ => exact h.poll_of_not_started htask hpoll' (fun _ => rfl) (by simp) nofun nofun

/-- A step starts no event a second time, unless it is an in-flight check of a recorded event. -/
theorem step (h : StartedOnce w) {a : Action} (hok : a.Undisturbed)
    (hcheck : w.ChecksUncompleted a) (hstep : (dispatchSystem C).step w a = some w') :
    StartedOnce w' := by
  cases a with
  | poll t o =>
    obtain ⟨d, s, D', s', effects, htask, hpoll, rfl⟩ := World.step_poll hstep
    exact h.poll hok.2 hcheck htask hpoll
  | deliver d =>
    have hclaims := h.claims.step (a := .deliver d) trivial hstep
    cases hstep
    have howned : Owned (Task.keyIn Phase.unrecorded) (w.tasks ++ [⟨d, .received⟩]) =
        Owned (Task.keyIn Phase.unrecorded) w.tasks := owned_append rfl
    refine ⟨hclaims, fun k hk => ?_, fun i x k hi hx => ?_, h.once⟩
    · exact (h.covered k hk).imp_right fun hmem => howned ▸ hmem
    · rcases getElem?_append_cases hi with ⟨-, rfl⟩ | hi
      · cases hx
      · exact h.first i x k hi hx
  | call agent =>
    have hclaims := h.claims.step (a := .call agent) trivial hstep
    cases hstep
    exact ⟨hclaims, h.covered, h.first, h.once⟩
  | pollCall c =>
    have hclaims := h.claims.step (a := .pollCall c) trivial hstep
    obtain ⟨agent, s, D', s', -, hpoll, rfl⟩ := World.step_pollCall hstep
    refine ⟨hclaims, fun k hk => ?_, h.first, h.once⟩
    refine (h.covered k hk).imp_left fun hdone => ?_
    cases hpoll with
    | ensure => simpa using hdone
    | _ => exact hdone
  | _ => exact hok.elim

end StartedOnce

/-- Without store errors, purges, registration changes and crashes, a handler is started at most
once for each event of each agent, as long as no in-flight check meets a recorded event. -/
theorem starts_le_one {registry : Registry} {dedup : DedupStore}
    (hrun : (dispatchSystem C).Run (fun w a => a.Undisturbed ∧ w.ChecksUncompleted a)
      (.start registry dedup) w) (k : EventKey) : starts k w.trace ≤ 1 := by
  have hstarted : StartedOnce w :=
    hrun.invariant (StartedOnce.start registry dedup) fun _ _ _ h hok hstep =>
      h.step hok.1 hok.2 hstep
  exact hstarted.once k

/-- Two copies of an event for an agent with two slots: the second one is looked up after the
first is marked. -/
def Sample.lookupAfterMark : List Action :=
  [.deliver (delivery "e"), .deliver (delivery "e" 1 2)] ++ polls 0 8 ++ polls 1 4

theorem starts_le_one_lookupAfterMark :
    ∃ w, (dispatchSystem Sample.dispatcherConfig).Run
        (fun w a => a.Undisturbed ∧ w.ChecksUncompleted a)
        (.start (Sample.registry (Sample.config 2)) .empty) w ∧
      w.tasks.length = 2 ∧ starts (Sample.agent, "e") w.trace ≤ 1 := by
  obtain ⟨w, hrun, hw⟩ := exists_run_of_exec (dispatchSystem Sample.dispatcherConfig)
    (fun w a => a.Undisturbed ∧ w.ChecksUncompleted a)
    (.start (Sample.registry (Sample.config 2)) .empty) Sample.lookupAfterMark
    (fun w => w.tasks.length == 2) (by decide +kernel)
  exact ⟨w, hrun, beq_iff_eq.mp hw, starts_le_one hrun _⟩

/-- Two copies of an event for an agent with two slots: the second one is looked up before the
first is marked, and checks the in-flight ids after the first has removed its own. -/
def Sample.checkAfterRemove : List Action :=
  [.deliver (delivery "e"), .deliver (delivery "e" 1 2)] ++ polls 0 3 ++ polls 1 4 ++ polls 0 6 ++
    polls 1 2

/-- The two tests of a dispatch may fall on the two sides of another dispatch's mark and removal,
which starts a handler twice. -/
theorem started_twice :
    ¬∀ (C : DispatcherConfig) (registry : Registry) (dedup : DedupStore) (w : World),
      (dispatchSystem C).Run (fun _ a => a.Undisturbed) (.start registry dedup) w →
        ∀ k, starts k w.trace ≤ 1 := by
  intro h
  obtain ⟨w, hrun, hw⟩ := exists_run_of_exec (dispatchSystem Sample.dispatcherConfig)
    (fun _ a => a.Undisturbed) (.start (Sample.registry (Sample.config 2)) .empty)
    Sample.checkAfterRemove (fun w => starts (Sample.agent, "e") w.trace == 2)
    (by decide +kernel)
  have := h _ _ _ w hrun (Sample.agent, "e")
  rw [beq_iff_eq.mp hw] at this
  omega

end Agentd
