import Agentd.Dispatcher.Resolution
import Agentd.Dispatcher.Slots

/-!
# Every dispatch returns

A dispatch only ever waits for a permit.  The semaphore it waits for has at least one permit, since
every limit in use comes from a registration that passed validation (`World.Positive`), and its
permits are free or with dispatches that wait for nothing (`World.Accounts`).  So some dispatch can
go on until all have returned (`World.Sound.finished_or_polls`), whatever registrations, changes,
crashes and purges came before.

Each access brings a dispatch closer to its end, so there are finitely many
(`World.remaining`).  When none is left, nothing is left behind either: no event stays in flight,
since each one is claimed by a dispatch under way (`World.Claimed`), and every permit is free
(`World.AtRest`).
-/

namespace Agentd

open TransitionSystem TaskPool

variable {C : DispatcherConfig} {w w' : World} {D D' : Dispatcher} {d : Delivery} {o : Outcome}
  {s s' : Stage} {effects : List Effect}

/-! ## Limits are positive -/

/-- The limits in use are positive: the sizes of the semaphores, and the limits that dispatches and
calls of `available` have read and are about to create a semaphore with. -/
structure World.Positive (w : World) : Prop where
  sizes : ∀ n ∈ Semaphore.sizes w.dispatcher.semaphores, 0 < n
  tasks : ∀ task ∈ w.tasks, ∀ job, task.stage = .configured job →
    0 < job.config.maxConcurrency.toNat
  calls : ∀ call ∈ w.calls, ∀ config, call.stage = .configured config →
    0 < config.maxConcurrency.toNat

/-- A registered limit is positive. -/
theorem Registry.maxConcurrency_pos {r : Registry} {agent : AgentId} {c : AgentConfig}
    (h : r.get agent = some c) : 0 < c.maxConcurrency.toNat :=
  AgentConfig.maxConcurrency_pos (r.valid agent c h)

/-- `ensure_state` with a positive limit keeps the sizes positive. -/
theorem Dispatcher.sizes_ensureState_pos {agent : AgentId} {n : UInt32}
    (h : ∀ m ∈ Semaphore.sizes D.semaphores, 0 < m) (hn : 0 < n.toNat) :
    ∀ m ∈ Semaphore.sizes (D.ensureState agent n).1.semaphores, 0 < m := by
  intro m hm
  rcases D.ensureState_cases agent n with ⟨-, hsem⟩ | ⟨-, -, hsem⟩
  · rw [hsem] at hm
    exact h m hm
  · rw [hsem, Semaphore.sizes_append_new, List.mem_append, List.mem_singleton] at hm
    rcases hm with hm | rfl
    · exact h m hm
    · exact hn

/-- An access of a dispatch keeps the sizes positive, and a limit that it reads is positive. -/
theorem Polls.positive (hpoll : Polls C D d o s D' s' effects)
    (hsizes : ∀ m ∈ Semaphore.sizes D.semaphores, 0 < m)
    (hs : ∀ job, s = .configured job → 0 < job.config.maxConcurrency.toNat) :
    (∀ m ∈ Semaphore.sizes D'.semaphores, 0 < m) ∧
      ∀ job, s' = .configured job → 0 < job.config.maxConcurrency.toNat := by
  cases hpoll with
  | configure hd hget hen =>
    refine ⟨hsizes, fun job hjob => ?_⟩
    obtain rfl := Stage.configured.inj hjob
    exact Registry.maxConcurrency_pos hget
  | ensure => exact ⟨Dispatcher.sizes_ensureState_pos hsizes (hs _ rfl), nofun⟩
  | acquire hacq =>
    refine ⟨?_, nofun⟩
    rwa [Semaphore.sizes_tryAcquire hacq]
  | release => exact ⟨by simpa using hsizes, nofun⟩
  | remove => exact ⟨by simpa using hsizes, nofun⟩
  | abort => exact ⟨by simpa using hsizes, nofun⟩
  | _ => exact ⟨hsizes, nofun⟩

namespace World.Positive

theorem start (registry : Registry) (dedup : DedupStore) :
    (World.start registry dedup).Positive where
  sizes n hn := by simp [World.start, Semaphore.sizes] at hn
  tasks task htask := by simp [World.start] at htask
  calls call hcall := by simp [World.start] at hcall

/-- Every step keeps the limits positive. -/
theorem step (h : w.Positive) {a : Action} (hstep : (dispatchSystem C).step w a = some w') :
    w'.Positive := by
  cases a with
  | poll t o =>
    obtain ⟨d, s, D', s', effects, htask, hpoll, rfl⟩ := World.step_poll hstep
    obtain ⟨hsizes, hs'⟩ := hpoll.positive h.sizes (h.tasks _ (List.mem_of_getElem? htask))
    refine ⟨hsizes, fun task hmem => ?_, h.calls⟩
    rcases List.mem_or_eq_of_mem_set hmem with hold | rfl
    · exact h.tasks task hold
    · exact hs'
  | pollCall c =>
    obtain ⟨agent, s, D', s', hcall, hpoll, rfl⟩ := World.step_pollCall hstep
    have hold := h.calls _ (List.mem_of_getElem? hcall)
    have hset : (∀ config, s' = .configured config → 0 < config.maxConcurrency.toNat) →
        ∀ call ∈ w.calls.set c ⟨agent, s'⟩, ∀ config, call.stage = .configured config →
          0 < config.maxConcurrency.toNat := by
      intro hs' call hmem
      rcases List.mem_or_eq_of_mem_set hmem with hmem | rfl
      · exact h.calls call hmem
      · exact hs'
    cases hpoll with
    | configure hget hen =>
      refine ⟨h.sizes, h.tasks, hset fun config hconfig => ?_⟩
      obtain rfl := CallStage.configured.inj hconfig
      exact Registry.maxConcurrency_pos hget
    | ensure =>
      exact ⟨Dispatcher.sizes_ensureState_pos h.sizes (hold _ rfl), h.tasks, hset nofun⟩
    | unavailable => exact ⟨h.sizes, h.tasks, hset nofun⟩
    | count => exact ⟨h.sizes, h.tasks, hset nofun⟩
  | deliver d =>
    obtain rfl := Option.some_inj.mp hstep
    refine ⟨h.sizes, fun task hmem => ?_, h.calls⟩
    rcases List.mem_append.mp hmem with hmem | hmem
    · exact h.tasks task hmem
    · obtain rfl := List.mem_singleton.mp hmem
      exact nofun
  | call agent =>
    obtain rfl := Option.some_inj.mp hstep
    refine ⟨h.sizes, h.tasks, fun call hmem => ?_⟩
    rcases List.mem_append.mp hmem with hmem | hmem
    · exact h.calls call hmem
    · obtain rfl := List.mem_singleton.mp hmem
      exact nofun
  | restart registry now ttl =>
    obtain rfl := Option.some_inj.mp hstep
    exact ⟨by simp [Semaphore.sizes], by simp, by simp⟩
  | setRegistry | applyChanges | purge =>
    obtain rfl := Option.some_inj.mp hstep
    exact ⟨h.sizes, h.tasks, h.calls⟩

end World.Positive

/-! ## Events in flight are claimed -/

/-- Every event in flight is claimed by a dispatch. -/
def World.Claimed (w : World) : Prop := w.dispatcher.inFlight ⊆ Owned Task.claim w.tasks

namespace World.Claimed

theorem start (registry : Registry) (dedup : DedupStore) :
    (World.start registry dedup).Claimed := by
  rintro k hk
  simp [World.start, Dispatcher.inFlight, Dispatcher.inFlightIds] at hk

/-- Every step keeps the events in flight claimed. -/
theorem step (h : w.Claimed) {a : Action} (hstep : (dispatchSystem C).step w a = some w') :
    w'.Claimed := by
  cases a with
  | poll t o =>
    obtain ⟨d, s, D', s', effects, htask, hpoll, rfl⟩ := World.step_poll hstep
    change D'.inFlight ⊆ Owned Task.claim (w.tasks.set t ⟨d, s'⟩)
    rcases hpoll.claim_cases with ⟨hsame, hids⟩ | ⟨k, hnone, htake, -, hids⟩ |
      ⟨k, hclaim, hgive, hids⟩
    · rw [hids, owned_set_keep htask hsame]
      exact h
    · rw [hids, owned_set_take htask hnone htake]
      exact Set.insert_subset_insert h
    · rw [hids]
      rintro k' ⟨hk', hne⟩
      refine mem_owned_set htask (h hk') fun hmine => ?_
      exact absurd (Option.some_inj.mp (hmine.symm.trans hclaim)) hne
  | pollCall c =>
    obtain ⟨agent, s, D', s', -, hpoll, rfl⟩ := World.step_pollCall hstep
    change D'.inFlight ⊆ Owned Task.claim w.tasks
    cases hpoll with
    | ensure =>
      rw [Dispatcher.inFlight_ensureState]
      exact h
    | _ => exact h
  | deliver d =>
    obtain rfl := Option.some_inj.mp hstep
    change w.dispatcher.inFlight ⊆ Owned Task.claim (w.tasks ++ [⟨d, .received⟩])
    rw [owned_append rfl]
    exact h
  | applyChanges changes =>
    obtain rfl := Option.some_inj.mp hstep
    intro k hk
    apply h
    change k.2 ∈ (w.dispatcher.applyChanges changes).inFlightIds k.1 at hk
    rw [Dispatcher.inFlightIds_applyChanges] at hk
    split at hk
    · simp at hk
    · exact hk
  | restart registry now ttl =>
    obtain rfl := Option.some_inj.mp hstep
    intro k hk
    simp [Dispatcher.inFlight, Dispatcher.inFlightIds] at hk
  | call | setRegistry | purge =>
    obtain rfl := Option.some_inj.mp hstep
    exact h

end World.Claimed

/-! ## No deadlock -/

/-- What progress rests on, in every state that can be reached. -/
structure World.Sound (w : World) : Prop where
  accounts : w.Accounts
  separate : w.Separate
  positive : w.Positive
  claimed : w.Claimed

namespace World.Sound

theorem start (registry : Registry) (dedup : DedupStore) : (World.start registry dedup).Sound :=
  ⟨.start .., .start .., .start .., .start ..⟩

theorem step (h : w.Sound) {a : Action} (hstep : (dispatchSystem C).step w a = some w') :
    w'.Sound :=
  ⟨h.accounts.step hstep, h.separate.step hstep, h.positive.step hstep, h.claimed.step hstep⟩

/-- A semaphore that a dispatch waits for has a permit to spare, or some dispatch holds one. -/
theorem exists_permit (h : w.Sound) {t : ℕ} {job : Job} {permits : ℕ}
    (htask : w.tasks[t]? = some ⟨d, .waiting job permits⟩)
    (hfull : w.dispatcher.availablePermits permits = 0) :
    ∃ (u : ℕ) (task : Task), w.tasks[u]? = some task ∧ task.permit = some permits := by
  obtain ⟨owner, howned⟩ := h.separate
  obtain ⟨hlt, -⟩ := howned.task t _ permits htask rfl
  obtain ⟨sem, hsem⟩ : ∃ sem, w.dispatcher.semaphores[permits]? = some sem :=
    ⟨_, List.getElem?_eq_getElem hlt⟩
  have hcount := h.accounts.count permits sem hsem
  have hsize : 0 < sem.size :=
    h.positive.sizes _ (List.mem_map_of_mem (List.mem_of_getElem? hsem))
  have havail : sem.available = 0 := by
    simpa [Dispatcher.availablePermits, hsem] using hfull
  have hholders : 0 < w.tasks.countP fun task => task.permit == some permits := by
    change 0 < Semaphore.holders Task.permit w.tasks permits
    omega
  obtain ⟨task, hmem, hholds⟩ := List.countP_pos_iff.mp hholders
  obtain ⟨u, hu⟩ := List.mem_iff_getElem?.mp hmem
  exact ⟨u, task, hu, beq_iff_eq.mp hholds⟩

/-- When all dispatches have returned, the semaphore of an agent has a permit to spare. -/
theorem availablePermits_pos (h : w.Sound) (hall : ∀ task ∈ w.tasks, task.stage = .finished)
    {agent : AgentId} {permits : ℕ} (hperm : w.dispatcher.permitsOf agent = some permits) :
    0 < w.dispatcher.availablePermits permits := by
  obtain ⟨owner, howned⟩ := h.separate
  obtain ⟨hlt, -⟩ := howned.state agent permits hperm
  refine Nat.pos_of_ne_zero fun hzero => ?_
  obtain ⟨sem, hsem⟩ : ∃ sem, w.dispatcher.semaphores[permits]? = some sem :=
    ⟨_, List.getElem?_eq_getElem hlt⟩
  have hsize : 0 < sem.size :=
    h.positive.sizes _ (List.mem_map_of_mem (List.mem_of_getElem? hsem))
  have hfull : sem.available = sem.size := by
    refine h.accounts.available_eq_size hsem fun j task hj => ?_
    simp [Task.permit, hall task (List.mem_of_getElem? hj)]
  simp [Dispatcher.availablePermits, hsem] at hzero
  omega

/-- All dispatches have returned, or one can make its next access whatever its outcome. -/
theorem finished_or_polls (h : w.Sound) (C : DispatcherConfig) :
    (∀ task ∈ w.tasks, task.stage = .finished) ∨
      ∃ t, ∀ o, ((dispatchSystem C).step w (.poll t o)).isSome = true := by
  by_cases hall : ∀ task ∈ w.tasks, task.stage = .finished
  · exact .inl hall
  push Not at hall
  obtain ⟨⟨d, s⟩, hmem, hs⟩ := hall
  obtain ⟨t, ht⟩ := List.mem_iff_getElem?.mp hmem
  have hpolls : ∀ {u : ℕ} {d : Delivery} {s : Stage}, w.tasks[u]? = some ⟨d, s⟩ →
      (∀ o, (w.dispatcher.poll C d o s).isSome = true) →
        ∀ o, ((dispatchSystem C).step w (.poll u o)).isSome = true := by
    intro u d s hu hsome o
    obtain ⟨x, hx⟩ := Option.isSome_iff_exists.mp (hsome o)
    simp [dispatchSystem, World.step, hu, hx]
  right
  rcases poll_or_waits C w.dispatcher d s with hfinished | hsome | ⟨job, permits, rfl, hfull⟩
  · exact absurd hfinished hs
  · exact ⟨t, hpolls ht hsome⟩
  · obtain ⟨u, ⟨d', s'⟩, hu, hholds⟩ := h.exists_permit ht hfull
    refine ⟨u, hpolls hu fun o => ?_⟩
    -- a dispatch that holds a permit waits for nothing
    cases s' with
    | slot job' permits' phase => rfl
    | _ => cases hholds

end World.Sound

/-! ## At rest -/

/-- All dispatches have returned, no event is in flight and every permit is free. -/
structure World.AtRest (w : World) : Prop where
  returned : ∀ task ∈ w.tasks, task.stage = .finished
  inFlight : ∀ agent, w.dispatcher.inFlightIds agent = ∅
  permits : ∀ sem ∈ w.dispatcher.semaphores, sem.available = sem.size

/-- When all dispatches have returned, they have left nothing behind. -/
theorem World.Sound.atRest (h : w.Sound) (hall : ∀ task ∈ w.tasks, task.stage = .finished) :
    w.AtRest := by
  have hnone : ∀ (i : ℕ) (task : Task), w.tasks[i]? = some task → task.stage = .finished :=
    fun i task hi => hall task (List.mem_of_getElem? hi)
  refine ⟨hall, fun agent => ?_, fun sem hmem => ?_⟩
  · refine Finset.eq_empty_iff_forall_notMem.mpr fun event hevent => ?_
    have hin : (agent, event) ∈ w.dispatcher.inFlight := hevent
    obtain ⟨i, task, hi, hclaim⟩ := h.claimed hin
    simp [Task.claim, Task.keyIn, hnone i task hi] at hclaim
  · obtain ⟨i, hi⟩ := List.mem_iff_getElem?.mp hmem
    refine h.accounts.available_eq_size hi fun j task hj => ?_
    simp [Task.permit, hnone j task hj]

/-- The action is an access of a dispatch. -/
def Action.IsPoll : Action → Prop
  | .poll .. => True
  | _ => False

/-- How many accesses the dispatches make at most before all of them have returned. -/
def World.remaining (w : World) : ℕ := (w.tasks.map fun task => task.stage.remaining).sum

/-- An access of a dispatch lowers the number of accesses that remain. -/
theorem World.remaining_lt {a : Action} (ha : a.IsPoll)
    (hstep : (dispatchSystem C).step w a = some w') : w'.remaining < w.remaining := by
  cases a with
  | poll t o =>
    obtain ⟨d, s, D', s', effects, htask, hpoll, rfl⟩ := World.step_poll hstep
    have hlt := hpoll.remaining_lt
    have hsum := sum_map_set (fun task : Task => task.stage.remaining) (y := ⟨d, s'⟩) htask
    unfold World.remaining World.commit
    dsimp only at hsum ⊢
    omega
  | _ => exact ha.elim

/-- The dispatches can be run until all have returned, also with accesses of a certain kind only,
and what every such access keeps on the way is true then. -/
theorem World.Sound.exists_atRest (h : w.Sound) {P : Action → Prop}
    (hpoll : ∀ a, P a → a.IsPoll) (hP : ∀ t, P (.poll t {})) {I : World → Prop} (hw : I w)
    (hstep : ∀ v a v', v.Sound → I v → P a → (dispatchSystem C).step v a = some v' → I v') :
    ∃ w', (dispatchSystem C).Run (fun _ a => P a) w w' ∧ w'.Sound ∧ I w' ∧ w'.AtRest := by
  obtain ⟨w', hpolls, ⟨hsound, hI⟩, hhalted⟩ :=
    exists_halted (I := fun v => v.Sound ∧ I v) (fun _ a => P a) World.remaining ⟨h, hw⟩
      fun v a v' hv ha hvv' =>
        ⟨⟨hv.1.step hvv', hstep v a v' hv.1 hv.2 ha hvv'⟩, World.remaining_lt (hpoll a ha) hvv'⟩
  refine ⟨w', hpolls, hsound, hI, ?_⟩
  rcases hsound.finished_or_polls C with hall | ⟨t, hsome⟩
  · exact hsound.atRest hall
  · have hnone := hhalted (.poll t {}) (hP t)
    simpa [hnone] using hsome {}

/-- From any state that the dispatcher can be in, whatever came before: the dispatches make at most
`remaining` accesses before all of them have returned; as long as one has not, some dispatch can
make its next access, whatever its outcome; and when all have, nothing is left in flight and every
permit is free.  A handler is taken to be able to exit at any time: the access with which a dispatch
waits for it is one of those that can be made. -/
theorem dispatches_come_to_rest {registry : Registry} {dedup : DedupStore}
    (hrun : (dispatchSystem C).Run (fun _ _ => True) (.start registry dedup) w) :
    (∀ w' n,
      ((dispatchSystem C).counting fun _ _ => true).Run (fun _ a => a.IsPoll) (w, 0) (w', n) →
        n ≤ w.remaining ∧
          (w'.AtRest ∨ ∃ t, ∀ o, ((dispatchSystem C).step w' (.poll t o)).isSome = true)) ∧
    ∃ w', (dispatchSystem C).Run (fun _ a => a.IsPoll) w w' ∧ w'.AtRest := by
  have hsound : w.Sound :=
    hrun.invariant (.start registry dedup) fun _ _ _ h _ hstep => h.step hstep
  refine ⟨fun w' n hpolls => ?_, ?_⟩
  · obtain ⟨hsound', hcount⟩ : w'.Sound ∧ n + w'.remaining ≤ 0 + w.remaining := by
      refine hpolls.count_add_rank_le (I := World.Sound) World.remaining hsound ?_
      intro z a v hv ha hstep
      refine ⟨hv.step hstep, ?_⟩
      rw [if_pos rfl]
      exact World.remaining_lt ha hstep
    exact ⟨by omega, (hsound'.finished_or_polls C).imp_left hsound'.atRest⟩
  · obtain ⟨w', hpolls, -, -, hrest⟩ :=
      hsound.exists_atRest (C := C) (P := Action.IsPoll) (I := fun _ => True) (fun _ ha => ha)
        (fun _ => trivial) trivial fun _ _ _ _ _ _ _ => trivial
    exact ⟨w', hpolls, hrest⟩

/-- The handler of one dispatch is running, and another dispatch of the agent waits for its
permit. -/
def Sample.waitsForPermit : List Action :=
  [.deliver (delivery "e"), .deliver (delivery "f" 2)] ++ polls 0 6 ++ polls 1 2

theorem dispatches_come_to_rest_waitsForPermit :
    ∃ w w', (dispatchSystem Sample.dispatcherConfig).Run (fun _ _ => True)
        (.start (Sample.registry Sample.config) .empty) w ∧
      ((dispatchSystem Sample.dispatcherConfig).step w (.poll 1 {})).isNone = true ∧
      (dispatchSystem Sample.dispatcherConfig).Run (fun _ a => a.IsPoll) w w' ∧ w'.AtRest := by
  obtain ⟨w, hrun, hblocked⟩ := exists_run_of_exec (dispatchSystem Sample.dispatcherConfig)
    (fun _ _ => True) (.start (Sample.registry Sample.config) .empty) Sample.waitsForPermit
    (fun w => w.tasks.length == 2 &&
      ((dispatchSystem Sample.dispatcherConfig).step w (.poll 1 {})).isNone) (by decide +kernel)
  obtain ⟨-, w', hpolls, hrest⟩ := dispatches_come_to_rest hrun
  exact ⟨w, w', hrun, (Bool.and_eq_true_iff.mp hblocked).2, hpolls, hrest⟩

end Agentd
