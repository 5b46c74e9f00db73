import Agentd.Dispatcher.CrashWindow
import Agentd.Dispatcher.Update

/-!
# The accounts of one agent

An agent whose registration stays as it is and to which no change is applied (`World.Spares`) never
leaks: its in-flight ids are the events that its dispatches claim, and no event is claimed twice
(`ClaimsOf`); the free permits of its semaphore and the permits its dispatches hold add up to its
limit (`available_add_holders`).  Changes of other agents do not matter.

An event that a dispatch has inserted is covered from then on: it is in flight until it is recorded,
unless the spawn or the mark fails (`Covered`).
-/

namespace Agentd

open TransitionSystem TaskPool

variable {C : DispatcherConfig} {w w' : World} {D D' : Dispatcher} {agent : AgentId}
  {t : ℕ} {d : Delivery} {o : Outcome} {s s' : Stage} {effects : List Effect}

/-! ## The claims of one agent -/

/-- The key a dispatch claims, if it is of the agent. -/
def Task.claimOf (agent : AgentId) (task : Task) : Option EventKey :=
  task.claim.filter fun k => k.1 = agent

/-- No event of the agent is claimed twice, and the claimed events are those in flight. -/
structure ClaimsOf (agent : AgentId) (w : World) : Prop where
  /-- No event is claimed twice. -/
  exclusive : Exclusive (Task.claimOf agent) w.tasks
  /-- The in-flight ids are the claimed events. -/
  owned : Owned (Task.claimOf agent) w.tasks = {k | k ∈ w.dispatcher.inFlight ∧ k.1 = agent}

namespace ClaimsOf

theorem start (registry : Registry) (dedup : DedupStore) (agent : AgentId) :
    ClaimsOf agent (.start registry dedup) := by
  refine ⟨exclusive_nil, ?_⟩
  ext k
  simp [World.start, Dispatcher.inFlight, Dispatcher.inFlightIds]

/-- An access of a dispatch keeps the claims in agreement with the in-flight ids. -/
theorem poll (h : ClaimsOf agent w) (htask : w.tasks[t]? = some ⟨d, s⟩)
    (hpoll : Polls C w.dispatcher d o s D' s' effects) :
    ClaimsOf agent (w.commit t ⟨d, s⟩ D' s' effects) := by
  have hkeep : (⟨d, s'⟩ : Task).claimOf agent = (⟨d, s⟩ : Task).claimOf agent →
      (∀ k : EventKey, k.1 = agent → (k ∈ D'.inFlight ↔ k ∈ w.dispatcher.inFlight)) →
        ClaimsOf agent (w.commit t ⟨d, s⟩ D' s' effects) := by
    intro hclaim hids
    refine ⟨h.exclusive.set_keep htask hclaim, (owned_set_keep htask hclaim).trans ?_⟩
    rw [h.owned]
    ext k
    exact and_congr_left fun hk => (hids k hk).symm
  rcases hpoll.claim_cases with ⟨hsame, hids⟩ | ⟨k, hnone, htake, hk, hids⟩ |
    ⟨k, hclaim, hgive, hids⟩
  · refine hkeep (by rw [Task.claimOf, Task.claimOf, hsame]) fun k _ => ?_
    rw [hids]
  · by_cases hag : k.1 = agent
    · have hmine : (⟨d, s'⟩ : Task).claimOf agent = some k := by simp [Task.claimOf, htake, hag]
      have hfree : k ∉ Owned (Task.claimOf agent) w.tasks := by
        rw [h.owned]
        exact fun hmem => hk hmem.1
      refine ⟨h.exclusive.set_take hmine hfree, ?_⟩
      refine (owned_set_take htask (by simp [Task.claimOf, hnone]) hmine).trans ?_
      rw [h.owned]
      ext k'
      show k' ∈ insert k {k | k ∈ w.dispatcher.inFlight ∧ k.1 = agent} ↔
        k' ∈ D'.inFlight ∧ k'.1 = agent
      rw [hids, Set.mem_insert_iff, Set.mem_insert_iff]
      constructor
      · rintro (rfl | ⟨hmem, hk'⟩)
        · exact ⟨.inl rfl, hag⟩
        · exact ⟨.inr hmem, hk'⟩
      · rintro ⟨rfl | hmem, hk'⟩
        · exact .inl rfl
        · exact .inr ⟨hmem, hk'⟩
    · refine hkeep (by simp [Task.claimOf, hnone, htake, hag]) fun k' hk' => ?_
      rw [hids, Set.mem_insert_iff]
      refine or_iff_right ?_
      rintro rfl
      exact hag hk'
  · by_cases hag : k.1 = agent
    · have hmine : (⟨d, s⟩ : Task).claimOf agent = some k := by simp [Task.claimOf, hclaim, hag]
      have hnow : (⟨d, s'⟩ : Task).claimOf agent = none := by simp [Task.claimOf, hgive]
      refine ⟨h.exclusive.set_give hnow, ?_⟩
      refine (owned_set_give h.exclusive htask hmine hnow).trans ?_
      rw [h.owned]
      ext k'
      show (k' ∈ w.dispatcher.inFlight ∧ k'.1 = agent) ∧ k' ≠ k ↔ k' ∈ D'.inFlight ∧ k'.1 = agent
      rw [hids]
      exact and_right_comm
    · have hbefore : (⟨d, s⟩ : Task).claimOf agent = none := by simp [Task.claimOf, hclaim, hag]
      have hnow : (⟨d, s'⟩ : Task).claimOf agent = none := by simp [Task.claimOf, hgive]
      refine hkeep (hnow.trans hbefore.symm) fun k' hk' => ?_
      rw [hids]
      refine and_iff_left ?_
      rintro rfl
      exact hag hk'

/-- A change of the dispatcher that keeps the in-flight ids of the agent keeps the agreement. -/
theorem of_inFlight_iff (h : ClaimsOf agent w) (htasks : w'.tasks = w.tasks)
    (hids : ∀ k : EventKey, k.1 = agent →
      (k ∈ w'.dispatcher.inFlight ↔ k ∈ w.dispatcher.inFlight)) : ClaimsOf agent w' := by
  refine ⟨htasks ▸ h.exclusive, ?_⟩
  rw [htasks, h.owned]
  ext k
  exact and_congr_left fun hk => (hids k hk).symm

/-- A step that spares the agent keeps the agreement. -/
theorem step (h : ClaimsOf agent w) {a : Action} (hok : w.Spares agent a)
    (hstep : (dispatchSystem C).step w a = some w') : ClaimsOf agent w' := by
  cases a with
  | poll t o =>
    obtain ⟨d, s, D', s', effects, htask, hpoll, rfl⟩ := World.step_poll hstep
    exact h.poll htask hpoll
  | pollCall c =>
    obtain ⟨agent', s, D', s', -, hpoll, rfl⟩ := World.step_pollCall hstep
    refine h.of_inFlight_iff rfl fun k _ => ?_
    cases hpoll with
    | ensure => rw [Dispatcher.inFlight_ensureState]
    | _ => rfl
  | deliver d =>
    cases hstep
    exact ⟨h.exclusive.append rfl, (owned_append rfl).trans h.owned⟩
  | applyChanges changes =>
    cases hstep
    refine h.of_inFlight_iff rfl fun k hk => ?_
    have hnot : k.1 ∉ changes.map Change.agentId := by
      rw [hk]
      exact hok
    show k.2 ∈ (w.dispatcher.applyChanges changes).inFlightIds k.1 ↔ _
    rw [Dispatcher.inFlightIds_applyChanges, if_neg hnot]
    rfl
  | restart => exact hok.elim
  | _ =>
    cases hstep
    exact h.of_inFlight_iff rfl fun _ _ => Iff.rfl

end ClaimsOf

/-! ## The permits of one agent -/

/-- The dispatch is of the agent and holds a permit. -/
def Task.holdsFor (agent : AgentId) (task : Task) : Bool :=
  decide (task.delivery.agent = agent) && task.permit.isSome

/-- The permits of the semaphore in the agent's state: those available and those that dispatches of
the agent hold add up to the limit. -/
theorem OneSemaphore.availablePermits_add_holders {limit : UInt32} (h : OneSemaphore agent limit w)
    (hacc : w.Accounts) (hsep : w.Separate) {p : ℕ} (hp : w.dispatcher.permitsOf agent = some p) :
    w.dispatcher.availablePermits p + w.tasks.countP (Task.holdsFor agent) = limit.toNat := by
  obtain ⟨owner, howner⟩ := hsep
  have hsize := h.sized p hp
  simp only [Semaphore.sizes, List.getElem?_map, Option.map_eq_some_iff] at hsize
  obtain ⟨sem, hsem, hsize⟩ := hsize
  -- the holders of the semaphore are the dispatches of the agent with a permit
  have hholders : w.tasks.countP (Task.holdsFor agent) =
      Semaphore.holders Task.permit w.tasks p := by
    refine List.countP_congr fun task hmem => ?_
    obtain ⟨i, hi⟩ := List.mem_iff_getElem?.mp hmem
    simp only [Task.holdsFor, Bool.and_eq_true, decide_eq_true_eq, beq_iff_eq]
    constructor
    · rintro ⟨hag, hsome⟩
      obtain ⟨q, hq⟩ := Option.isSome_iff_exists.mp hsome
      have hattached := h.attached i task q hi hag (task.semaphore_of_permit hq)
      rw [hq, ← hattached, hp]
    · intro hq
      have htask := (howner.task i task p hi (task.semaphore_of_permit hq)).2
      exact ⟨htask.symm.trans (howner.state agent p hp).2, by rw [hq]; rfl⟩
  have hcount := hacc.count p sem hsem
  rw [hholders, Dispatcher.availablePermits, hsem, ← hsize]
  exact hcount

/-- The free slots of an enabled agent and the permits that its dispatches hold add up to its
limit. -/
theorem OneSemaphore.available_add_holders {c : AgentConfig}
    (h : OneSemaphore agent c.maxConcurrency w) (hacc : w.Accounts) (hsep : w.Separate)
    (hget : w.dispatcher.registry.get agent = some c) (hen : c.enabled = true) :
    w.dispatcher.available agent + w.tasks.countP (Task.holdsFor agent) =
      c.maxConcurrency.toNat := by
  rw [Dispatcher.available_eq, hget, Option.elim_some, if_pos hen]
  cases hstate : w.dispatcher.states agent with
  | some st =>
    have hp : w.dispatcher.permitsOf agent = some st.permits := by
      simp [Dispatcher.permitsOf, hstate]
    exact h.availablePermits_add_holders hacc hsep hp
  | none =>
    -- without a state no dispatch of the agent has a semaphore
    have hnone : w.tasks.countP (Task.holdsFor agent) = 0 := by
      refine List.countP_eq_zero.mpr fun task hmem hholds => ?_
      obtain ⟨i, hi⟩ := List.mem_iff_getElem?.mp hmem
      simp only [Task.holdsFor, Bool.and_eq_true, decide_eq_true_eq] at hholds
      obtain ⟨q, hq⟩ := Option.isSome_iff_exists.mp hholds.2
      have hattached := h.attached i task q hi hholds.1 (task.semaphore_of_permit hq)
      simp [Dispatcher.permitsOf, hstate] at hattached
    rw [hnone, Option.elim_none, Nat.add_zero]

/-- A call of `available` for the agent that is about to count looks at the semaphore in the agent's
state. -/
def World.CallsAttached (agent : AgentId) (w : World) : Prop :=
  ∀ (c p : ℕ), w.calls[c]? = some ⟨agent, .counting p⟩ → w.dispatcher.permitsOf agent = some p

/-- A step that spares the agent keeps its semaphore. -/
theorem World.permitsOf_of_spares {a : Action} (hok : w.Spares agent a)
    (hstep : (dispatchSystem C).step w a = some w') {p : ℕ}
    (hp : w.dispatcher.permitsOf agent = some p) : w'.dispatcher.permitsOf agent = some p := by
  cases a with
  | poll t o =>
    obtain ⟨d, s, D', s', effects, -, hpoll, rfl⟩ := World.step_poll hstep
    exact hpoll.permitsOf_mono hp
  | pollCall c =>
    obtain ⟨agent', s, D', s', -, hpoll, rfl⟩ := World.step_pollCall hstep
    exact hpoll.permitsOf_mono hp
  | applyChanges changes =>
    cases hstep
    rw [Dispatcher.permitsOf_applyChanges, if_neg hok]
    exact hp
  | restart => exact hok.elim
  | _ =>
    cases hstep
    exact hp

/-- A step that spares the agent keeps its calls attached. -/
theorem World.CallsAttached.step (h : w.CallsAttached agent) {a : Action}
    (hok : w.Spares agent a) (hstep : (dispatchSystem C).step w a = some w') :
    w'.CallsAttached agent := by
  intro c p hc
  have hold : w.calls[c]? = some ⟨agent, .counting p⟩ → w'.dispatcher.permitsOf agent = some p :=
    fun hc => World.permitsOf_of_spares hok hstep (h c p hc)
  cases a with
  | poll t o =>
    obtain ⟨d, s, D', s', effects, -, hpoll, rfl⟩ := World.step_poll hstep
    exact hold hc
  | call agent' =>
    cases hstep
    rcases getElem?_append_cases hc with ⟨-, hnew⟩ | hc
    · cases hnew
    · exact hold hc
  | pollCall c' =>
    obtain ⟨agent', s, D', s', -, hpoll, rfl⟩ := World.step_pollCall hstep
    rcases getElem?_set_cases hc with ⟨-, hnew⟩ | ⟨-, hc⟩
    · cases hnew
      cases hpoll with
      | ensure => exact Dispatcher.permitsOf_ensureState ..
    · exact hold hc
  | restart => exact hok.elim
  | _ =>
    cases hstep
    exact hold hc

/-! ## Inserted events -/

/-- The access does not delete the row of the event. -/
def World.KeepsRow (k : EventKey) (w : World) : Action → Prop
  | .purge now ttl | .restart _ now ttl =>
    (w.dispatcher.dedup.purgeExpired now ttl).1.isCompleted k.1 k.2 =
      w.dispatcher.dedup.isCompleted k.1 k.2
  | _ => True

instance (k : EventKey) (w : World) : DecidablePred (w.KeepsRow k)
  | .purge now ttl | .restart _ now ttl => inferInstanceAs (Decidable
      ((w.dispatcher.dedup.purgeExpired now ttl).1.isCompleted k.1 k.2 =
        w.dispatcher.dedup.isCompleted k.1 k.2))
  | .deliver _ | .poll .. | .call _ | .pollCall _ | .setRegistry _ | .applyChanges _ =>
    inferInstanceAs (Decidable True)

/-- The effect says that the spawn or the mark failed. -/
def Effect.fails : Effect → Bool
  | .spawnFailed _ => true
  | .marked _ ok => !ok
  | _ => false

/-- The spawn or the mark of the dispatch `t` failed. -/
def failedBy (t : ℕ) (trace : List Emission) : Bool :=
  trace.any fun em => em.task == t && em.effect.fails

/-- The phases from the insertion of the id to the mark. -/
def Phase.unmarked : Phase → Bool
  | .spawn | .wait | .mark => true
  | _ => false

/-- The event that the dispatch `t` inserted is recorded, or the dispatch is on its way to record
it, unless its spawn or its mark failed. -/
def Covered (t : ℕ) (d : Delivery) (job : Job) (permits : ℕ) (w : World) : Prop :=
  failedBy t w.trace = true ∨ w.dispatcher.dedup.isCompleted d.agent job.envelope.eventId = true ∨
    ∃ phase, phase.unmarked = true ∧ w.tasks[t]? = some ⟨d, .slot job permits phase⟩

/-- A completed event stays completed while its row is not deleted. -/
theorem World.isCompleted_of_step {k : EventKey} {a : Action} (hok : w.KeepsRow k a)
    (hstep : (dispatchSystem C).step w a = some w')
    (h : w.dispatcher.dedup.isCompleted k.1 k.2 = true) :
    w'.dispatcher.dedup.isCompleted k.1 k.2 = true := by
  cases a with
  | poll t o =>
    obtain ⟨d, s, D', s', effects, -, hpoll, rfl⟩ := World.step_poll hstep
    show D'.dedup.isCompleted k.1 k.2 = true
    cases hpoll with
    | mark => rw [DedupStore.isCompleted_markCompleted, h, Bool.true_or]
    | ensure => rwa [Dispatcher.dedup_ensureState]
    | remove | abort => rwa [Dispatcher.dedup_removeInFlight]
    | _ => exact h
  | pollCall c =>
    obtain ⟨agent, s, D', s', -, hpoll, rfl⟩ := World.step_pollCall hstep
    show D'.dedup.isCompleted k.1 k.2 = true
    rwa [hpoll.dedup_eq]
  | purge now ttl | restart registry now ttl =>
    cases hstep
    exact hok.trans h
  | _ =>
    cases hstep
    exact h

/-- What failed stays failed. -/
theorem failedBy_append {new trace : List Emission} (h : failedBy t trace = true) :
    failedBy t (new ++ trace) = true := by
  rw [failedBy, List.any_append, Bool.or_eq_true]
  exact .inr h

namespace Covered

variable {job : Job} {permits : ℕ}

/-- The next access of a dispatch on its way to record its event. -/
theorem poll_self {phase : Phase} (hphase : phase.unmarked = true)
    (htask : w.tasks[t]? = some ⟨d, .slot job permits phase⟩)
    (hpoll : Polls C w.dispatcher d o (.slot job permits phase) D' s' effects) :
    Covered t d job permits (w.commit t ⟨d, .slot job permits phase⟩ D' s' effects) := by
  have hnext : ∀ {next : Phase}, next.unmarked = true → s' = .slot job permits next →
      Covered t d job permits (w.commit t ⟨d, .slot job permits phase⟩ D' s' effects) := by
    rintro next hunmarked rfl
    exact .inr (.inr ⟨next, hunmarked, getElem?_set_self_of_mem htask⟩)
  cases hpoll with
  | spawn => exact hnext rfl rfl
  | exit => exact hnext rfl rfl
  | spawnFail | markFail =>
    refine .inl ?_
    simp [failedBy, World.commit, Effect.fails]
  | mark =>
    refine .inr (.inl ?_)
    show (w.dispatcher.dedup.markCompleted _ _ _).isCompleted _ _ = true
    rw [DedupStore.isCompleted_markCompleted, decide_eq_true rfl, Bool.or_true]
  | hit | miss | ackHit | drop | enter | remove | ack | abort | term | release => cases hphase

/-- An inserted event stays covered while its row is not deleted and the process lives. -/
theorem step (h : Covered t d job permits w) {a : Action} (hlife : a.OneLifetime)
    (hok : w.KeepsRow (d.agent, job.envelope.eventId) a)
    (hstep : (dispatchSystem C).step w a = some w') : Covered t d job permits w' := by
  have htrace : failedBy t w.trace = true → failedBy t w'.trace = true := by
    intro hfailed
    cases a with
    | poll u o =>
      obtain ⟨d', s, D', s', effects, -, -, rfl⟩ := World.step_poll hstep
      exact failedBy_append hfailed
    | pollCall c =>
      obtain ⟨agent', s, D', s', -, -, rfl⟩ := World.step_pollCall hstep
      exact hfailed
    | _ =>
      cases hstep
      exact hfailed
  rcases h with hfailed | hdone | ⟨phase, hphase, htask⟩
  · exact .inl (htrace hfailed)
  · exact .inr (.inl (World.isCompleted_of_step hok hstep hdone))
  cases a with
  | poll u o =>
    obtain ⟨d', s, D', s', effects, htask', hpoll, rfl⟩ := World.step_poll hstep
    by_cases hu : u = t
    · subst hu
      obtain ⟨rfl, rfl⟩ : d = d' ∧ Stage.slot job permits phase = s := by
        simpa using htask.symm.trans htask'
      exact poll_self hphase htask hpoll
    · refine .inr (.inr ⟨phase, hphase, ?_⟩)
      rw [World.commit, List.getElem?_set_ne hu]
      exact htask
  | pollCall c =>
    obtain ⟨agent', s, D', s', -, -, rfl⟩ := World.step_pollCall hstep
    exact .inr (.inr ⟨phase, hphase, htask⟩)
  | deliver d' =>
    cases hstep
    exact .inr (.inr ⟨phase, hphase, getElem?_append_of_some htask⟩)
  | restart => exact hlife.elim
  | _ =>
    cases hstep
    exact .inr (.inr ⟨phase, hphase, htask⟩)

end Covered

/-! ## The accounts -/

theorem Task.claimOf_eq_some_iff {task : Task} {k : EventKey} :
    task.claimOf agent = some k ↔ task.claim = some k ∧ k.1 = agent := by
  simp [Task.claimOf, Option.filter_eq_some_iff]

/-- A step that spares the agent is not a crash. -/
theorem World.Spares.oneLifetime {a : Action} (h : w.Spares agent a) : a.OneLifetime := by
  cases a with
  | restart => exact h
  | _ => trivial

/-- What every step that spares the agent keeps of the agent's accounts. -/
structure InBalance (agent : AgentId) (c : AgentConfig) (w : World) : Prop where
  registered : w.dispatcher.registry.get agent = some c
  claims : ClaimsOf agent w
  one : OneSemaphore agent c.maxConcurrency w
  accounts : w.Accounts
  separate : w.Separate
  attached : w.CallsAttached agent

namespace InBalance

variable {c : AgentConfig}

theorem start {registry : Registry} (hget : registry.get agent = some c) (dedup : DedupStore) :
    InBalance agent c (.start registry dedup) where
  registered := hget
  claims := .start registry dedup agent
  one := by
    refine .start (fun config hconfig => ?_) dedup
    obtain rfl : c = config := Option.some_inj.mp (hget.symm.trans hconfig)
    rfl
  accounts := .start registry dedup
  separate := .start registry dedup
  attached c p hc := by simp [World.start] at hc

theorem step (h : InBalance agent c w) {a : Action} (hok : w.Spares agent a)
    (hstep : (dispatchSystem C).step w a = some w') : InBalance agent c w' where
  registered := (World.get_of_spares hok hstep).trans h.registered
  claims := h.claims.step hok hstep
  one := by
    refine h.one.step_of_keeps ?_ hstep
    cases a with
    | restart => exact hok.elim
    | _ => exact hok
  accounts := h.accounts.step hstep
  separate := h.separate.step hstep
  attached := h.attached.step hok hstep

/-- The in-flight ids of the agent are the events that its dispatches claim. -/
theorem mem_inFlightIds_iff (h : InBalance agent c w) {event : String} :
    event ∈ w.dispatcher.inFlightIds agent ↔ (agent, event) ∈ Owned Task.claim w.tasks := by
  have howned : (agent, event) ∈ Owned (Task.claimOf agent) w.tasks ↔
      (agent, event) ∈ w.dispatcher.inFlight ∧ agent = agent := by
    rw [h.claims.owned]
    rfl
  constructor
  · intro hmem
    obtain ⟨i, task, hi, hclaim⟩ := howned.mpr ⟨hmem, rfl⟩
    exact ⟨i, task, hi, (Task.claimOf_eq_some_iff.mp hclaim).1⟩
  · rintro ⟨i, task, hi, hclaim⟩
    exact (howned.mp ⟨i, task, hi, Task.claimOf_eq_some_iff.mpr ⟨hclaim, rfl⟩⟩).1

/-- A covered event of the agent is in flight or completed, unless its spawn or its mark failed. -/
theorem of_covered (h : InBalance agent c w) {job : Job} {permits : ℕ} (hag : d.agent = agent)
    (hcovered : Covered t d job permits w) :
    job.envelope.eventId ∈ w.dispatcher.inFlightIds agent ∨
      w.dispatcher.dedup.isCompleted agent job.envelope.eventId = true ∨
      failedBy t w.trace = true := by
  subst hag
  rcases hcovered with hfailed | hdone | ⟨phase, hphase, htask⟩
  · exact .inr (.inr hfailed)
  · exact .inr (.inl hdone)
  · refine .inl (h.mem_inFlightIds_iff.mpr ⟨t, _, htask, ?_⟩)
    cases phase with
    | spawn | wait | mark => rfl
    | _ => cases hphase

end InBalance

/-- An enabled agent whose registration stays as it is and to which no change is applied, in any
state that the dispatcher comes to, whatever else happens.  Its in-flight ids are the events of the
dispatches between their insertion and their removal, and no two of these have the same; its free
slots and the permits that its dispatches hold add up to its limit, and a call of `available` that
is about to count will find these slots.  From its insertion on, an event is in flight or completed
as long as its row is not deleted, unless its spawn or its mark failed.  And when no dispatch of the
agent is active, nothing is in flight and all slots are free. -/
theorem accounts_exact {registry : Registry} {dedup : DedupStore} {c : AgentConfig}
    (hget : registry.get agent = some c) (hen : c.enabled = true)
    (hrun : (dispatchSystem C).Run (fun w a => w.Spares agent a) (.start registry dedup) w) :
    (∀ event, event ∈ w.dispatcher.inFlightIds agent ↔
      (agent, event) ∈ Owned Task.claim w.tasks) ∧
    (∀ (i j : ℕ) (x y : Task) (event : String), w.tasks[i]? = some x → w.tasks[j]? = some y →
      x.claim = some (agent, event) → y.claim = some (agent, event) → i = j) ∧
    w.dispatcher.available agent + w.tasks.countP (Task.holdsFor agent) =
      c.maxConcurrency.toNat ∧
    (∀ i p : ℕ, w.calls[i]? = some ⟨agent, .counting p⟩ →
      w.dispatcher.availablePermits p = w.dispatcher.available agent) ∧
    (∀ (t : ℕ) (d : Delivery) (job : Job) (permits : ℕ),
      w.tasks[t]? = some ⟨d, .slot job permits .spawn⟩ → d.agent = agent → ∀ w',
        (dispatchSystem C).Run
          (fun v a => v.Spares agent a ∧ v.KeepsRow (agent, job.envelope.eventId) a) w w' →
        job.envelope.eventId ∈ w'.dispatcher.inFlightIds agent ∨
          w'.dispatcher.dedup.isCompleted agent job.envelope.eventId = true ∨
          failedBy t w'.trace = true) ∧
    ((∀ task ∈ w.tasks, task.delivery.agent = agent → task.stage = .finished) →
      w.dispatcher.inFlightIds agent = ∅ ∧
        w.dispatcher.available agent = c.maxConcurrency.toNat) := by
  have hbalance : InBalance agent c w :=
    hrun.invariant (.start hget dedup) fun _ _ _ h hok hstep => h.step hok hstep
  have hslots : w.dispatcher.available agent + w.tasks.countP (Task.holdsFor agent) =
      c.maxConcurrency.toNat :=
    hbalance.one.available_add_holders hbalance.accounts hbalance.separate hbalance.registered hen
  refine ⟨fun event => hbalance.mem_inFlightIds_iff, ?_, hslots, ?_, ?_, ?_⟩
  · intro i j x y event hi hj hx hy
    exact hbalance.claims.exclusive i j x y (agent, event) hi hj
      (Task.claimOf_eq_some_iff.mpr ⟨hx, rfl⟩) (Task.claimOf_eq_some_iff.mpr ⟨hy, rfl⟩)
  · intro i p hi
    have hcounted := hbalance.one.availablePermits_add_holders hbalance.accounts hbalance.separate
      (hbalance.attached i p hi)
    omega
  · intro t d job permits htask hag w' hrest
    have hboth : InBalance agent c w' ∧ Covered t d job permits w' := by
      refine hrest.invariant (I := fun v => InBalance agent c v ∧ Covered t d job permits v)
        ⟨hbalance, .inr (.inr ⟨.spawn, rfl, htask⟩)⟩ ?_
      rintro x a y ⟨hbalance, hcovered⟩ ⟨hspares, hrow⟩ hstep
      rw [← hag] at hrow
      exact ⟨hbalance.step hspares hstep, hcovered.step hspares.oneLifetime hrow hstep⟩
    exact hboth.1.of_covered hag hboth.2
  · intro hdone
    constructor
    · refine Finset.eq_empty_of_forall_notMem fun event hmem => ?_
      obtain ⟨i, task, hi, hclaim⟩ := hbalance.mem_inFlightIds_iff.mp hmem
      have hag : task.delivery.agent = agent := (Task.permit_of_keyIn hclaim).1
      have hfin := hdone task (List.mem_of_getElem? hi) hag
      simp [Task.claim, Task.keyIn, hfin] at hclaim
    · have hnone : w.tasks.countP (Task.holdsFor agent) = 0 := by
        refine List.countP_eq_zero.mpr fun task hmem hholds => ?_
        simp only [Task.holdsFor, Bool.and_eq_true, decide_eq_true_eq] at hholds
        simp [Task.permit, hdone task hmem hholds.1] at hholds
      omega

/-- Two slots, of which one is taken by a running handler. -/
theorem accounts_exact_running :
    ∃ w, (dispatchSystem Sample.dispatcherConfig).Run (fun w a => w.Spares Sample.agent a)
        (.start (Sample.registry (Sample.config 2)) .empty) w ∧
      w.tasks.countP (Task.holdsFor Sample.agent) = 1 ∧
      "e" ∈ w.dispatcher.inFlightIds Sample.agent ∧
      w.dispatcher.available Sample.agent + 1 = 2 := by
  obtain ⟨w, hrun, hend⟩ := exists_run_of_exec (dispatchSystem Sample.dispatcherConfig)
    (fun w a => w.Spares Sample.agent a) (.start (Sample.registry (Sample.config 2)) .empty)
    ([.deliver (Sample.delivery "e")] ++ Sample.polls 0 6)
    (fun w => w.tasks.countP (Task.holdsFor Sample.agent) == 1 &&
      decide ("e" ∈ w.dispatcher.inFlightIds Sample.agent)) (by decide +kernel)
  simp only [Bool.and_eq_true, beq_iff_eq, decide_eq_true_eq] at hend
  obtain ⟨hheld, hinflight⟩ := hend
  have hget : (Sample.registry (Sample.config 2)).get Sample.agent = some (Sample.config 2) := by
    decide +kernel
  obtain ⟨-, -, hslots, -⟩ := accounts_exact hget rfl hrun
  rw [hheld] at hslots
  exact ⟨w, hrun, hheld, hinflight, hslots⟩

end Agentd
