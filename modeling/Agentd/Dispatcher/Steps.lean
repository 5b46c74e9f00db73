import Agentd.Dispatcher.Model

/-!
# What one step of the dispatcher can do

`Polls` lists the accesses of a dispatch to shared state, one constructor for each, with what the
access found out and what it left behind; `polls_of_poll` shows that a poll is one of them.
`CallPolls` does the same for `available`.  The proofs about runs go through these lists and never
unfold `poll`.

The last two sections look at a step through the two views that the concurrency arguments need.
An event is *claimed* by the dispatch that inserted its id in flight and has not yet removed it
(`Polls.claim_cases`); a dispatch that holds a permit *holds* one of a semaphore of the heap
(`Polls.permit_cases`).
-/

namespace Agentd

open TaskPool

/-! ## The shared state after an update -/

namespace Dispatcher

variable {D D' : Dispatcher} {agent agent' : AgentId} {event : String} {permits : ℕ}

/-- The semaphore of an agent, if it has a state. -/
def permitsOf (D : Dispatcher) (agent : AgentId) : Option ℕ :=
  (D.states agent).map AgentState.permits

/-- The keys in flight. -/
def inFlight (D : Dispatcher) : Set EventKey := {k | k.2 ∈ D.inFlightIds k.1}

/-- The shared state after the insertion of an id that was not in flight. -/
def insertInFlight (D : Dispatcher) (agent : AgentId) (event : String) (permits : ℕ) :
    Dispatcher :=
  { D with
    states :=
      Function.update D.states agent
        (some ⟨(D.permitsOf agent).getD permits, insert event (D.inFlightIds agent)⟩) }

theorem getD_states (D : Dispatcher) (agent : AgentId) (permits : ℕ) :
    (D.states agent).getD ⟨permits, ∅⟩ =
      ⟨(D.permitsOf agent).getD permits, D.inFlightIds agent⟩ := by
  unfold permitsOf inFlightIds
  cases D.states agent <;> rfl

/-- The check-and-insert succeeds exactly on an id that is not in flight. -/
theorem checkInsert_eq (D : Dispatcher) (agent : AgentId) (event : String) (permits : ℕ) :
    D.checkInsert agent event permits =
      if event ∈ D.inFlightIds agent then none
      else some (D.insertInFlight agent event permits) := by
  unfold checkInsert insertInFlight
  simp only [getD_states]

@[simp] theorem registry_ensureState (D : Dispatcher) (agent : AgentId) (n : UInt32) :
    (D.ensureState agent n).1.registry = D.registry := by
  unfold ensureState
  cases D.states agent <;> rfl

@[simp] theorem dedup_ensureState (D : Dispatcher) (agent : AgentId) (n : UInt32) :
    (D.ensureState agent n).1.dedup = D.dedup := by
  unfold ensureState
  cases D.states agent <;> rfl

@[simp] theorem registry_removeInFlight (D : Dispatcher) (agent : AgentId) (event : String) :
    (D.removeInFlight agent event).registry = D.registry := by
  unfold removeInFlight
  cases D.states agent <;> rfl

@[simp] theorem dedup_removeInFlight (D : Dispatcher) (agent : AgentId) (event : String) :
    (D.removeInFlight agent event).dedup = D.dedup := by
  unfold removeInFlight
  cases D.states agent <;> rfl

@[simp] theorem semaphores_removeInFlight (D : Dispatcher) (agent : AgentId) (event : String) :
    (D.removeInFlight agent event).semaphores = D.semaphores := by
  unfold removeInFlight
  cases D.states agent <;> rfl

/-- `ensure_state` answers with the semaphore that the agent then has. -/
@[simp] theorem permitsOf_ensureState (D : Dispatcher) (agent : AgentId) (n : UInt32) :
    (D.ensureState agent n).1.permitsOf agent = some (D.ensureState agent n).2 := by
  unfold ensureState permitsOf
  cases h : D.states agent <;> simp [h]

theorem permitsOf_ensureState_of_ne (n : UInt32) (hne : agent' ≠ agent) :
    (D.ensureState agent n).1.permitsOf agent' = D.permitsOf agent' := by
  unfold ensureState permitsOf
  cases h : D.states agent <;> simp [hne]

/-- `ensure_state` finds a semaphore or creates one of the given size. -/
theorem ensureState_cases (D : Dispatcher) (agent : AgentId) (n : UInt32) :
    (D.permitsOf agent = some (D.ensureState agent n).2 ∧
      (D.ensureState agent n).1.semaphores = D.semaphores) ∨
    (D.permitsOf agent = none ∧ (D.ensureState agent n).2 = D.semaphores.length ∧
      (D.ensureState agent n).1.semaphores = D.semaphores ++ [.new n.toNat]) := by
  unfold ensureState permitsOf
  cases h : D.states agent <;> simp

@[simp] theorem inFlight_ensureState (D : Dispatcher) (agent : AgentId) (n : UInt32) :
    (D.ensureState agent n).1.inFlight = D.inFlight := by
  ext ⟨a, e⟩
  simp only [inFlight, inFlightIds, ensureState, Set.mem_ofPred_eq]
  cases h : D.states agent with
  | some st => rfl
  | none =>
    by_cases ha : a = agent
    · subst ha
      simp [h]
    · simp [Function.update_of_ne ha]

@[simp] theorem inFlight_insertInFlight (D : Dispatcher) (agent : AgentId) (event : String)
    (permits : ℕ) :
    (D.insertInFlight agent event permits).inFlight = insert (agent, event) D.inFlight := by
  ext ⟨a, e⟩
  by_cases ha : a = agent
  · subst ha
    simp [inFlight, inFlightIds, insertInFlight]
  · simp [inFlight, inFlightIds, insertInFlight, ha]

@[simp] theorem inFlight_removeInFlight (D : Dispatcher) (agent : AgentId) (event : String) :
    (D.removeInFlight agent event).inFlight = D.inFlight \ {(agent, event)} := by
  ext ⟨a, e⟩
  simp only [inFlight, inFlightIds, removeInFlight, Set.mem_ofPred_eq, Set.mem_sdiff,
    Set.mem_singleton_iff, Prod.mk.injEq, not_and]
  cases h : D.states agent with
  | none =>
    by_cases ha : a = agent
    · subst ha
      simp [h]
    · simp [ha]
  | some st =>
    by_cases ha : a = agent
    · subst ha
      simp [h, and_comm]
    · simp [ha]

@[simp] theorem permitsOf_insertInFlight (D : Dispatcher) (agent : AgentId) (event : String)
    (permits : ℕ) : (D.insertInFlight agent event permits).permitsOf agent =
      some ((D.permitsOf agent).getD permits) := by
  simp [permitsOf, insertInFlight]

theorem permitsOf_insertInFlight_of_ne (hne : agent' ≠ agent) :
    (D.insertInFlight agent event permits).permitsOf agent' = D.permitsOf agent' := by
  simp [permitsOf, insertInFlight, Function.update_of_ne hne]

@[simp] theorem permitsOf_removeInFlight (D : Dispatcher) (agent agent' : AgentId)
    (event : String) : (D.removeInFlight agent event).permitsOf agent' = D.permitsOf agent' := by
  unfold permitsOf removeInFlight
  cases h : D.states agent with
  | none => rfl
  | some st =>
    by_cases ha : agent' = agent
    · subst ha
      simp [h]
    · simp [Function.update_of_ne ha]

/-- `apply_changes` discards the states of the agents named and of no others. -/
theorem states_applyChanges (D : Dispatcher) (changes : List Change) (agent : AgentId) :
    (D.applyChanges changes).states agent =
      if agent ∈ changes.map Change.agentId then none else D.states agent := by
  unfold applyChanges
  dsimp only
  generalize D.states = states
  induction changes generalizing states with
  | nil => simp
  | cons ch changes ih =>
    rw [List.foldl_cons, ih, List.map_cons]
    by_cases hmem : agent ∈ changes.map Change.agentId
    · simp [hmem]
    · by_cases hag : agent = ch.agentId
      · simp [hag]
      · simp [hmem, hag]

theorem permitsOf_applyChanges (D : Dispatcher) (changes : List Change) (agent : AgentId) :
    (D.applyChanges changes).permitsOf agent =
      if agent ∈ changes.map Change.agentId then none else D.permitsOf agent := by
  unfold permitsOf
  rw [states_applyChanges]
  split <;> rfl

theorem inFlightIds_applyChanges (D : Dispatcher) (changes : List Change) (agent : AgentId) :
    (D.applyChanges changes).inFlightIds agent =
      if agent ∈ changes.map Change.agentId then ∅ else D.inFlightIds agent := by
  unfold inFlightIds
  rw [states_applyChanges]
  split <;> rfl

end Dispatcher

/-! ## The accesses of a dispatch -/

/-- A delivery whose bytes are within the limit and parse to a valid envelope for its agent. -/
structure Delivery.Carries (C : DispatcherConfig) (d : Delivery) (envelope : EventEnvelope) :
    Prop where
  /-- The bytes are within `max_event_bytes`. -/
  size : d.raw.length ≤ C.maxEventBytes
  /-- The bytes parse. -/
  parse : EventEnvelope.parse C.fromSlice d.raw = .ok envelope
  /-- The envelope is for the consumer's agent. -/
  agent : envelope.agentId = d.agent

/-- The envelope that a delivery carries, if it does. -/
def Delivery.envelope? (C : DispatcherConfig) (d : Delivery) : Option EventEnvelope :=
  if d.raw.length ≤ C.maxEventBytes then
    match EventEnvelope.parse C.fromSlice d.raw with
    | .ok envelope => if envelope.agentId = d.agent then some envelope else none
    | .error _ => none
  else none

theorem Delivery.carries_iff {C : DispatcherConfig} {d : Delivery} {envelope : EventEnvelope} :
    d.Carries C envelope ↔ d.envelope? C = some envelope := by
  unfold envelope?
  constructor
  · intro h
    simp [h.size, h.parse, h.agent]
  · intro h
    split at h
    · rename_i hsize
      split at h
      · rename_i envelope' hparse
        split at h
        · rename_i hagent
          obtain rfl : envelope' = envelope := Option.some_inj.mp h
          exact ⟨hsize, hparse, hagent⟩
        · cases h
      · cases h
    · cases h

/-- The rejections of the gates before the slot, each with the line logged. -/
inductive Rejects (C : DispatcherConfig) (D : Dispatcher) (d : Delivery) : Effect → Prop
  /-- The delivery carries no valid event for its agent. -/
  | invalid {reason : InvalidEvent} (h : ∀ envelope, ¬d.Carries C envelope) :
      Rejects C D d (.invalidEvent reason)
  /-- The agent is not registered. -/
  | unregistered {envelope : EventEnvelope} (hd : d.Carries C envelope)
      (h : D.registry.get d.agent = none) : Rejects C D d .unregistered
  /-- The agent is disabled. -/
  | disabled {envelope : EventEnvelope} {config : AgentConfig} (hd : d.Carries C envelope)
      (h : D.registry.get d.agent = some config) (hdis : config.enabled = false) :
      Rejects C D d .disabled

/-- The accesses of a dispatch to shared state: from a stage of the dispatch of `d`, the shared
state and the stage after the access, and the effects. -/
inductive Polls (C : DispatcherConfig) (D : Dispatcher) (d : Delivery) (o : Outcome) :
    Stage → Dispatcher → Stage → List Effect → Prop
  | reject {effect : Effect} (h : Rejects C D d effect) :
      Polls C D d o .received D .rejected [effect]
  | configure {envelope : EventEnvelope} {config : AgentConfig} (hd : d.Carries C envelope)
      (h : D.registry.get d.agent = some config) (hen : config.enabled = true) :
      Polls C D d o .received D (.configured ⟨envelope, config⟩) []
  | termRejected : Polls C D d o .rejected D .finished [.termed]
  | ensure {job : Job} :
      Polls C D d o (.configured job) (D.ensureState d.agent job.config.maxConcurrency).1
        (.waiting job (D.ensureState d.agent job.config.maxConcurrency).2) []
  | acquire {job : Job} {permits : ℕ} {heap : List Semaphore}
      (h : Semaphore.tryAcquire D.semaphores permits = some heap) :
      Polls C D d o (.waiting job permits) { D with semaphores := heap }
        (.slot job permits .lookup) []
  | hit {job : Job} {permits : ℕ}
      (h : D.dedup.isCompleted d.agent job.envelope.eventId = true) :
      Polls C D d o (.slot job permits .lookup) D (.slot job permits .hit)
        [.dedupHit job.envelope.eventId]
  | miss {job : Job} {permits : ℕ}
      (h : o.lookupFails = true ∨ D.dedup.isCompleted d.agent job.envelope.eventId = false) :
      Polls C D d o (.slot job permits .lookup) D (.slot job permits .check) []
  | ackHit {job : Job} {permits : ℕ} :
      Polls C D d o (.slot job permits .hit) D (.slot job permits .release)
        [.acked job.envelope.eventId]
  | drop {job : Job} {permits : ℕ} (h : (d.agent, job.envelope.eventId) ∈ D.inFlight) :
      Polls C D d o (.slot job permits .check) D (.slot job permits .release)
        [.duplicateDropped job.envelope.eventId]
  | enter {job : Job} {permits : ℕ} (h : (d.agent, job.envelope.eventId) ∉ D.inFlight) :
      Polls C D d o (.slot job permits .check)
        (D.insertInFlight d.agent job.envelope.eventId permits) (.slot job permits .spawn) []
  | spawnFail {job : Job} {permits : ℕ} (h : o.spawnFails = true) :
      Polls C D d o (.slot job permits .spawn) D (.slot job permits .abort)
        [.spawnFailed job.envelope.eventId]
  | spawn {job : Job} {permits : ℕ} (h : o.spawnFails = false) :
      Polls C D d o (.slot job permits .spawn) D (.slot job permits .wait)
        [.spawned job.envelope.eventId (.forEvent job.config job.envelope d)]
  | exit {job : Job} {permits : ℕ} :
      Polls C D d o (.slot job permits .wait) D (.slot job permits .mark)
        [.exited job.envelope.eventId (o.wait.elim (-1) exitStatusOf)]
  | mark {job : Job} {permits : ℕ} (h : o.markFails = false) :
      Polls C D d o (.slot job permits .mark)
        { D with dedup := D.dedup.markCompleted d.agent job.envelope.eventId o.now }
        (.slot job permits .remove) [.marked job.envelope.eventId true]
  | markFail {job : Job} {permits : ℕ} (h : o.markFails = true) :
      Polls C D d o (.slot job permits .mark) D (.slot job permits .remove)
        [.marked job.envelope.eventId false]
  | remove {job : Job} {permits : ℕ} :
      Polls C D d o (.slot job permits .remove) (D.removeInFlight d.agent job.envelope.eventId)
        (.slot job permits .ack) []
  | ack {job : Job} {permits : ℕ} :
      Polls C D d o (.slot job permits .ack) D (.slot job permits .release)
        [.acked job.envelope.eventId]
  | abort {job : Job} {permits : ℕ} :
      Polls C D d o (.slot job permits .abort) (D.removeInFlight d.agent job.envelope.eventId)
        (.slot job permits .term) []
  | term {job : Job} {permits : ℕ} :
      Polls C D d o (.slot job permits .term) D (.slot job permits .release) [.termed]
  | release {job : Job} {permits : ℕ} :
      Polls C D d o (.slot job permits .release)
        { D with semaphores := Semaphore.release D.semaphores permits } .finished []

variable {C : DispatcherConfig} {D D' : Dispatcher} {d : Delivery} {o : Outcome} {s s' : Stage}
  {effects : List Effect}

/-- The gates reject the delivery or read the registration. -/
theorem polls_gate (C : DispatcherConfig) (D : Dispatcher) (d : Delivery) (o : Outcome) :
    Polls C D d o .received D (D.gate C d).1 (D.gate C d).2 := by
  unfold Dispatcher.gate
  split
  · rename_i hlen
    exact .reject (.invalid fun envelope hd => absurd hd.size (by omega))
  rename_i hlen
  split
  · rename_i e hparse
    refine .reject (.invalid fun envelope hd => ?_)
    rw [hd.parse] at hparse
    cases hparse
  rename_i envelope hparse
  split
  · rename_i hagent
    refine .reject (.invalid fun envelope' hd => hagent ?_)
    rw [hd.parse] at hparse
    obtain rfl : envelope' = envelope := by simpa using hparse
    exact hd.agent
  rename_i hagent
  have hd : d.Carries C envelope := ⟨by omega, hparse, not_not.mp hagent⟩
  split
  · rename_i hget
    exact .reject (.unregistered hd hget)
  rename_i config hget
  by_cases hen : config.enabled = true
  · rw [hen]
    exact .configure hd hget hen
  · rw [Bool.not_eq_true] at hen
    rw [hen]
    exact .reject (.disabled hd hget hen)

/-- A poll is one of the accesses. -/
theorem polls_of_poll (h : D.poll C d o s = some (D', s', effects)) :
    Polls C D d o s D' s' effects := by
  cases s with
  | received =>
    simp only [Dispatcher.poll, Option.some.injEq, Prod.mk.injEq] at h
    obtain ⟨rfl, rfl, rfl⟩ := h
    exact polls_gate C D d o
  | rejected =>
    simp only [Dispatcher.poll, Option.some.injEq, Prod.mk.injEq] at h
    obtain ⟨rfl, rfl, rfl⟩ := h
    exact .termRejected
  | configured job =>
    simp only [Dispatcher.poll, Option.some.injEq, Prod.mk.injEq] at h
    obtain ⟨rfl, rfl, rfl⟩ := h
    exact .ensure
  | waiting job permits =>
    obtain ⟨heap, hheap, heq⟩ := Option.map_eq_some_iff.mp h
    simp only [Prod.mk.injEq] at heq
    obtain ⟨rfl, rfl, rfl⟩ := heq
    exact .acquire hheap
  | slot job permits phase =>
    simp only [Dispatcher.poll, Option.some.injEq, Prod.mk.injEq] at h
    obtain ⟨rfl, rfl, rfl⟩ := h
    cases phase with
    | lookup =>
      simp only [Dispatcher.pollSlot, Dispatcher.isCompleted]
      cases hfail : o.lookupFails with
      | true => exact .miss (.inl hfail)
      | false =>
        cases hdone : D.dedup.isCompleted d.agent job.envelope.eventId with
        | true => exact .hit hdone
        | false => exact .miss (.inr hdone)
    | hit => exact .ackHit
    | check =>
      simp only [Dispatcher.pollSlot, Dispatcher.checkInsert_eq]
      by_cases hmem : job.envelope.eventId ∈ D.inFlightIds d.agent
      · rw [if_pos hmem]
        exact .drop hmem
      · rw [if_neg hmem]
        exact .enter hmem
    | spawn =>
      simp only [Dispatcher.pollSlot]
      cases hfail : o.spawnFails with
      | true => exact .spawnFail hfail
      | false => exact .spawn hfail
    | wait => exact .exit
    | mark =>
      simp only [Dispatcher.pollSlot, Dispatcher.markCompleted]
      cases hfail : o.markFails with
      | true => exact .markFail hfail
      | false => exact .mark hfail
    | remove => exact .remove
    | ack => exact .ack
    | abort => exact .abort
    | term => exact .term
    | release => exact .release
  | finished => cases h

/-! ## The accesses of a call of `available` -/

/-- The accesses of a call of `available` for `agent` to shared state. -/
inductive CallPolls (D : Dispatcher) (agent : AgentId) :
    CallStage → Dispatcher → CallStage → Prop
  | unavailable (h : ∀ config, D.registry.get agent = some config → config.enabled = false) :
      CallPolls D agent .start D (.done 0)
  | configure {config : AgentConfig} (h : D.registry.get agent = some config)
      (hen : config.enabled = true) : CallPolls D agent .start D (.configured config)
  | ensure {config : AgentConfig} :
      CallPolls D agent (.configured config) (D.ensureState agent config.maxConcurrency).1
        (.counting (D.ensureState agent config.maxConcurrency).2)
  | count {permits : ℕ} :
      CallPolls D agent (.counting permits) D (.done (D.availablePermits permits))

/-- A poll of a call is one of the accesses. -/
theorem callPolls_of_poll {agent : AgentId} {c c' : CallStage}
    (h : D.pollAvailable agent c = some (D', c')) : CallPolls D agent c D' c' := by
  cases c with
  | start =>
    simp only [Dispatcher.pollAvailable] at h
    split at h
    · rename_i config hget
      split at h
      · rename_i hen
        obtain ⟨rfl, rfl⟩ : D = D' ∧ .configured config = c' := by simpa using h
        exact .configure hget hen
      · rename_i hen
        obtain ⟨rfl, rfl⟩ : D = D' ∧ .done 0 = c' := by simpa using h
        refine .unavailable fun config' hget' => ?_
        obtain rfl : config = config' := Option.some_inj.mp (hget.symm.trans hget')
        simpa using hen
    · rename_i hget
      obtain ⟨rfl, rfl⟩ : D = D' ∧ .done 0 = c' := by simpa using h
      exact .unavailable fun config hconfig => by simp [hget] at hconfig
  | configured config =>
    simp only [Dispatcher.pollAvailable, Option.some.injEq, Prod.mk.injEq] at h
    obtain ⟨rfl, rfl⟩ := h
    exact .ensure
  | counting permits =>
    simp only [Dispatcher.pollAvailable, Option.some.injEq, Prod.mk.injEq] at h
    obtain ⟨rfl, rfl⟩ := h
    exact .count
  | done slots => cases h

/-- No access of a dispatch changes the registry. -/
theorem Polls.registry_eq (h : Polls C D d o s D' s' effects) : D'.registry = D.registry := by
  cases h with
  | ensure => exact Dispatcher.registry_ensureState ..
  | remove | abort => exact Dispatcher.registry_removeInFlight ..
  | _ => rfl

/-- No access of a call changes the registry. -/
theorem CallPolls.registry_eq {agent : AgentId} {c c' : CallStage}
    (h : CallPolls D agent c D' c') : D'.registry = D.registry := by
  cases h with
  | ensure => exact Dispatcher.registry_ensureState ..
  | _ => rfl

/-- No access of a call changes the store. -/
theorem CallPolls.dedup_eq {agent : AgentId} {c c' : CallStage}
    (h : CallPolls D agent c D' c') : D'.dedup = D.dedup := by
  cases h with
  | ensure => exact Dispatcher.dedup_ensureState ..
  | _ => rfl

/-! ## The steps of the system -/

namespace World

variable {w w' : World}

/-- A poll step polls one dispatch. -/
theorem poll_of_step {t : ℕ} (h : (dispatchSystem C).step w (.poll t o) = some w') :
    ∃ d s D' s' effects, w.tasks[t]? = some ⟨d, s⟩ ∧
      w.dispatcher.poll C d o s = some (D', s', effects) ∧
      w' = w.commit t ⟨d, s⟩ D' s' effects := by
  simp only [dispatchSystem, step, Option.bind_eq_bind, Option.bind_eq_some_iff] at h
  obtain ⟨⟨d, s⟩, htask, ⟨D', s', effects⟩, hpoll, hw⟩ := h
  exact ⟨d, s, D', s', effects, htask, hpoll, by simpa using hw.symm⟩

/-- A poll step runs one access of one dispatch. -/
theorem step_poll {t : ℕ} (h : (dispatchSystem C).step w (.poll t o) = some w') :
    ∃ d s D' s' effects, w.tasks[t]? = some ⟨d, s⟩ ∧ Polls C w.dispatcher d o s D' s' effects ∧
      w' = w.commit t ⟨d, s⟩ D' s' effects := by
  obtain ⟨d, s, D', s', effects, htask, hpoll, hw⟩ := poll_of_step h
  exact ⟨d, s, D', s', effects, htask, polls_of_poll hpoll, hw⟩

/-- A poll of a call runs one access of one call of `available`. -/
theorem step_pollCall {c : ℕ} (h : (dispatchSystem C).step w (.pollCall c) = some w') :
    ∃ agent s D' s', w.calls[c]? = some ⟨agent, s⟩ ∧ CallPolls w.dispatcher agent s D' s' ∧
      w' = { w with dispatcher := D', calls := w.calls.set c ⟨agent, s'⟩ } := by
  simp only [dispatchSystem, step, Option.bind_eq_bind, Option.bind_eq_some_iff] at h
  obtain ⟨⟨agent, s⟩, hcall, ⟨D', s'⟩, hpoll, hw⟩ := h
  exact ⟨agent, s, D', s', hcall, callPolls_of_poll hpoll, by simpa using hw.symm⟩

end World

/-! ## Starts -/

/-- The event whose handler the emission says was started. -/
def Emission.started (em : Emission) : Option EventKey :=
  match em.effect with
  | .spawned event _ => some (em.delivery.agent, event)
  | _ => none

/-! ## Claims -/

/-- The phases in which a dispatch claims its event. -/
def Phase.claims : Phase → Bool
  | .spawn | .wait | .mark | .remove | .abort => true
  | _ => false

/-- The key of a dispatch that holds a permit and is in one of the phases `p`. -/
def Task.keyIn (p : Phase → Bool) (task : Task) : Option EventKey :=
  match task.stage with
  | .slot job _ phase =>
    if p phase then some (task.delivery.agent, job.envelope.eventId) else none
  | _ => none

/-- The event a dispatch claims. -/
def Task.claim : Task → Option EventKey := Task.keyIn Phase.claims

/-- The event whose handler the dispatch is running. -/
def Task.running : Task → Option EventKey := Task.keyIn (· == .wait)

/-- A dispatch in one of the phases `p` is in one of the phases `q` that include them. -/
theorem Task.keyIn_mono {p q : Phase → Bool} (hpq : ∀ phase, p phase = true → q phase = true)
    {task : Task} {k : EventKey} (h : task.keyIn p = some k) : task.keyIn q = some k := by
  obtain ⟨d, s⟩ := task
  cases s with
  | slot job permits phase =>
    simp only [keyIn] at h ⊢
    split at h
    · rename_i hp
      rw [if_pos (hpq phase hp)]
      exact h
    · cases h
  | _ => cases h

/-- A running handler runs for a claimed event. -/
theorem Task.claim_of_running {task : Task} {k : EventKey} (h : task.running = some k) :
    task.claim = some k :=
  keyIn_mono (fun phase hp => by cases phase <;> first | rfl | cases hp) h

/-- What an access does to claims and in-flight ids: nothing, or the dispatch claims an event that
was not in flight, or it gives its claim up. -/
theorem Polls.claim_cases (h : Polls C D d o s D' s' effects) :
    ((⟨d, s'⟩ : Task).claim = (⟨d, s⟩ : Task).claim ∧ D'.inFlight = D.inFlight) ∨
    (∃ k, (⟨d, s⟩ : Task).claim = none ∧ (⟨d, s'⟩ : Task).claim = some k ∧ k ∉ D.inFlight ∧
      D'.inFlight = insert k D.inFlight) ∨
    (∃ k, (⟨d, s⟩ : Task).claim = some k ∧ (⟨d, s'⟩ : Task).claim = none ∧
      D'.inFlight = D.inFlight \ {k}) := by
  cases h with
  | enter h => exact .inr (.inl ⟨_, rfl, rfl, h, Dispatcher.inFlight_insertInFlight ..⟩)
  | remove => exact .inr (.inr ⟨_, rfl, rfl, Dispatcher.inFlight_removeInFlight ..⟩)
  | abort => exact .inr (.inr ⟨_, rfl, rfl, Dispatcher.inFlight_removeInFlight ..⟩)
  | ensure => exact .inl ⟨rfl, Dispatcher.inFlight_ensureState ..⟩
  | _ => exact .inl ⟨rfl, rfl⟩

/-! ## Permits -/

/-- The semaphore a dispatch waits for or holds a permit of. -/
def Stage.semaphore : Stage → Option ℕ
  | .waiting _ permits | .slot _ permits _ => some permits
  | _ => none

/-- The semaphore a dispatch holds a permit of. -/
def Task.permit (task : Task) : Option ℕ :=
  match task.stage with
  | .slot _ permits _ => some permits
  | _ => none

/-- What an access does to permits and semaphores: nothing, or `ensure_state` creates a semaphore,
or the dispatch acquires a permit, or it releases the one it holds. -/
theorem Polls.permit_cases (h : Polls C D d o s D' s' effects) :
    ((⟨d, s'⟩ : Task).permit = (⟨d, s⟩ : Task).permit ∧ D'.semaphores = D.semaphores) ∨
    (∃ n, (⟨d, s'⟩ : Task).permit = (⟨d, s⟩ : Task).permit ∧
      D'.semaphores = D.semaphores ++ [.new n]) ∨
    (∃ permits, (⟨d, s⟩ : Task).permit = none ∧ (⟨d, s'⟩ : Task).permit = some permits ∧
      Semaphore.tryAcquire D.semaphores permits = some D'.semaphores) ∨
    (∃ permits, (⟨d, s⟩ : Task).permit = some permits ∧ (⟨d, s'⟩ : Task).permit = none ∧
      D'.semaphores = Semaphore.release D.semaphores permits) := by
  cases h with
  | @ensure job =>
    rcases Dispatcher.ensureState_cases D d.agent job.config.maxConcurrency with
      ⟨-, h⟩ | ⟨-, -, h⟩
    · exact .inl ⟨rfl, h⟩
    · exact .inr (.inl ⟨_, rfl, h⟩)
  | acquire h => exact .inr (.inr (.inl ⟨_, rfl, rfl, h⟩))
  | release => exact .inr (.inr (.inr ⟨_, rfl, rfl, rfl⟩))
  | remove => exact .inl ⟨rfl, Dispatcher.semaphores_removeInFlight ..⟩
  | abort => exact .inl ⟨rfl, Dispatcher.semaphores_removeInFlight ..⟩
  | _ => exact .inl ⟨rfl, rfl⟩

/-- A dispatch whose handler is running holds a permit. -/
theorem Task.permit_of_running (task : Task) (h : task.running.isSome = true) :
    ∃ p, task.permit = some p ∧ task.stage.semaphore = some p := by
  obtain ⟨d, s⟩ := task
  cases s with
  | slot job permits phase => exact ⟨permits, rfl, rfl⟩
  | _ => cases h

/-- A dispatch that holds a permit has its semaphore. -/
theorem Task.semaphore_of_permit (task : Task) {p : ℕ} (h : task.permit = some p) :
    task.stage.semaphore = some p := by
  obtain ⟨d, s⟩ := task
  cases s with
  | slot job permits phase => exact h
  | _ => cases h

end Agentd
