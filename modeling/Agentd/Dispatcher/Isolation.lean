import Agentd.Dispatcher.Slots

/-!
# Isolation of agents

Can the events of one agent change what happens to the events of another?  The agents share one
registry, one map of states, one heap of semaphores and one completed store.  To compare a run with
the run that is left when everything of the other agents is deleted (`isolate`), the two are related
by a simulation: `World.Mirrors` says that the second world is what the agent sees of the first one.
Its semaphores have other positions there, so the relation carries a renaming of the semaphores that
belong to the agent.

A step of the agent is answered by the same step, and a step of another agent by none.
-/

namespace Agentd

open TransitionSystem TaskPool

variable {C : DispatcherConfig} {w w' v : World} {D D' E : Dispatcher} {agent : AgentId}
  {t : ℕ} {d : Delivery} {o : Outcome} {s s' : Stage} {effects : List Effect}

/-! ## The part of one agent -/

/-- The dispatch is of a delivery of the agent. -/
def Task.isOf (agent : AgentId) (task : Task) : Bool := task.delivery.agent == agent

/-- The call asks for the slots of the agent. -/
def Call.isOf (agent : AgentId) (call : Call) : Bool := call.agent == agent

/-- The emission is about a delivery of the agent. -/
def Emission.isOf (agent : AgentId) (em : Emission) : Bool := em.delivery.agent == agent

/-- The row is of the agent. -/
def CompletedEvent.isOf (agent : AgentId) (row : CompletedEvent) : Bool := row.agentId == agent

/-- The change is of the agent. -/
def Change.isOf (agent : AgentId) (ch : Change) : Bool := ch.agentId == agent

/-- What was done with which delivery. -/
def Emission.content (em : Emission) : Delivery × Effect := (em.delivery, em.effect)

/-- The registry with the entry of the agent taken from another one. -/
def Registry.withEntry (base r : Registry) (agent : AgentId) : Registry :=
  match h : r.get agent with
  | some c => base.insert c (r.valid agent c h)
  | none => base.erase agent

@[simp] theorem Registry.get_withEntry (base r : Registry) (agent : AgentId) :
    (base.withEntry r agent).get agent = r.get agent := by
  unfold withEntry
  split
  · rename_i c hget
    obtain rfl : c.agentId = agent := agentId_of_get hget
    exact (get_insert_self ..).trans hget.symm
  · rename_i hget
    exact (get_erase_self ..).trans hget.symm

/-- What is left of an action when the deliveries, calls, dispatch steps and registry changes of the
other agents are deleted: the dispatches and calls of the agent are renumbered, and a registry write
changes the entry of the agent only. -/
def Action.isolate (agent : AgentId) (base : Registry) (w : World) : Action → Option Action
  | .deliver d => if d.agent = agent then some (.deliver d) else none
  | .poll t o =>
    if w.tasks[t]?.any (Task.isOf agent) then some (.poll (rank (Task.isOf agent) w.tasks t) o)
    else none
  | .call a => if a = agent then some (.call a) else none
  | .pollCall c =>
    if w.calls[c]?.any (Call.isOf agent) then some (.pollCall (rank (Call.isOf agent) w.calls c))
    else none
  | .setRegistry registry =>
    if registry.get agent = w.dispatcher.registry.get agent then none
    else some (.setRegistry (base.withEntry registry agent))
  | .applyChanges changes =>
    if changes.filter (Change.isOf agent) = [] then none
    else some (.applyChanges (changes.filter (Change.isOf agent)))
  | .purge now ttl => some (.purge now ttl)
  | .restart registry now ttl => some (.restart (base.withEntry registry agent) now ttl)

/-- What is left of a run. -/
def isolate (C : DispatcherConfig) (agent : AgentId) (base : Registry) :
    World → List Action → List Action
  | _, [] => []
  | w, a :: as =>
    (a.isolate agent base w).toList ++
      (World.step C w a).elim [] fun w' => isolate C agent base w' as

/-! ## Renaming semaphores -/

/-- The state with its semaphore renamed. -/
def AgentState.rename (f : ℕ → ℕ) (st : AgentState) : AgentState := ⟨f st.permits, st.inFlight⟩

/-- The stage with its semaphore renamed. -/
def Stage.rename (f : ℕ → ℕ) : Stage → Stage
  | .waiting job permits => .waiting job (f permits)
  | .slot job permits phase => .slot job (f permits) phase
  | s => s

/-- The stage of a call with its semaphore renamed. -/
def CallStage.rename (f : ℕ → ℕ) : CallStage → CallStage
  | .counting permits => .counting (f permits)
  | s => s

/-- The dispatch with its semaphore renamed. -/
def Task.rename (f : ℕ → ℕ) (task : Task) : Task := { task with stage := task.stage.rename f }

/-- The call with its semaphore renamed. -/
def Call.rename (f : ℕ → ℕ) (call : Call) : Call := { call with stage := call.stage.rename f }

/-- Renamings that agree on the semaphore of a stage rename the stage alike. -/
theorem Stage.rename_congr {f g : ℕ → ℕ} (h : ∀ p, s.semaphore = some p → f p = g p) :
    s.rename f = s.rename g := by
  cases s with
  | waiting job permits => exact congrArg (Stage.waiting job) (h permits rfl)
  | slot job permits phase =>
    have hp := h permits rfl
    simp only [rename, hp]
  | _ => rfl

/-- Forgetting the semaphore makes a renaming invisible. -/
theorem Task.rename_rename_const (f : ℕ → ℕ) (task : Task) :
    (task.rename f).rename (fun _ => 0) = task.rename fun _ => 0 := by
  obtain ⟨d, s⟩ := task
  cases s <;> rfl

/-! ## What the agent sees of the shared state -/

/-- `E` is what the agent sees of `D`: its registration, its rows, its state, and the semaphores
that belong to it, at the positions given by `f`. -/
structure Dispatcher.Mirrors (agent : AgentId) (owner : ℕ → AgentId) (f : ℕ → ℕ)
    (D E : Dispatcher) : Prop where
  registry : E.registry.get agent = D.registry.get agent
  rows : E.dedup.rows.filter (CompletedEvent.isOf agent) =
    D.dedup.rows.filter (CompletedEvent.isOf agent)
  state : E.states agent = (D.states agent).map (AgentState.rename f)
  heap : ∀ p sem, D.semaphores[p]? = some sem → owner p = agent → E.semaphores[f p]? = some sem
  inj : ∀ p q, p < D.semaphores.length → q < D.semaphores.length → owner p = agent →
    owner q = agent → f p = f q → p = q

/-- Whether an event of an agent is completed depends on the rows of the agent. -/
theorem DedupStore.isCompleted_eq_filter (store : DedupStore) (agent : AgentId) (event : String) :
    store.isCompleted agent event =
      (store.rows.filter (CompletedEvent.isOf agent)).any fun row => row.key == (agent, event) := by
  unfold isCompleted
  rw [List.any_filter]
  congr 1
  ext row
  by_cases hag : row.agentId = agent
  · simp [CompletedEvent.isOf, hag]
  · simp [CompletedEvent.isOf, CompletedEvent.key, hag]

/-- A mark of another agent adds no row of this one. -/
theorem DedupStore.filter_markCompleted_of_ne {store : DedupStore} {other : AgentId}
    {event : String} {now : UInt64} (hne : other ≠ agent) :
    (store.markCompleted other event now).rows.filter (CompletedEvent.isOf agent) =
      store.rows.filter (CompletedEvent.isOf agent) := by
  unfold markCompleted
  split
  · rfl
  · simp [CompletedEvent.isOf, hne]

/-- A mark adds the same row to stores with the same rows of the agent. -/
theorem DedupStore.filter_markCompleted {store store' : DedupStore} {event : String} {now : UInt64}
    (h : store'.rows.filter (CompletedEvent.isOf agent) =
      store.rows.filter (CompletedEvent.isOf agent)) :
    (store'.markCompleted agent event now).rows.filter (CompletedEvent.isOf agent) =
      (store.markCompleted agent event now).rows.filter (CompletedEvent.isOf agent) := by
  have hsame : store'.isCompleted agent event = store.isCompleted agent event := by
    rw [isCompleted_eq_filter, isCompleted_eq_filter, h]
  unfold markCompleted
  by_cases hdone : store.isCompleted agent event = true
  · rw [dif_pos hdone, dif_pos (hsame.trans hdone), h]
  · rw [dif_neg hdone, dif_neg (hsame ▸ hdone), List.filter_append, List.filter_append, h]

/-- A purge deletes the same rows of the agent from both. -/
theorem DedupStore.filter_purgeExpired {store store' : DedupStore} (now ttl : UInt64)
    (h : store'.rows.filter (CompletedEvent.isOf agent) =
      store.rows.filter (CompletedEvent.isOf agent)) :
    (store'.purgeExpired now ttl).1.rows.filter (CompletedEvent.isOf agent) =
      (store.purgeExpired now ttl).1.rows.filter (CompletedEvent.isOf agent) := by
  simp only [purgeExpired, List.filter_filter] at h ⊢
  simp only [Bool.and_comm (CompletedEvent.isOf agent _)]
  rw [← List.filter_filter, ← List.filter_filter, h]

namespace Dispatcher.Mirrors

variable {owner owner' : ℕ → AgentId} {f : ℕ → ℕ}

/-- Only the owners of existing semaphores matter. -/
theorem congr (h : Mirrors agent owner f D E)
    (heq : ∀ p < D.semaphores.length, owner' p = owner p) : Mirrors agent owner' f D E where
  registry := h.registry
  rows := h.rows
  state := h.state
  heap p sem hp hown :=
    h.heap p sem hp ((heq p (List.getElem?_eq_some_iff.mp hp).1).symm.trans hown)
  inj p q hp hq hop hoq :=
    h.inj p q hp hq ((heq p hp).symm.trans hop) ((heq q hq).symm.trans hoq)

/-- The stores agree on the agent. -/
theorem isCompleted_eq (h : Mirrors agent owner f D E) (event : String) :
    E.dedup.isCompleted agent event = D.dedup.isCompleted agent event := by
  rw [DedupStore.isCompleted_eq_filter, DedupStore.isCompleted_eq_filter, h.rows]

/-- The gates decide alike. -/
theorem gate_eq (h : Mirrors d.agent owner f D E) : E.gate C d = D.gate C d := by
  unfold gate
  rw [h.registry]

/-- The semaphore that a state or a dispatch of the agent has is in sight. -/
theorem getElem?_eq (h : Mirrors agent owner f D E) {p : ℕ} (hp : p < D.semaphores.length)
    (hown : owner p = agent) : E.semaphores[f p]? = D.semaphores[p]? := by
  obtain ⟨sem, hsem⟩ : ∃ sem, D.semaphores[p]? = some sem := ⟨_, List.getElem?_eq_getElem hp⟩
  rw [hsem, h.heap p sem hsem hown]

/-- Both replace a semaphore of the agent. -/
theorem setSemaphore (h : Mirrors agent owner f D E) {p : ℕ} (hp : p < D.semaphores.length)
    (hown : owner p = agent) (sem : Semaphore) :
    Mirrors agent owner f { D with semaphores := D.semaphores.set p sem }
      { E with semaphores := E.semaphores.set (f p) sem } where
  registry := h.registry
  rows := h.rows
  state := h.state
  heap q sem' hq hq' := by
    have hsome : (E.semaphores[f p]?).isSome = true := by
      rw [h.getElem?_eq hp hown]
      simp [hp]
    rcases getElem?_set_cases hq with ⟨rfl, rfl⟩ | ⟨hne, hq⟩
    · obtain ⟨old, hold⟩ := Option.isSome_iff_exists.mp hsome
      exact getElem?_set_self_of_mem hold
    · have hfne : f p ≠ f q := by
        intro heq
        have hlt := (List.getElem?_eq_some_iff.mp hq).1
        exact hne (h.inj p q hp hlt hown hq' heq).symm
      rw [List.getElem?_set_ne hfne]
      exact h.heap q sem' hq hq'
  inj q q' hq hq' := by
    simp only [List.length_set] at hq hq'
    exact h.inj q q' hq hq'

/-- Both update the state of the agent. -/
theorem setState (h : Mirrors agent owner f D E) (st : AgentState) :
    Mirrors agent owner f
      { D with states := Function.update D.states agent (some st) }
      { E with states := Function.update E.states agent (some (st.rename f)) } where
  registry := h.registry
  rows := h.rows
  state := by simp
  heap := h.heap
  inj := h.inj

/-- Both create a semaphore for the agent. -/
theorem create (h : Mirrors agent owner f D E) {n : ℕ}
    (hstates : ∀ p, D.permitsOf agent = some p → p < D.semaphores.length) :
    Mirrors agent (Function.update owner D.semaphores.length agent)
      (Function.update f D.semaphores.length E.semaphores.length)
      { D with semaphores := D.semaphores ++ [.new n] }
      { E with semaphores := E.semaphores ++ [.new n] } where
  registry := h.registry
  rows := h.rows
  state := by
    rw [h.state]
    cases hst : D.states agent with
    | none => rfl
    | some st =>
      have hlt := hstates st.permits (by simp [permitsOf, hst])
      simp [AgentState.rename, Function.update_of_ne (Nat.ne_of_lt hlt)]
  heap p sem hp hown := by
    rcases getElem?_append_cases hp with ⟨rfl, rfl⟩ | hp
    · simp
    · have hlt := (List.getElem?_eq_some_iff.mp hp).1
      rw [Function.update_of_ne (Nat.ne_of_lt hlt)] at hown ⊢
      exact getElem?_append_of_some (h.heap p sem hp hown)
  inj p q hp hq hop hoq heq := by
    -- the new position is beyond the end of the old heap
    have hlt : ∀ r < D.semaphores.length, owner r = agent → f r < E.semaphores.length := by
      intro r hr hown
      have hsome := h.getElem?_eq hr hown
      rw [List.getElem?_eq_getElem hr] at hsome
      exact (List.getElem?_eq_some_iff.mp hsome).1
    simp only [List.length_append, List.length_singleton] at hp hq
    by_cases hp' : p = D.semaphores.length
    · by_cases hq' : q = D.semaphores.length
      · exact hp'.trans hq'.symm
      · subst hp'
        rw [Function.update_self, Function.update_of_ne hq'] at heq
        rw [Function.update_of_ne hq'] at hoq
        have := hlt q (by omega) hoq
        omega
    · rw [Function.update_of_ne hp'] at heq hop
      by_cases hq' : q = D.semaphores.length
      · subst hq'
        rw [Function.update_self] at heq
        have := hlt p (by omega) hop
        omega
      · rw [Function.update_of_ne hq'] at heq hoq
        exact h.inj p q (by omega) (by omega) hop hoq heq

/-- `ensure_state` finds or creates the semaphore of the agent in both. -/
theorem ensureState (h : Mirrors agent owner f D E)
    (hstates : ∀ p, D.permitsOf agent = some p → p < D.semaphores.length)
    (hagree : ∀ p < D.semaphores.length, owner' p = owner p) {n : UInt32}
    (hnew : owner' (D.ensureState agent n).2 = agent) :
    ∃ f', Mirrors agent owner' f' (D.ensureState agent n).1 (E.ensureState agent n).1 ∧
      (E.ensureState agent n).2 = f' (D.ensureState agent n).2 ∧
      ∀ p < D.semaphores.length, f' p = f p := by
  cases hst : D.states agent with
  | some st =>
    have hD : D.ensureState agent n = (D, st.permits) := by simp [Dispatcher.ensureState, hst]
    have hE : E.ensureState agent n = (E, f st.permits) := by
      simp [Dispatcher.ensureState, h.state, hst, AgentState.rename]
    rw [hD, hE]
    exact ⟨f, h.congr hagree, rfl, fun _ _ => rfl⟩
  | none =>
    have hE : E.states agent = none := by rw [h.state, hst, Option.map_none]
    simp only [Dispatcher.ensureState, hst, hE] at hnew ⊢
    refine ⟨Function.update f D.semaphores.length E.semaphores.length, ?_, by simp, ?_⟩
    · have hboth := (h.create (n := n.toNat) hstates).setState ⟨D.semaphores.length, ∅⟩
      simp only [AgentState.rename, Function.update_self] at hboth
      refine hboth.congr fun p hp => ?_
      simp only [List.length_append, List.length_singleton] at hp
      by_cases hlen : p = D.semaphores.length
      · rw [hlen, hnew, Function.update_self]
      · rw [Function.update_of_ne hlen, hagree p (by omega)]
    · intro p hp
      exact Function.update_of_ne (Nat.ne_of_lt hp) ..

/-- The check-and-insert finds the same ids in flight. -/
theorem checkInsert (h : Mirrors agent owner f D E) (event : String) (permits : ℕ) :
    (D.checkInsert agent event permits = none ∧ E.checkInsert agent event (f permits) = none) ∨
    ∃ D' E', D.checkInsert agent event permits = some D' ∧
      E.checkInsert agent event (f permits) = some E' ∧ Mirrors agent owner f D' E' ∧
      D'.semaphores = D.semaphores := by
  have hentry : (E.states agent).getD ⟨f permits, ∅⟩ =
      ((D.states agent).getD ⟨permits, ∅⟩).rename f := by
    rw [h.state]
    cases D.states agent <;> rfl
  simp only [Dispatcher.checkInsert, hentry]
  generalize (D.states agent).getD ⟨permits, ∅⟩ = entry
  by_cases hmem : event ∈ entry.inFlight
  · have hmem' : event ∈ (entry.rename f).inFlight := hmem
    exact .inl ⟨if_pos hmem, if_pos hmem'⟩
  · have hmem' : event ∉ (entry.rename f).inFlight := hmem
    rw [if_neg hmem, if_neg hmem']
    exact .inr ⟨_, _, rfl, rfl, h.setState { entry with inFlight := insert event entry.inFlight },
      rfl⟩

/-- The removal of an id. -/
theorem removeInFlight (h : Mirrors agent owner f D E) (event : String) :
    Mirrors agent owner f (D.removeInFlight agent event) (E.removeInFlight agent event) := by
  unfold Dispatcher.removeInFlight
  rw [h.state]
  cases hst : D.states agent with
  | none => exact h
  | some st => exact h.setState { st with inFlight := st.inFlight.erase event }

/-- The mark of an event. -/
theorem markCompleted (h : Mirrors agent owner f D E) (event : String) (now : UInt64) :
    Mirrors agent owner f { D with dedup := D.dedup.markCompleted agent event now }
      { E with dedup := E.dedup.markCompleted agent event now } where
  registry := h.registry
  rows := DedupStore.filter_markCompleted h.rows
  state := h.state
  heap := h.heap
  inj := h.inj

/-- The acquisition of a permit. -/
theorem tryAcquire (h : Mirrors agent owner f D E) {p : ℕ} (hp : p < D.semaphores.length)
    (hown : owner p = agent) {heap : List Semaphore}
    (hacq : Semaphore.tryAcquire D.semaphores p = some heap) :
    ∃ heap', Semaphore.tryAcquire E.semaphores (f p) = some heap' ∧
      heap.length = D.semaphores.length ∧
      Mirrors agent owner f { D with semaphores := heap } { E with semaphores := heap' } := by
  obtain ⟨sem, hsem, hpos, rfl⟩ := Semaphore.tryAcquire_eq_some_iff.mp hacq
  have hsem' : E.semaphores[f p]? = some sem := h.heap p sem hsem hown
  refine ⟨_, Semaphore.tryAcquire_eq_some_iff.mpr ⟨sem, hsem', hpos, rfl⟩, List.length_set, ?_⟩
  exact h.setSemaphore hp hown _

/-- The release of a permit. -/
theorem release (h : Mirrors agent owner f D E) {p : ℕ} (hp : p < D.semaphores.length)
    (hown : owner p = agent) :
    Mirrors agent owner f { D with semaphores := Semaphore.release D.semaphores p }
      { E with semaphores := Semaphore.release E.semaphores (f p) } := by
  have hsem : D.semaphores[p]? = some D.semaphores[p] := List.getElem?_eq_getElem hp
  rw [Semaphore.release_of_some hsem, Semaphore.release_of_some (h.heap p _ hsem hown)]
  exact h.setSemaphore hp hown _

/-- An access of a dispatch of the agent that holds a permit does the same in both. -/
theorem pollSlot (h : Mirrors d.agent owner f D E) (o : Outcome) (job : Job) {p : ℕ}
    (hp : p < D.semaphores.length) (hown : owner p = d.agent) (phase : Phase) :
    ∃ E', E.pollSlot d o job (f p) phase = (E', (D.pollSlot d o job p phase).2) ∧
      Mirrors d.agent owner f (D.pollSlot d o job p phase).1 E' ∧
      (D.pollSlot d o job p phase).1.semaphores.length = D.semaphores.length := by
  cases phase with
  | lookup =>
    refine ⟨E, ?_, ?_, ?_⟩ <;>
      simp only [Dispatcher.pollSlot, Dispatcher.isCompleted, h.isCompleted_eq] <;>
      cases o.lookupFails <;> cases D.dedup.isCompleted d.agent job.envelope.eventId <;>
      first | rfl | exact h
  | check =>
    rcases h.checkInsert job.envelope.eventId p with ⟨hD, hE⟩ | ⟨D', E', hD, hE, hboth, hsem⟩
    · refine ⟨E, ?_, ?_, ?_⟩
      · simp only [Dispatcher.pollSlot, hD, hE]
      · simpa only [Dispatcher.pollSlot, hD] using h
      · simp only [Dispatcher.pollSlot, hD]
    · refine ⟨E', ?_, ?_, ?_⟩
      · simp only [Dispatcher.pollSlot, hD, hE]
      · simpa only [Dispatcher.pollSlot, hD] using hboth
      · simp only [Dispatcher.pollSlot, hD, hsem]
  | spawn =>
    refine ⟨E, ?_, ?_, ?_⟩ <;> simp only [Dispatcher.pollSlot] <;> cases o.spawnFails <;>
      first | rfl | exact h
  | mark =>
    simp only [Dispatcher.pollSlot, Dispatcher.markCompleted]
    cases o.markFails with
    | true => exact ⟨E, rfl, h, rfl⟩
    | false => exact ⟨_, rfl, h.markCompleted _ _, rfl⟩
  | remove =>
    refine ⟨_, rfl, h.removeInFlight _, ?_⟩
    simp [Dispatcher.pollSlot]
  | abort =>
    refine ⟨_, rfl, h.removeInFlight _, ?_⟩
    simp [Dispatcher.pollSlot]
  | release =>
    refine ⟨_, rfl, h.release hp hown, ?_⟩
    simp [Dispatcher.pollSlot]
  | hit | wait | ack | term => exact ⟨E, rfl, h, rfl⟩

/-- An access of a dispatch of the agent does the same in both. -/
theorem poll (h : Mirrors d.agent owner f D E)
    (hstates : ∀ p, D.permitsOf d.agent = some p → p < D.semaphores.length)
    (hs : ∀ p, s.semaphore = some p → p < D.semaphores.length ∧ owner p = d.agent)
    (hagree : ∀ p < D.semaphores.length, owner' p = owner p)
    (hs' : ∀ p, s'.semaphore = some p → owner' p = d.agent)
    (hpoll : D.poll C d o s = some (D', s', effects)) :
    ∃ f' E', E.poll C d o (s.rename f) = some (E', s'.rename f', effects) ∧
      Mirrors d.agent owner' f' D' E' ∧ ∀ p < D.semaphores.length, f' p = f p := by
  cases s with
  | received =>
    simp only [Dispatcher.poll, Option.some.injEq, Prod.mk.injEq] at hpoll
    obtain ⟨rfl, rfl, rfl⟩ := hpoll
    have hrename : (D.gate C d).1.rename f = (D.gate C d).1 := by
      have hgate := polls_gate C D d o
      generalize (D.gate C d).1 = stage at hgate
      generalize (D.gate C d).2 = effects at hgate
      cases hgate <;> rfl
    refine ⟨f, E, ?_, h.congr hagree, fun _ _ => rfl⟩
    rw [hrename]
    simp only [Stage.rename, Dispatcher.poll, h.gate_eq]
  | rejected =>
    cases hpoll
    exact ⟨f, E, rfl, h.congr hagree, fun _ _ => rfl⟩
  | configured job =>
    simp only [Dispatcher.poll, Option.some.injEq, Prod.mk.injEq] at hpoll
    obtain ⟨rfl, rfl, rfl⟩ := hpoll
    obtain ⟨f', hboth, hsame, hf'⟩ := h.ensureState hstates hagree (hs' _ rfl)
    refine ⟨f', _, ?_, hboth, hf'⟩
    simp only [Stage.rename, Dispatcher.poll, hsame]
  | waiting job p =>
    obtain ⟨heap, hheap, heq⟩ := Option.map_eq_some_iff.mp hpoll
    simp only [Prod.mk.injEq] at heq
    obtain ⟨rfl, rfl, rfl⟩ := heq
    obtain ⟨hp, hown⟩ := hs p rfl
    obtain ⟨heap', hacq, hlen, hboth⟩ := h.tryAcquire hp hown hheap
    refine ⟨f, _, ?_, hboth.congr fun q hq => hagree q (hlen ▸ hq), fun _ _ => rfl⟩
    simp only [Stage.rename, Dispatcher.poll, hacq, Option.map_some]
  | slot job p phase =>
    simp only [Dispatcher.poll, Option.some.injEq, Prod.mk.injEq] at hpoll
    obtain ⟨rfl, rfl, rfl⟩ := hpoll
    obtain ⟨hp, hown⟩ := hs p rfl
    obtain ⟨E', hE, hboth, hlen⟩ := h.pollSlot o job hp hown phase
    refine ⟨f, E', ?_, hboth.congr fun q hq => hagree q (hlen ▸ hq), fun _ _ => rfl⟩
    simp only [Stage.rename, Dispatcher.poll, hE]
    cases (D.pollSlot d o job p phase).2.1 <;> rfl
  | finished => cases hpoll

/-- A dispatch of the agent is blocked in both or in none. -/
theorem isSome_poll (h : Mirrors d.agent owner f D E)
    (hs : ∀ p, s.semaphore = some p → p < D.semaphores.length ∧ owner p = d.agent) :
    (E.poll C d o (s.rename f)).isSome = (D.poll C d o s).isSome := by
  cases s with
  | waiting job p =>
    obtain ⟨hp, hown⟩ := hs p rfl
    simp only [Stage.rename, Dispatcher.poll, Semaphore.tryAcquire, h.getElem?_eq hp hown,
      Option.isSome_map]
    cases D.semaphores[p]? with
    | none => rfl
    | some sem => by_cases hpos : 0 < sem.available <;> simp [hpos]
  | _ => rfl

/-- A change of what the agent does not see. -/
theorem of_frame (h : Mirrors agent owner f D E)
    (hregistry : D'.registry.get agent = D.registry.get agent)
    (hrows : D'.dedup.rows.filter (CompletedEvent.isOf agent) =
      D.dedup.rows.filter (CompletedEvent.isOf agent))
    (hstate : D'.states agent = D.states agent)
    (hagree : ∀ p < D.semaphores.length, owner' p = owner p)
    (hheap : ∀ p, owner' p = agent → p < D'.semaphores.length →
      p < D.semaphores.length ∧ D'.semaphores[p]? = D.semaphores[p]?) :
    Mirrors agent owner' f D' E where
  registry := h.registry.trans hregistry.symm
  rows := h.rows.trans hrows.symm
  state := h.state.trans (by rw [hstate])
  heap p sem hp hown := by
    obtain ⟨hlt, hsame⟩ := hheap p hown (List.getElem?_eq_some_iff.mp hp).1
    exact h.heap p sem (hsame ▸ hp) ((hagree p hlt).symm.trans hown)
  inj p q hp hq hop hoq := by
    obtain ⟨hp', -⟩ := hheap p hop hp
    obtain ⟨hq', -⟩ := hheap q hoq hq
    exact h.inj p q hp' hq' ((hagree p hp').symm.trans hop) ((hagree q hq').symm.trans hoq)

/-- `ensure_state` for another agent. -/
theorem ensureState_of_ne (h : Mirrors agent owner f D E) {other : AgentId} (hne : other ≠ agent)
    (hagree : ∀ p < D.semaphores.length, owner' p = owner p) {n : UInt32}
    (hnew : owner' (D.ensureState other n).2 = other) :
    Mirrors agent owner' f (D.ensureState other n).1 E := by
  refine h.of_frame (by simp) (by simp) ?_ hagree ?_
  · unfold Dispatcher.ensureState
    cases D.states other with
    | some st => rfl
    | none => exact Function.update_of_ne hne.symm ..
  · intro p hown hp
    rcases D.ensureState_cases other n with ⟨-, hsem⟩ | ⟨-, hlen, hsem⟩
    · rw [hsem] at hp ⊢
      exact ⟨hp, rfl⟩
    · rw [hsem, List.length_append, List.length_singleton] at hp
      have hlt : p < D.semaphores.length := by
        by_contra hge
        obtain rfl : p = D.semaphores.length := by omega
        rw [hlen, hown] at hnew
        exact hne hnew.symm
      rw [hsem, List.getElem?_append_left hlt]
      exact ⟨hlt, rfl⟩

/-- An access of a dispatch of another agent. -/
theorem poll_of_ne (h : Mirrors agent owner f D E) (hne : d.agent ≠ agent)
    (hs : ∀ p, s.semaphore = some p → p < D.semaphores.length ∧ owner p = d.agent)
    (hagree : ∀ p < D.semaphores.length, owner' p = owner p)
    (hs' : ∀ p, s'.semaphore = some p → owner' p = d.agent)
    (hpoll : Polls C D d o s D' s' effects) : Mirrors agent owner' f D' E := by
  -- a semaphore that another agent acquires or releases is not in sight
  have hset : ∀ (p : ℕ) (sem : Semaphore), s.semaphore = some p → ∀ q, owner' q = agent →
      q < (D.semaphores.set p sem).length →
      q < D.semaphores.length ∧ (D.semaphores.set p sem)[q]? = D.semaphores[q]? := by
    intro p sem hp q hown hq
    rw [List.length_set] at hq
    refine ⟨hq, List.getElem?_set_ne ?_⟩
    rintro rfl
    have howned := (hs p hp).2
    rw [← hagree p hq, hown] at howned
    exact hne howned.symm
  have hkeep : ∀ q, owner' q = agent → q < D.semaphores.length →
      q < D.semaphores.length ∧ D.semaphores[q]? = D.semaphores[q]? := fun q _ hq => ⟨hq, rfl⟩
  have hremove : ∀ event, Mirrors agent owner' f (D.removeInFlight d.agent event) E := by
    intro event
    refine h.of_frame (by simp) (by simp) ?_ hagree (by simp)
    unfold Dispatcher.removeInFlight
    cases D.states d.agent with
    | some st => exact Function.update_of_ne hne.symm ..
    | none => rfl
  cases hpoll with
  | ensure => exact h.ensureState_of_ne hne hagree (hs' _ rfl)
  | acquire hacq =>
    obtain ⟨sem, -, -, rfl⟩ := Semaphore.tryAcquire_eq_some_iff.mp hacq
    exact h.of_frame rfl rfl rfl hagree (hset _ _ rfl)
  | enter =>
    exact h.of_frame rfl rfl (Function.update_of_ne hne.symm ..) hagree hkeep
  | mark => exact h.of_frame rfl (DedupStore.filter_markCompleted_of_ne hne) rfl hagree hkeep
  | remove => exact hremove _
  | abort => exact hremove _
  | @release job p =>
    obtain ⟨sem, hsem⟩ : ∃ sem, D.semaphores[p]? = some sem :=
      ⟨_, List.getElem?_eq_getElem (hs p rfl).1⟩
    rw [Semaphore.release_of_some hsem]
    exact h.of_frame rfl rfl rfl hagree (hset _ _ rfl)
  | _ => exact h.congr hagree

/-- An access of a call of the agent does the same in both. -/
theorem pollAvailable (h : Mirrors agent owner f D E) {c c' : CallStage}
    (hstates : ∀ p, D.permitsOf agent = some p → p < D.semaphores.length)
    (hc : ∀ p, c = .counting p → p < D.semaphores.length ∧ owner p = agent)
    (hagree : ∀ p < D.semaphores.length, owner' p = owner p)
    (hc' : ∀ p, c' = .counting p → owner' p = agent)
    (hpoll : D.pollAvailable agent c = some (D', c')) :
    ∃ f' E', E.pollAvailable agent (c.rename f) = some (E', c'.rename f') ∧
      Mirrors agent owner' f' D' E' ∧ ∀ p < D.semaphores.length, f' p = f p := by
  cases c with
  | start =>
    refine ⟨f, E, ?_, ?_, fun _ _ => rfl⟩
    · simp only [Dispatcher.pollAvailable, CallStage.rename, h.registry] at hpoll ⊢
      split at hpoll
      · split at hpoll
        · rename_i hen
          cases hpoll
          rw [if_pos hen]
        · rename_i hen
          cases hpoll
          rw [if_neg hen]
      · cases hpoll
        rfl
    · have hsame : D' = D := by
        have hcall := callPolls_of_poll hpoll
        cases hcall <;> rfl
      rw [hsame]
      exact h.congr hagree
  | configured config =>
    simp only [Dispatcher.pollAvailable, Option.some.injEq, Prod.mk.injEq] at hpoll
    obtain ⟨rfl, rfl⟩ := hpoll
    obtain ⟨f', hboth, hsame, hf'⟩ := h.ensureState hstates hagree (hc' _ rfl)
    refine ⟨f', _, ?_, hboth, hf'⟩
    simp only [CallStage.rename, Dispatcher.pollAvailable, hsame]
  | counting p =>
    simp only [Dispatcher.pollAvailable, Option.some.injEq, Prod.mk.injEq] at hpoll
    obtain ⟨rfl, rfl⟩ := hpoll
    obtain ⟨hp, hown⟩ := hc p rfl
    refine ⟨f, E, ?_, h.congr hagree, fun _ _ => rfl⟩
    simp only [CallStage.rename, Dispatcher.pollAvailable, availablePermits, h.getElem?_eq hp hown]
  | done slots => cases hpoll

/-- An access of a call of another agent. -/
theorem pollAvailable_of_ne (h : Mirrors agent owner f D E) {other : AgentId} (hne : other ≠ agent)
    {c c' : CallStage} (hagree : ∀ p < D.semaphores.length, owner' p = owner p)
    (hc' : ∀ p, c' = .counting p → owner' p = other) (hpoll : CallPolls D other c D' c') :
    Mirrors agent owner' f D' E := by
  cases hpoll with
  | ensure => exact h.ensureState_of_ne hne hagree (hc' _ rfl)
  | _ => exact h.congr hagree

/-- The application of changes, of which the agent sees its own. -/
theorem applyChanges (h : Mirrors agent owner f D E) (changes : List Change) :
    Mirrors agent owner f (D.applyChanges changes)
      (E.applyChanges (changes.filter (Change.isOf agent))) where
  registry := h.registry
  rows := h.rows
  state := by
    have hmem : agent ∈ (changes.filter (Change.isOf agent)).map Change.agentId ↔
        agent ∈ changes.map Change.agentId := by
      simp only [List.mem_map, List.mem_filter, Change.isOf, beq_iff_eq]
      constructor
      · rintro ⟨ch, ⟨hch, -⟩, hag⟩
        exact ⟨ch, hch, hag⟩
      · rintro ⟨ch, hch, hag⟩
        exact ⟨ch, ⟨hch, hag⟩, hag⟩
    rw [states_applyChanges, states_applyChanges, h.state]
    simp only [hmem]
    split <;> rfl
  heap := h.heap
  inj := h.inj

end Dispatcher.Mirrors

/-- The heap of semaphores only grows. -/
theorem Polls.length_le (h : Polls C D d o s D' s' effects) :
    D.semaphores.length ≤ D'.semaphores.length := by
  rcases h.permit_cases with ⟨-, hsem⟩ | ⟨n, -, hsem⟩ | ⟨permits, -, -, hacq⟩ |
    ⟨permits, -, -, hsem⟩
  · rw [hsem]
  · rw [hsem, List.length_append]
    omega
  · rw [Semaphore.length_tryAcquire hacq]
  · rw [hsem, Semaphore.length_release]

/-- An access of a call keeps the semaphores of different agents apart, and the call counts the
permits of its agent's semaphore. -/
theorem OwnedBy.pollCall {owner : ℕ → AgentId} {tasks : List Task} (h : OwnedBy owner D tasks)
    {c c' : CallStage} (hpoll : CallPolls D agent c D' c') :
    ∃ owner', OwnedBy owner' D' tasks ∧ (∀ p < D.semaphores.length, owner' p = owner p) ∧
      D.semaphores.length ≤ D'.semaphores.length ∧
      ∀ p, c' = .counting p → p < D'.semaphores.length ∧ owner' p = agent := by
  cases hpoll with
  | @ensure config =>
    obtain ⟨owner', howned, hagree, hlt, hnew⟩ := h.ensureState agent config.maxConcurrency
    refine ⟨owner', howned, hagree, ?_, ?_⟩
    · rcases D.ensureState_cases agent config.maxConcurrency with ⟨-, hsem⟩ | ⟨-, -, hsem⟩ <;>
        simp [hsem]
    · intro p hp
      cases hp
      exact ⟨hlt, hnew⟩
  | unavailable => exact ⟨owner, h, fun _ _ => rfl, le_refl _, nofun⟩
  | configure => exact ⟨owner, h, fun _ _ => rfl, le_refl _, nofun⟩
  | count => exact ⟨owner, h, fun _ _ => rfl, le_refl _, nofun⟩

/-! ## What the agent sees of the world -/

/-- `v` is what the agent sees of `w`: its shared state, its dispatches and calls in the same order,
and its part of the history. -/
structure World.Mirrors (agent : AgentId) (owner : ℕ → AgentId) (f : ℕ → ℕ) (w v : World) :
    Prop where
  dispatcher : w.dispatcher.Mirrors agent owner f v.dispatcher
  owned : OwnedBy owner w.dispatcher w.tasks
  counted : ∀ call ∈ w.calls, call.agent = agent → ∀ p, call.stage = .counting p →
    p < w.dispatcher.semaphores.length ∧ owner p = agent
  tasks : v.tasks = (w.tasks.filter (Task.isOf agent)).map (Task.rename f)
  calls : v.calls = (w.calls.filter (Call.isOf agent)).map (Call.rename f)
  trace : v.trace.map Emission.content =
    (w.trace.filter (Emission.isOf agent)).map Emission.content

namespace World.Mirrors

variable {owner owner' : ℕ → AgentId} {f f' : ℕ → ℕ}

/-- Two processes without a semaphore whose registries agree on the agent. -/
theorem fresh {registry registry' : Registry} {dedup dedup' : DedupStore}
    {trace trace' : List Emission} (hregistry : registry'.get agent = registry.get agent)
    (hrows : dedup'.rows.filter (CompletedEvent.isOf agent) =
      dedup.rows.filter (CompletedEvent.isOf agent))
    (htrace : trace'.map Emission.content =
      (trace.filter (Emission.isOf agent)).map Emission.content) :
    World.Mirrors agent owner f ⟨⟨registry, dedup, fun _ => none, []⟩, [], [], trace⟩
      ⟨⟨registry', dedup', fun _ => none, []⟩, [], [], trace'⟩ where
  dispatcher := ⟨hregistry, hrows, rfl, by simp, by simp⟩
  owned := by
    refine ⟨fun a p hp => ?_, fun i task p hi => by simp at hi⟩
    cases hp
  counted call hcall := by cases hcall
  tasks := rfl
  calls := rfl
  trace := htrace

/-- The dispatches look the same under a renaming that agrees on the existing semaphores. -/
theorem tasks_eq (h : w.Mirrors agent owner f v)
    (hf : ∀ p < w.dispatcher.semaphores.length, f' p = f p) :
    v.tasks = (w.tasks.filter (Task.isOf agent)).map (Task.rename f') := by
  rw [h.tasks]
  refine List.map_congr_left fun task hmem => ?_
  obtain ⟨i, hi⟩ := List.mem_iff_getElem?.mp (List.mem_filter.mp hmem).1
  have hsame : task.stage.rename f = task.stage.rename f' :=
    Stage.rename_congr fun p hp => (hf p (h.owned.task i task p hi hp).1).symm
  simp only [Task.rename, hsame]

/-- So do the calls. -/
theorem calls_eq (h : w.Mirrors agent owner f v)
    (hf : ∀ p < w.dispatcher.semaphores.length, f' p = f p) :
    v.calls = (w.calls.filter (Call.isOf agent)).map (Call.rename f') := by
  rw [h.calls]
  refine List.map_congr_left fun call hmem => ?_
  obtain ⟨hcall, hag⟩ := List.mem_filter.mp hmem
  obtain ⟨other, stage⟩ := call
  cases stage with
  | counting p =>
    have hlt := (h.counted _ hcall (beq_iff_eq.mp hag) p rfl).1
    simp only [Call.rename, CallStage.rename, hf p hlt]
  | _ => rfl

/-- The calls keep counting permits of the agent. -/
theorem counted_mono (h : w.Mirrors agent owner f v)
    (hagree : ∀ p < w.dispatcher.semaphores.length, owner' p = owner p)
    (hlen : w.dispatcher.semaphores.length ≤ D'.semaphores.length) :
    ∀ call ∈ w.calls, call.agent = agent → ∀ p, call.stage = .counting p →
      p < D'.semaphores.length ∧ owner' p = agent := by
  intro call hcall hag p hp
  obtain ⟨hlt, hown⟩ := h.counted call hcall hag p hp
  exact ⟨hlt.trans_le hlen, (hagree p hlt).trans hown⟩

/-- A poll of a dispatch of the agent is answered by the same poll. -/
theorem poll_self (h : w.Mirrors d.agent owner f v) (htask : w.tasks[t]? = some ⟨d, s⟩)
    (hpoll : w.dispatcher.poll C d o s = some (D', s', effects)) :
    ∃ owner' f' v', (w.commit t ⟨d, s⟩ D' s' effects).Mirrors d.agent owner' f' v' ∧
      World.step C v (.poll (rank (Task.isOf d.agent) w.tasks t) o) = some v' := by
  have hpolls := polls_of_poll hpoll
  obtain ⟨owner', howned, hagree⟩ := h.owned.poll htask hpolls
  have hstates : ∀ p, w.dispatcher.permitsOf d.agent = some p →
      p < w.dispatcher.semaphores.length := fun p hp => (h.owned.state _ p hp).1
  have hs : ∀ p, s.semaphore = some p →
      p < w.dispatcher.semaphores.length ∧ owner p = d.agent := fun p hp =>
    h.owned.task t _ p htask hp
  have hs' : ∀ p, s'.semaphore = some p → owner' p = d.agent := fun p hp =>
    (howned.task t _ p (getElem?_set_self_of_mem htask) hp).2
  obtain ⟨f', E', hE, hboth, hf'⟩ := h.dispatcher.poll hstates hs hagree hs' hpoll
  have hmine : Task.isOf d.agent ⟨d, s⟩ = true := beq_self_eq_true d.agent
  have hmine' : Task.isOf d.agent ⟨d, s'⟩ = true := beq_self_eq_true d.agent
  have hv : v.tasks[rank (Task.isOf d.agent) w.tasks t]? = some ⟨d, s.rename f⟩ := by
    rw [h.tasks, List.getElem?_map, getElem?_filter_rank htask hmine]
    rfl
  refine ⟨owner', f', v.commit (rank (Task.isOf d.agent) w.tasks t) ⟨d, s.rename f⟩ E'
    (s'.rename f') effects, ⟨hboth, howned, ?_, ?_, ?_, ?_⟩, ?_⟩
  · exact h.counted_mono hagree hpolls.length_le
  · change v.tasks.set _ _ = ((w.tasks.set t ⟨d, s'⟩).filter _).map _
    rw [h.tasks_eq hf', filter_set_rank htask hmine hmine', List.map_set]
    rfl
  · exact h.calls_eq hf'
  · have hnew : ∀ i, (effects.map fun effect => (⟨i, d, effect⟩ : Emission)).map Emission.content =
        effects.map fun effect => (d, effect) := by
      intro i
      simp [Emission.content]
    have hall : (effects.map fun effect => (⟨t, d, effect⟩ : Emission)).filter
        (Emission.isOf d.agent) = effects.map fun effect => ⟨t, d, effect⟩ := by
      simp [List.filter_eq_self, Emission.isOf]
    simp only [World.commit, List.map_append, List.filter_append, hall, hnew, h.trace]
  · simp only [World.step, hv, hE, Option.bind_eq_bind, Option.bind_some]
    rfl

/-- A dispatch of the agent can go on in both worlds or in none. -/
theorem isSome_step (h : w.Mirrors agent owner f v)
    (ht : w.tasks[t]?.any (Task.isOf agent) = true) :
    (World.step C v (.poll (rank (Task.isOf agent) w.tasks t) o)).isSome =
      (World.step C w (.poll t o)).isSome := by
  obtain ⟨⟨d, s⟩, htask, hmine⟩ := (Option.any_eq_true _ _).mp ht
  obtain rfl : d.agent = agent := beq_iff_eq.mp hmine
  have hs : ∀ p, s.semaphore = some p →
      p < w.dispatcher.semaphores.length ∧ owner p = d.agent := fun p hp =>
    h.owned.task t _ p htask hp
  have hv : v.tasks[rank (Task.isOf d.agent) w.tasks t]? = some ⟨d, s.rename f⟩ := by
    rw [h.tasks, List.getElem?_map, getElem?_filter_rank htask hmine]
    rfl
  have hpoll := h.dispatcher.isSome_poll (C := C) (o := o) hs
  simp only [World.step, hv, htask, Option.bind_eq_bind, Option.bind_some]
  cases hD : w.dispatcher.poll C d o s <;> cases hE : v.dispatcher.poll C d o (s.rename f) <;>
    simp_all

/-- A poll of a dispatch of another agent is answered by nothing. -/
theorem poll_other (h : w.Mirrors agent owner f v) (hne : d.agent ≠ agent)
    (htask : w.tasks[t]? = some ⟨d, s⟩) (hpoll : Polls C w.dispatcher d o s D' s' effects) :
    ∃ owner', (w.commit t ⟨d, s⟩ D' s' effects).Mirrors agent owner' f v := by
  obtain ⟨owner', howned, hagree⟩ := h.owned.poll htask hpoll
  have hs : ∀ p, s.semaphore = some p →
      p < w.dispatcher.semaphores.length ∧ owner p = d.agent := fun p hp =>
    h.owned.task t _ p htask hp
  have hs' : ∀ p, s'.semaphore = some p → owner' p = d.agent := fun p hp =>
    (howned.task t _ p (getElem?_set_self_of_mem htask) hp).2
  refine ⟨owner', h.dispatcher.poll_of_ne hne hs hagree hs' hpoll, howned, ?_, ?_, h.calls, ?_⟩
  · exact h.counted_mono hagree hpoll.length_le
  · change v.tasks = ((w.tasks.set t ⟨d, s'⟩).filter _).map _
    rw [h.tasks, filter_set_of_neg htask]
    · exact beq_eq_false_iff_ne.mpr hne
    · exact beq_eq_false_iff_ne.mpr hne
  · have hnone : (effects.map fun effect => (⟨t, d, effect⟩ : Emission)).filter
        (Emission.isOf agent) = [] := by
      simp [List.filter_eq_nil_iff, Emission.isOf, hne]
    simp only [World.commit, List.filter_append, hnone, List.nil_append, h.trace]

/-- A poll of a call of the agent is answered by the same poll. -/
theorem pollCall_self (h : w.Mirrors agent owner f v) {c : ℕ} {stage stage' : CallStage}
    (hcall : w.calls[c]? = some ⟨agent, stage⟩)
    (hpoll : w.dispatcher.pollAvailable agent stage = some (D', stage')) :
    ∃ owner' f' v', ({ w with dispatcher := D', calls := w.calls.set c ⟨agent, stage'⟩ } :
        World).Mirrors agent owner' f' v' ∧
      World.step C v (.pollCall (rank (Call.isOf agent) w.calls c)) = some v' := by
  have hpolls := callPolls_of_poll hpoll
  obtain ⟨owner', howned, hagree, hlen, hnew⟩ := h.owned.pollCall hpolls
  have hstates : ∀ p, w.dispatcher.permitsOf agent = some p →
      p < w.dispatcher.semaphores.length := fun p hp => (h.owned.state _ p hp).1
  have hc : ∀ p, stage = .counting p → p < w.dispatcher.semaphores.length ∧ owner p = agent :=
    h.counted _ (List.mem_of_getElem? hcall) rfl
  have hc' : ∀ p, stage' = .counting p → owner' p = agent := fun p hp => (hnew p hp).2
  obtain ⟨f', E', hE, hboth, hf'⟩ := h.dispatcher.pollAvailable hstates hc hagree hc' hpoll
  have hmine : ∀ stage, Call.isOf agent ⟨agent, stage⟩ = true := fun _ => beq_self_eq_true agent
  have hv : v.calls[rank (Call.isOf agent) w.calls c]? = some ⟨agent, stage.rename f⟩ := by
    rw [h.calls, List.getElem?_map, getElem?_filter_rank hcall (hmine _)]
    rfl
  refine ⟨owner', f', { v with
    dispatcher := E'
    calls := v.calls.set (rank (Call.isOf agent) w.calls c) ⟨agent, stage'.rename f'⟩ },
    ⟨hboth, howned, ?_, h.tasks_eq hf', ?_, h.trace⟩, ?_⟩
  · intro call hmem hag p hp
    rcases List.mem_or_eq_of_mem_set hmem with hold | rfl
    · exact h.counted_mono hagree hlen call hold hag p hp
    · exact hnew p hp
  · change v.calls.set _ _ = ((w.calls.set c ⟨agent, stage'⟩).filter _).map _
    rw [h.calls_eq hf', filter_set_rank hcall (hmine _) (hmine _), List.map_set]
    rfl
  · simp only [World.step, hv, hE, Option.bind_eq_bind, Option.bind_some]
    rfl

/-- A poll of a call of another agent is answered by nothing. -/
theorem pollCall_other (h : w.Mirrors agent owner f v) {other : AgentId} (hne : other ≠ agent)
    {c : ℕ} {stage stage' : CallStage} (hcall : w.calls[c]? = some ⟨other, stage⟩)
    (hpoll : CallPolls w.dispatcher other stage D' stage') :
    ∃ owner', ({ w with dispatcher := D', calls := w.calls.set c ⟨other, stage'⟩ } :
      World).Mirrors agent owner' f v := by
  obtain ⟨owner', howned, hagree, hlen, hnew⟩ := h.owned.pollCall hpoll
  have hc' : ∀ p, stage' = .counting p → owner' p = other := fun p hp => (hnew p hp).2
  have hother : ∀ stage, Call.isOf agent ⟨other, stage⟩ = false := fun _ =>
    beq_eq_false_iff_ne.mpr hne
  refine ⟨owner', h.dispatcher.pollAvailable_of_ne hne hagree hc' hpoll, howned, ?_, h.tasks, ?_,
    h.trace⟩
  · intro call hmem hag p hp
    rcases List.mem_or_eq_of_mem_set hmem with hold | rfl
    · exact h.counted_mono hagree hlen call hold hag p hp
    · exact absurd hag hne
  · change v.calls = ((w.calls.set c ⟨other, stage'⟩).filter _).map _
    rw [h.calls, filter_set_of_neg hcall (hother _) (hother _)]

/-- A step is answered by what is left of its action. -/
theorem step (h : w.Mirrors agent owner f v) {a : Action} (base : Registry)
    (hstep : World.step C w a = some w') :
    ∃ owner' f' v', w'.Mirrors agent owner' f' v' ∧
      (a.isolate agent base w).elim (v' = v) fun b => World.step C v b = some v' := by
  cases a with
  | deliver d =>
    cases hstep
    have howned : OwnedBy owner w.dispatcher (w.tasks ++ [⟨d, .received⟩]) := by
      refine ⟨h.owned.state, fun i task p hi hp => ?_⟩
      rcases getElem?_append_cases hi with ⟨-, rfl⟩ | hi
      · cases hp
      · exact h.owned.task i task p hi hp
    by_cases hag : d.agent = agent
    · refine ⟨owner, f, { v with tasks := v.tasks ++ [⟨d, .received⟩] },
        ⟨h.dispatcher, howned, h.counted, ?_, h.calls, h.trace⟩,
        by simp [Action.isolate, hag, World.step]⟩
      simp [h.tasks, List.filter_append, Task.isOf, hag, Task.rename, Stage.rename]
    · refine ⟨owner, f, v, ⟨h.dispatcher, howned, h.counted, ?_, h.calls, h.trace⟩,
        by simp [Action.isolate, hag]⟩
      simp [h.tasks, List.filter_append, Task.isOf, hag]
  | poll t o =>
    simp only [World.step, Option.bind_eq_bind, Option.bind_eq_some_iff] at hstep
    obtain ⟨⟨d, s⟩, htask, ⟨D', s', effects⟩, hpoll, hw⟩ := hstep
    obtain rfl : w.commit t ⟨d, s⟩ D' s' effects = w' := by simpa using hw
    by_cases hag : d.agent = agent
    · subst hag
      obtain ⟨owner', f', v', hboth, hv⟩ := h.poll_self htask hpoll
      exact ⟨owner', f', v', hboth, by simpa [Action.isolate, htask, Task.isOf] using hv⟩
    · obtain ⟨owner', hboth⟩ := h.poll_other hag htask (polls_of_poll hpoll)
      exact ⟨owner', f, v, hboth, by simp [Action.isolate, htask, Task.isOf, hag]⟩
  | call a =>
    cases hstep
    have hcounted : ∀ call ∈ w.calls ++ [⟨a, .start⟩], call.agent = agent →
        ∀ p, call.stage = .counting p →
          p < w.dispatcher.semaphores.length ∧ owner p = agent := by
      intro call hmem hag p hp
      rcases List.mem_append.mp hmem with hold | hnew
      · exact h.counted call hold hag p hp
      · obtain rfl := List.mem_singleton.mp hnew
        cases hp
    by_cases hag : a = agent
    · refine ⟨owner, f, { v with calls := v.calls ++ [⟨a, .start⟩] },
        ⟨h.dispatcher, h.owned, hcounted, h.tasks, ?_, h.trace⟩, ?_⟩
      · simp [h.calls, List.filter_append, Call.isOf, hag, Call.rename, CallStage.rename]
      · simp [Action.isolate, hag, World.step]
    · refine ⟨owner, f, v, ⟨h.dispatcher, h.owned, hcounted, h.tasks, ?_, h.trace⟩, ?_⟩
      · simp [h.calls, List.filter_append, Call.isOf, hag]
      · simp [Action.isolate, hag]
  | pollCall c =>
    simp only [World.step, Option.bind_eq_bind, Option.bind_eq_some_iff] at hstep
    obtain ⟨⟨other, stage⟩, hcall, ⟨D', stage'⟩, hpoll, hw⟩ := hstep
    obtain rfl : { w with dispatcher := D', calls := w.calls.set c ⟨other, stage'⟩ } = w' := by
      simpa using hw
    by_cases hag : other = agent
    · subst hag
      obtain ⟨owner', f', v', hboth, hv⟩ := h.pollCall_self hcall hpoll
      exact ⟨owner', f', v', hboth, by simpa [Action.isolate, hcall, Call.isOf] using hv⟩
    · obtain ⟨owner', hboth⟩ := h.pollCall_other hag hcall (callPolls_of_poll hpoll)
      exact ⟨owner', f, v, hboth, by simp [Action.isolate, hcall, Call.isOf, hag]⟩
  | setRegistry registry =>
    cases hstep
    have howned : OwnedBy owner { w.dispatcher with registry } w.tasks :=
      ⟨h.owned.state, h.owned.task⟩
    have hdispatcher : ∀ registry' : Registry, registry'.get agent = registry.get agent →
        ({ w.dispatcher with registry } : Dispatcher).Mirrors agent owner f
          { v.dispatcher with registry := registry' } := fun registry' hget =>
      ⟨hget, h.dispatcher.rows, h.dispatcher.state, h.dispatcher.heap, h.dispatcher.inj⟩
    by_cases hsame : registry.get agent = w.dispatcher.registry.get agent
    · have hget : v.dispatcher.registry.get agent = registry.get agent :=
        h.dispatcher.registry.trans hsame.symm
      refine ⟨owner, f, v, ⟨hdispatcher _ hget, howned, h.counted, h.tasks, h.calls, h.trace⟩, ?_⟩
      simp only [Action.isolate, if_pos hsame, Option.elim_none]
    · have hget := Registry.get_withEntry base registry agent
      refine ⟨owner, f,
        { v with dispatcher := { v.dispatcher with registry := base.withEntry registry agent } },
        ⟨hdispatcher _ hget, howned, h.counted, h.tasks, h.calls, h.trace⟩, ?_⟩
      simp only [Action.isolate, if_neg hsame, Option.elim_some, World.step]
  | applyChanges changes =>
    cases hstep
    have hboth := h.dispatcher.applyChanges changes
    have howned : OwnedBy owner (w.dispatcher.applyChanges changes) w.tasks := by
      refine ⟨fun a p hp => ?_, h.owned.task⟩
      rw [Dispatcher.permitsOf_applyChanges] at hp
      split at hp
      · cases hp
      · exact h.owned.state a p hp
    by_cases hnil : changes.filter (Change.isOf agent) = []
    · rw [hnil] at hboth
      refine ⟨owner, f, v, ⟨hboth, howned, h.counted, h.tasks, h.calls, h.trace⟩, ?_⟩
      simp only [Action.isolate, if_pos hnil, Option.elim_none]
    · refine ⟨owner, f,
        { v with dispatcher := v.dispatcher.applyChanges (changes.filter (Change.isOf agent)) },
        ⟨hboth, howned, h.counted, h.tasks, h.calls, h.trace⟩, ?_⟩
      simp only [Action.isolate, if_neg hnil, Option.elim_some, World.step]
  | purge now ttl =>
    cases hstep
    have hrows := DedupStore.filter_purgeExpired now ttl h.dispatcher.rows
    have howned : OwnedBy owner { w.dispatcher with
        dedup := (w.dispatcher.dedup.purgeExpired now ttl).1 } w.tasks :=
      ⟨h.owned.state, h.owned.task⟩
    have hboth : ({ w.dispatcher with
        dedup := (w.dispatcher.dedup.purgeExpired now ttl).1 } : Dispatcher).Mirrors agent owner f
          { v.dispatcher with dedup := (v.dispatcher.dedup.purgeExpired now ttl).1 } :=
      ⟨h.dispatcher.registry, hrows, h.dispatcher.state, h.dispatcher.heap, h.dispatcher.inj⟩
    exact ⟨owner, f,
      { v with dispatcher :=
        { v.dispatcher with dedup := (v.dispatcher.dedup.purgeExpired now ttl).1 } },
      ⟨hboth, howned, h.counted, h.tasks, h.calls, h.trace⟩, rfl⟩
  | restart registry now ttl =>
    cases hstep
    have hrows := DedupStore.filter_purgeExpired now ttl h.dispatcher.rows
    have hget := Registry.get_withEntry base registry agent
    exact ⟨owner, f, _, fresh hget hrows h.trace, rfl⟩

end World.Mirrors

/-! ## The isolated run -/

/-- A run is answered by what is left of it. -/
theorem World.Mirrors.run {owner : ℕ → AgentId} {f : ℕ → ℕ} (h : w.Mirrors agent owner f v)
    {as : List Action} (base : Registry)
    (hrun : (dispatchSystem C).exec (fun _ _ => True) w as = some w') :
    ∃ owner' f' v', w'.Mirrors agent owner' f' v' ∧
      (dispatchSystem C).exec (fun _ _ => True) v (isolate C agent base w as) = some v' := by
  induction as generalizing w v owner f with
  | nil =>
    obtain rfl : w = w' := by simpa using hrun
    exact ⟨owner, f, v, h, rfl⟩
  | cons a as ih =>
    simp only [exec, if_true, Option.bind_eq_some_iff] at hrun
    obtain ⟨w₁, hstep, hrest⟩ := hrun
    change World.step C w a = some w₁ at hstep
    obtain ⟨owner₁, f₁, v₁, h₁, hanswer⟩ := h.step base hstep
    obtain ⟨owner', f', v', h', hexec⟩ := ih h₁ hrest
    refine ⟨owner', f', v', h', ?_⟩
    simp only [isolate, hstep, Option.elim_some]
    cases hleft : a.isolate agent base w with
    | none =>
      rw [hleft] at hanswer
      obtain rfl : v₁ = v := hanswer
      exact hexec
    | some b =>
      rw [hleft] at hanswer
      have hb : (dispatchSystem C).step v b = some v₁ := hanswer
      simp only [Option.toList_some, List.singleton_append, exec, if_true, hb, Option.bind_some,
        hexec]

/-- Deleting from a run everything of the other agents leaves a run, in which the dispatches of the
agent stand where they stood and did, in the same order, what they did, and can go on exactly when
they could; only the numbers of the dispatches and of the semaphores differ. -/
theorem isolated_run {registry : Registry} {dedup : DedupStore} {as : List Action} (agent : AgentId)
    (hrun : (dispatchSystem C).exec (fun _ _ => True) (.start registry dedup) as = some w) :
    ∃ v, (dispatchSystem C).exec (fun _ _ => True) (.start registry dedup)
        (isolate C agent registry (.start registry dedup) as) = some v ∧
      v.tasks.map (Task.rename fun _ => 0) =
        (w.tasks.filter (Task.isOf agent)).map (Task.rename fun _ => 0) ∧
      v.trace.map Emission.content =
        (w.trace.filter (Emission.isOf agent)).map Emission.content ∧
      ∀ t o, w.tasks[t]?.any (Task.isOf agent) = true →
        (World.step C v (.poll (rank (Task.isOf agent) w.tasks t) o)).isSome =
          (World.step C w (.poll t o)).isSome := by
  have hstart : (World.start registry dedup).Mirrors agent (fun _ => agent) id
      (.start registry dedup) := World.Mirrors.fresh rfl rfl rfl
  obtain ⟨owner, f, v, h, hexec⟩ := hstart.run registry hrun
  refine ⟨v, hexec, ?_, h.trace, fun t o ht => h.isSome_step ht⟩
  rw [h.tasks, List.map_map]
  exact List.map_congr_left fun task _ => task.rename_rename_const f

namespace Sample

/-- The agent `b`. -/
def otherAgent : AgentId := ⟨"b", by decide⟩

/-- The event `e` of the agent `b`. -/
def otherText : String :=
  "\x7b\"version\":1,\"event_id\":\"e\",\"agent_id\":\"b\",\"type\":\"t\"," ++
    "\"created_at\":\"c\",\"payload\":null\x7d"

/-- The text parser, as far as the events `e` of both agents need it. -/
def twoAgents : DispatcherConfig where
  maxEventBytes := 262144
  fromSlice bytes :=
    if bytes == otherText.toUTF8.data.toList then
      .ok (.object [("version", .integer 1), ("event_id", .string "e"), ("agent_id", .string "b"),
        ("type", .string "t"), ("created_at", .string "c"), ("payload", .null)])
    else fromSlice bytes

/-- Both agents are registered. -/
def twoRegistered : Registry :=
  (registry config).withEntry (registry { config with agentId := otherAgent }) otherAgent

/-- The agent `b` handles its event `e` while an event `e` of the agent `a` arrives and is handled,
and is unregistered in between. -/
def sharedEventId : List Action :=
  [.deliver { delivery "e" with agent := otherAgent, raw := otherText.toUTF8.data.toList }] ++
    polls 0 6 ++ [.deliver (delivery "e")] ++ polls 1 6 ++
    [.setRegistry (registry config), .applyChanges [.removed otherAgent]] ++ polls 0 5 ++ polls 1 5

end Sample

theorem isolated_run_sharedEventId :
    ∃ w, (dispatchSystem Sample.twoAgents).exec (fun _ _ => True)
        (.start Sample.twoRegistered .empty) Sample.sharedEventId = some w ∧
      w.trace.map Emission.started = [none, none, none, none, none, none,
        some (Sample.agent, "e"), some (Sample.otherAgent, "e")] ∧
      ∃ v, (dispatchSystem Sample.twoAgents).exec (fun _ _ => True)
          (.start Sample.twoRegistered .empty)
          (isolate Sample.twoAgents Sample.agent Sample.twoRegistered
            (.start Sample.twoRegistered .empty) Sample.sharedEventId) = some v ∧
        v.trace.map Emission.content =
          (w.trace.filter (Emission.isOf Sample.agent)).map Emission.content := by
  have hrun : ((dispatchSystem Sample.twoAgents).exec (fun _ _ => True)
      (.start Sample.twoRegistered .empty) Sample.sharedEventId).any (fun w =>
        w.trace.map Emission.started == [none, none, none, none, none, none,
          some (Sample.agent, "e"), some (Sample.otherAgent, "e")]) = true := by
    decide +kernel
  obtain ⟨w, hw, hstarts⟩ := (Option.any_eq_true _ _).mp hrun
  obtain ⟨v, hv, -, htrace, -⟩ := isolated_run Sample.agent hw
  exact ⟨w, hw, beq_iff_eq.mp hstarts, v, hv, htrace⟩

end Agentd
