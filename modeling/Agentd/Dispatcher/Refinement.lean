import Agentd.Foundation.WorkPool
import Agentd.Dispatcher.Accounting

/-!
# The dispatcher is a pool of workers

For one agent, whose limit stays as it is and to which changes are applied only while none of its
dispatches has a semaphore (`World.SteadyFor`), the dispatcher does what a `WorkPool` with as many
workers as the limit says is allowed to do, with the event ids as jobs.  Other agents may do
anything, the store and the spawns may fail, rows may expire, and the daemon may crash.

What happens to the events of the agent (`World.poolEvents`) is read off the effects of the
dispatches, and there are three faults: a mark fails; the row of an event is deleted, or an
in-flight check passes although the store records the event, after a lookup that failed or came
before the mark; and the daemon crashes between the start of a handler and its mark.  `Matches`
relates the state of the dispatcher to that of the pool.

The handlers of an event then start at most once, and once more for each fault about the event: this
bounds the duplicates of an agent with any limit, where `starts_le_crashes` is about a serial one
and a store that does not fail. -/

namespace Agentd

open TransitionSystem TaskPool

variable {C : DispatcherConfig} {w w' : World} {D D' : Dispatcher} {agent : AgentId} {k : UInt32}
  {t : ℕ} {d : Delivery} {o : Outcome} {s s' : Stage} {effects : List Effect}
  {p p' : WorkPool String}

/-! ## What happens to the events of an agent -/

/-- What an effect says about its event. -/
def Effect.poolEvents : Effect → List (WorkPool.Event String)
  | .spawned event _ => [.started event]
  | .exited event _ => [.exited event]
  | .marked event ok => [if ok then .recorded event else .unrecorded event]
  | .acked event => [.acked event]
  | .invalidEvent _ | .unregistered | .disabled | .dedupHit _ | .duplicateDropped _ | .spawnFailed _
  | .termed => []

/-- The event of a dispatch of the agent that is in one of the phases `q`. -/
def Task.eventIn (agent : AgentId) (q : Phase → Bool) (task : Task) : Option String :=
  match task.stage with
  | .slot job _ phase =>
    if task.delivery.agent = agent ∧ q phase = true then some job.envelope.eventId else none
  | _ => none

/-- The next access of the dispatch is an in-flight check, which passes although the store records
the event. -/
def Dispatcher.passesRecorded (D : Dispatcher) (task : Task) : List (WorkPool.Event String) :=
  match task.stage with
  | .slot job _ .check =>
    if job.envelope.eventId ∉ D.inFlightIds task.delivery.agent ∧
        D.dedup.isCompleted task.delivery.agent job.envelope.eventId = true then
      [.forgotten job.envelope.eventId]
    else []
  | _ => []

/-- The event ids of the agent in the store. -/
def DedupStore.eventsOf (s : DedupStore) (agent : AgentId) : List String :=
  (s.rows.filter fun row => row.agentId = agent).map CompletedEvent.eventId

/-- The event ids of the agent whose rows a purge deletes. -/
def DedupStore.purgedOf (s : DedupStore) (agent : AgentId) (now ttl : UInt64) : List String :=
  (s.rows.filter fun row => row.agentId = agent ∧ row.completedAt < cutoff now ttl).map
    CompletedEvent.eventId

/-- A row that a purge does not delete is there after it. -/
theorem DedupStore.isCompleted_of_notMem_purgedOf {s : DedupStore} {now ttl : UInt64} {e : String}
    (h : s.isCompleted agent e = true) (hnot : e ∉ s.purgedOf agent now ttl) :
    (s.purgeExpired now ttl).1.isCompleted agent e = true := by
  obtain ⟨row, hrow, hkey⟩ := List.any_eq_true.mp h
  obtain ⟨hagent, hevent⟩ := Prod.mk.inj (beq_iff_eq.mp hkey)
  refine List.any_eq_true.mpr ⟨row, List.mem_filter.mpr ⟨hrow, ?_⟩, hkey⟩
  by_contra hexpired
  rw [Bool.not_eq_true', decide_eq_false_iff_not, not_not] at hexpired
  exact hnot (List.mem_map.mpr
    ⟨row, List.mem_filter.mpr ⟨hrow, by simp [hagent, hexpired]⟩, hevent⟩)

/-- The phases between the start of the handler and the mark. -/
def Phase.unmarkedStart : Phase → Bool
  | .wait | .mark => true
  | _ => false

/-- What an action does to the events of the agent. -/
def World.poolEvents (C : DispatcherConfig) (agent : AgentId) (w : World) :
    Action → List (WorkPool.Event String)
  | .poll t o =>
    w.tasks[t]?.elim [] fun task =>
      if task.delivery.agent = agent then
        w.dispatcher.passesRecorded task ++
          (w.dispatcher.poll C task.delivery o task.stage).elim [] fun x =>
            x.2.2.flatMap Effect.poolEvents
      else []
  | .purge now ttl => (w.dispatcher.dedup.purgedOf agent now ttl).map .forgotten
  | .restart _ now ttl =>
    (w.tasks.filterMap (Task.eventIn agent Phase.unmarkedStart)).map .abandoned ++
      (w.dispatcher.dedup.purgedOf agent now ttl).map .forgotten
  | .deliver _ | .call _ | .pollCall _ | .setRegistry _ | .applyChanges _ => []

/-- Changes of the registry leave the agent with the limit `k`, also over a crash, and changes are
not applied to the agent while a dispatch of it waits for or holds a permit. -/
def World.SteadyFor (agent : AgentId) (k : UInt32) (w : World) : Action → Prop
  | .setRegistry registry | .restart registry _ _ => registry.Limits agent k
  | .applyChanges changes => w.DetachedApply agent (.applyChanges changes)
  | _ => True

instance (agent : AgentId) (k : UInt32) (w : World) : DecidablePred (w.SteadyFor agent k)
  | .setRegistry registry | .restart registry _ _ =>
    inferInstanceAs (Decidable (registry.Limits agent k))
  | .applyChanges changes =>
    inferInstanceAs (Decidable (w.DetachedApply agent (.applyChanges changes)))
  | .deliver _ | .poll .. | .call _ | .pollCall _ | .purge .. => inferInstanceAs (Decidable True)

/-! ## The dispatcher and the pool -/

/-- The phases of a dispatch whose event has been handled, as far as it goes on to acknowledge it.
-/
def Phase.handled : Phase → Bool
  | .hit | .mark | .remove | .ack => true
  | _ => false

/-- The accounts of the agent. -/
structure Kept (agent : AgentId) (k : UInt32) (w : World) : Prop where
  claims : ClaimsOf agent w
  slots : OneSemaphore agent k w
  accounts : w.Accounts
  separate : w.Separate

/-- The state of the dispatcher, as far as it is about the agent, and the state of the pool. -/
structure Matches (agent : AgentId) (w : World) (p : WorkPool String) : Prop where
  /-- The running jobs are the events whose handlers run. -/
  running : ∀ e, e ∈ p.running ↔ e ∈ Owned (Task.eventIn agent (· == .wait)) w.tasks
  /-- The ended jobs are the events whose handlers have exited and that have not been marked. -/
  ended : ∀ e, e ∈ p.ended ↔ e ∈ Owned (Task.eventIn agent (· == .mark)) w.tasks
  /-- What the pool knows is recorded. -/
  known : ∀ e ∈ p.known, w.dispatcher.dedup.isCompleted agent e = true
  /-- The pool does not know an event whose handler is about to start. -/
  fresh : ∀ e ∈ Owned (Task.eventIn agent (· == .spawn)) w.tasks, e ∉ p.known
  /-- What is recorded has been handled. -/
  recorded : ∀ e, w.dispatcher.dedup.isCompleted agent e = true → e ∈ p.handled
  /-- What is going to be acknowledged has been handled. -/
  handled : ∀ e ∈ Owned (Task.eventIn agent Phase.handled) w.tasks, e ∈ p.handled

/-! ## The accounts -/

/-- A dispatch claims events of its own agent. -/
theorem Task.agent_of_keyIn {q : Phase → Bool} {task : Task} {key : EventKey}
    (h : task.keyIn q = some key) : key.1 = task.delivery.agent := by
  obtain ⟨d, s⟩ := task
  rcases s with _ | _ | _ | _ | ⟨job, permits, phase⟩ | _
  case slot =>
    simp only [keyIn, Option.ite_none_right_eq_some, Option.some.injEq] at h
    rw [← h.2]
  all_goals cases h

/-- A dispatch that claims an event has a semaphore. -/
theorem Task.semaphore_of_claim {task : Task} {key : EventKey} (h : task.claim = some key) :
    task.stage.semaphore ≠ none := by
  obtain ⟨d, s⟩ := task
  rcases s with _ | _ | _ | _ | ⟨job, permits, phase⟩ | _
  all_goals first | exact Option.some_ne_none _ | cases h

namespace Kept

theorem start {registry : Registry} (h : registry.Limits agent k) (dedup : DedupStore) :
    Kept agent k (.start registry dedup) :=
  ⟨.start registry dedup agent, .start h dedup, .start registry dedup, .start registry dedup⟩

/-- Changes that are applied while no dispatch of the agent has a semaphore discard no id. -/
theorem claims_applyChanges (h : ClaimsOf agent w) {changes : List Change}
    (hok : w.DetachedApply agent (.applyChanges changes)) :
    ClaimsOf agent { w with dispatcher := w.dispatcher.applyChanges changes } := by
  refine h.of_inFlight_iff rfl fun key hkey => ?_
  change key.2 ∈ (w.dispatcher.applyChanges changes).inFlightIds key.1 ↔ _
  rw [Dispatcher.inFlightIds_applyChanges]
  split
  · rename_i hmem
    refine ⟨fun hin => absurd hin (Finset.notMem_empty _), fun hin => ?_⟩
    -- an id in flight would be claimed by a dispatch with a semaphore
    have howned : key ∈ Owned (Task.claimOf agent) w.tasks := by
      rw [h.owned]
      exact ⟨hin, hkey⟩
    obtain ⟨i, task, hi, hclaim⟩ := howned
    obtain ⟨hclaim, -⟩ := Option.filter_eq_some_iff.mp hclaim
    have hagent : task.delivery.agent = agent := by
      rw [← hkey]
      exact (Task.agent_of_keyIn hclaim).symm
    exact absurd (hok (hkey ▸ hmem) task (List.mem_of_getElem? hi) hagent)
      (Task.semaphore_of_claim hclaim)
  · rfl

/-- Every step keeps the accounts. -/
theorem step (h : Kept agent k w) {a : Action} (hok : w.SteadyFor agent k a)
    (hstep : (dispatchSystem C).step w a = some w') : Kept agent k w' := by
  have hacc := h.accounts.step hstep
  have hsep := h.separate.step hstep
  cases a with
  | setRegistry registry =>
    have hslots : OneSemaphore agent k w' :=
      h.slots.step (a := .setRegistry registry) hok trivial hstep
    refine ⟨?_, hslots, hacc, hsep⟩
    cases hstep
    exact h.claims.of_inFlight_iff rfl fun _ _ => Iff.rfl
  | applyChanges changes =>
    have hslots : OneSemaphore agent k w' :=
      h.slots.step (a := .applyChanges changes) trivial hok hstep
    refine ⟨?_, hslots, hacc, hsep⟩
    cases hstep
    exact claims_applyChanges h.claims hok
  | restart registry now ttl =>
    cases hstep
    refine ⟨⟨exclusive_nil, ?_⟩, ⟨hok, ?_, ?_, ?_, ?_⟩, hacc, hsep⟩
    · ext key
      simp [Dispatcher.inFlight, Dispatcher.inFlightIds]
    · intro t d job ht
      simp at ht
    · intro c config hc
      simp at hc
    · intro q hq
      cases hq
    · intro t task q ht
      simp at ht
  | _ =>
    refine ⟨h.claims.step ?_ hstep, h.slots.step ?_ ?_ hstep, hacc, hsep⟩
    all_goals exact trivial

end Kept

/-! ## The events of the dispatches -/

section EventIn

variable {q : Phase → Bool} {job : Job} {permits : ℕ} {phase : Phase} {e : String}

@[simp] theorem Task.eventIn_slot : (⟨d, .slot job permits phase⟩ : Task).eventIn agent q =
    if d.agent = agent ∧ q phase = true then some job.envelope.eventId else none := rfl

/-- The dispatches of other agents have no event of the agent. -/
theorem Task.eventIn_of_ne (h : d.agent ≠ agent) (s : Stage) :
    (⟨d, s⟩ : Task).eventIn agent q = none := by
  cases s with
  | slot job permits phase => exact if_neg fun hag => h hag.1
  | _ => rfl

theorem Task.eventIn_mono {q' : Phase → Bool} (hq : ∀ phase, q phase = true → q' phase = true)
    {task : Task} (h : task.eventIn agent q = some e) : task.eventIn agent q' = some e := by
  obtain ⟨d, s⟩ := task
  cases s with
  | slot job permits phase =>
    simp only [eventIn_slot, Option.ite_none_right_eq_some] at h ⊢
    exact ⟨⟨h.1.1, hq phase h.1.2⟩, h.2⟩
  | _ => cases h

/-- The event of a dispatch in a phase in which it claims the event. -/
theorem Task.claimOf_of_eventIn (hq : ∀ phase, q phase = true → phase.claims = true) {task : Task}
    (h : task.eventIn agent q = some e) : task.claimOf agent = some (agent, e) := by
  obtain ⟨d, s⟩ := task
  cases s with
  | slot job permits phase =>
    simp only [eventIn_slot, Option.ite_none_right_eq_some, Option.some.injEq] at h
    obtain ⟨⟨rfl, hphase⟩, rfl⟩ := h
    simp [claimOf, claim, keyIn, hq phase hphase]
  | _ => cases h

namespace Kept

/-- No event of the agent has two dispatches that claim it. -/
theorem exclusive (h : Kept agent k w) (hq : ∀ phase, q phase = true → phase.claims = true) :
    Exclusive (Task.eventIn agent q) w.tasks :=
  h.claims.exclusive.mono (f := fun e => (agent, e)) fun _ _ he => Task.claimOf_of_eventIn hq he

/-- An event that a dispatch claims in one phase is not claimed in others. -/
theorem notMem_owned (h : Kept agent k w)
    (htask : w.tasks[t]? = some ⟨d, .slot job permits phase⟩) (hag : d.agent = agent)
    (hphase : phase.claims = true) (hq : ∀ phase, q phase = true → phase.claims = true)
    (hnot : q phase = false) : job.envelope.eventId ∉ Owned (Task.eventIn agent q) w.tasks := by
  rintro ⟨i, task, hi, he⟩
  have hself : (⟨d, .slot job permits phase⟩ : Task).eventIn agent Phase.claims =
      some job.envelope.eventId := by simp [hag, hphase]
  obtain rfl : i = t := h.claims.exclusive i t _ _ _ hi htask (Task.claimOf_of_eventIn hq he)
    (Task.claimOf_of_eventIn (fun _ hp => hp) hself)
  obtain rfl := Option.some_inj.mp (htask.symm.trans hi)
  simp [hnot] at he

/-- While a dispatch is about to start the handler, a worker is free. -/
theorem countP_lt (h : Kept agent k w) (htask : w.tasks[t]? = some ⟨d, .slot job permits phase⟩)
    (hag : d.agent = agent) (hnot : q phase = false) :
    (w.tasks.countP fun task => (task.eventIn agent q).isSome) < k.toNat := by
  have hperm := h.slots.attached t _ permits htask hag rfl
  have hsum := h.slots.availablePermits_add_holders h.accounts h.separate hperm
  -- the dispatch itself holds a permit
  have hlt : (w.tasks.countP fun task => (task.eventIn agent q).isSome) <
      w.tasks.countP (Task.holdsFor agent) := by
    refine countP_lt_countP (fun task _ hsome => ?_) htask ?_ ?_
    · obtain ⟨d', s⟩ := task
      cases s with
      | slot job' permits' phase' =>
        by_cases hd : d'.agent = agent
        · simp [Task.holdsFor, Task.permit, hd]
        · simp [hd] at hsome
      | _ => cases hsome
    · simp [hnot]
    · simp [Task.holdsFor, Task.permit, hag]
  omega

end Kept

end EventIn

/-! ## One access of a dispatch -/

/-- A dispatch in a phase in which it claims its event. -/
theorem Phase.claims_of_eq {phase₀ : Phase} (h : phase₀.claims = true) :
    ∀ phase, (phase == phase₀) = true → phase.claims = true := by
  intro phase hphase
  rw [beq_iff_eq.mp hphase, h]

/-- A dispatch has tried to mark its event. -/
theorem Kept.owned_marked {job : Job} {permits : ℕ} (hkept : Kept agent k w)
    (htask : w.tasks[t]? = some ⟨d, .slot job permits .mark⟩) (hag : d.agent = agent) :
    Owned (Task.eventIn agent (· == .mark)) (w.tasks.set t ⟨d, .slot job permits .remove⟩) =
      Owned (Task.eventIn agent (· == .mark)) w.tasks \ {job.envelope.eventId} :=
  owned_set_give (hkept.exclusive (Phase.claims_of_eq rfl)) htask (by simp [hag]) (by simp)

namespace Matches

/-- Accesses that are not about running, exited or starting handlers of the agent. -/
theorem silent (h : Matches agent w p) (htask : w.tasks[t]? = some ⟨d, s⟩)
    (hwait : (⟨d, s'⟩ : Task).eventIn agent (· == .wait) =
      (⟨d, s⟩ : Task).eventIn agent (· == .wait))
    (hmark : (⟨d, s'⟩ : Task).eventIn agent (· == .mark) =
      (⟨d, s⟩ : Task).eventIn agent (· == .mark))
    (hspawn : ∀ e, (⟨d, s'⟩ : Task).eventIn agent (· == .spawn) = some e → e ∉ p.known)
    (hhandled : ∀ e, (⟨d, s'⟩ : Task).eventIn agent Phase.handled = some e → e ∈ p.handled)
    (hdedup : ∀ e, D'.dedup.isCompleted agent e = w.dispatcher.dedup.isCompleted agent e) :
    Matches agent (w.commit t ⟨d, s⟩ D' s' effects) p where
  running e := by
    rw [h.running]
    exact (Set.ext_iff.mp (owned_set_keep htask hwait) e).symm
  ended e := by
    rw [h.ended]
    exact (Set.ext_iff.mp (owned_set_keep htask hmark) e).symm
  known e he := (hdedup e).trans (h.known e he)
  fresh e he := (owned_set_cases he).elim (hspawn e) (h.fresh e)
  recorded e he := h.recorded e ((hdedup e).symm.trans he)
  handled e he := (owned_set_cases he).elim (hhandled e) (h.handled e)

/-- The pool forgets an event. -/
theorem forget (h : Matches agent w p) (event : String) :
    Matches agent w { p with known := p.known.erase event } :=
  ⟨h.running, h.ended, fun e he => h.known e (Finset.mem_of_mem_erase he),
    fun e he hmem => h.fresh e he (Finset.mem_of_mem_erase hmem), h.recorded, h.handled⟩

variable {job : Job} {permits : ℕ}

/-- The handler is started. -/
theorem spawned (h : Matches agent w p) (hkept : Kept agent k w)
    (htask : w.tasks[t]? = some ⟨d, .slot job permits .spawn⟩) (hag : d.agent = agent) :
    ∃ p', WorkPool.Steps k.toNat p (.started job.envelope.eventId) p' ∧
      Matches agent (w.commit t ⟨d, .slot job permits .spawn⟩ w.dispatcher
        (.slot job permits .wait) effects) p' := by
  have hspawn : job.envelope.eventId ∈ Owned (Task.eventIn agent (· == .spawn)) w.tasks :=
    ⟨t, _, htask, by simp [hag]⟩
  have hrunning : job.envelope.eventId ∉ p.running := by
    rw [h.running]
    exact hkept.notMem_owned htask hag rfl (Phase.claims_of_eq rfl) rfl
  have hended : job.envelope.eventId ∉ p.ended := by
    rw [h.ended]
    exact hkept.notMem_owned htask hag rfl (Phase.claims_of_eq rfl) rfl
  have hroom : p.active.card < k.toNat := by
    have hcard : p.active.card ≤
        w.tasks.countP fun task => (task.eventIn agent Phase.unmarkedStart).isSome := by
      refine card_le_countP fun e he => ?_
      rcases Finset.mem_union.mp he with he | he
      · obtain ⟨i, task, hi, he⟩ := (h.running e).mp he
        exact ⟨i, task, hi, Task.eventIn_mono (by simp [Phase.unmarkedStart]) he⟩
      · obtain ⟨i, task, hi, he⟩ := (h.ended e).mp he
        exact ⟨i, task, hi, Task.eventIn_mono (by simp [Phase.unmarkedStart]) he⟩
    exact hcard.trans_lt (hkept.countP_lt htask hag rfl)
  refine ⟨_, .started ?_ (h.fresh _ hspawn) hroom, ?_⟩
  · rw [WorkPool.active, Finset.mem_union, not_or]
    exact ⟨hrunning, hended⟩
  · have htake : Owned (Task.eventIn agent (· == .wait))
        (w.tasks.set t ⟨d, .slot job permits .wait⟩) =
          insert job.envelope.eventId (Owned (Task.eventIn agent (· == .wait)) w.tasks) :=
      owned_set_take htask (by simp) (by simp [hag])
    refine ⟨fun e => ?_, fun e => ?_, h.known, fun e he => ?_, h.recorded, fun e he => ?_⟩
    · rw [Finset.mem_insert, h.running]
      exact (Set.ext_iff.mp htake e).symm
    · rw [h.ended]
      exact (Set.ext_iff.mp (owned_set_keep htask (by simp)) e).symm
    · exact (owned_set_cases he).elim (fun hnone => by simp at hnone) (h.fresh e)
    · exact (owned_set_cases he).elim (fun hnone => by simp [Phase.handled] at hnone) (h.handled e)

/-- The handler has exited. -/
theorem exited (h : Matches agent w p) (hkept : Kept agent k w)
    (htask : w.tasks[t]? = some ⟨d, .slot job permits .wait⟩) (hag : d.agent = agent) :
    ∃ p', WorkPool.Steps k.toNat p (.exited job.envelope.eventId) p' ∧
      Matches agent (w.commit t ⟨d, .slot job permits .wait⟩ w.dispatcher
        (.slot job permits .mark) effects) p' := by
  have hrunning : job.envelope.eventId ∈ p.running :=
    (h.running _).mpr ⟨t, _, htask, by simp [hag]⟩
  have hgive :
      Owned (Task.eventIn agent (· == .wait)) (w.tasks.set t ⟨d, .slot job permits .mark⟩) =
        Owned (Task.eventIn agent (· == .wait)) w.tasks \ {job.envelope.eventId} :=
    owned_set_give (hkept.exclusive (Phase.claims_of_eq rfl)) htask (by simp [hag]) (by simp)
  have htake :
      Owned (Task.eventIn agent (· == .mark)) (w.tasks.set t ⟨d, .slot job permits .mark⟩) =
        insert job.envelope.eventId (Owned (Task.eventIn agent (· == .mark)) w.tasks) :=
    owned_set_take htask (by simp) (by simp [hag])
  refine ⟨_, .exited hrunning, fun e => ?_, fun e => ?_, h.known, fun e he => ?_, fun e he => ?_,
    fun e he => ?_⟩
  · rw [Finset.mem_erase, h.running, and_comm]
    exact (Set.ext_iff.mp hgive e).symm
  · rw [Finset.mem_insert, h.ended]
    exact (Set.ext_iff.mp htake e).symm
  · exact (owned_set_cases he).elim (fun hnone => by simp at hnone) (h.fresh e)
  · exact Finset.mem_insert_of_mem (h.recorded e he)
  · rcases owned_set_cases he with hself | he
    · obtain rfl : job.envelope.eventId = e := by simpa [hag, Phase.handled] using hself
      exact Finset.mem_insert_self _ _
    · exact Finset.mem_insert_of_mem (h.handled e he)

/-- The event is recorded. -/
theorem marked (h : Matches agent w p) (hkept : Kept agent k w)
    (htask : w.tasks[t]? = some ⟨d, .slot job permits .mark⟩) (hag : d.agent = agent)
    (now : UInt64) :
    ∃ p', WorkPool.Steps k.toNat p (.recorded job.envelope.eventId) p' ∧
      Matches agent (w.commit t ⟨d, .slot job permits .mark⟩
        { w.dispatcher with
          dedup := w.dispatcher.dedup.markCompleted d.agent job.envelope.eventId now }
        (.slot job permits .remove) effects) p' := by
  have hended : job.envelope.eventId ∈ p.ended :=
    (h.ended _).mpr ⟨t, _, htask, by simp [hag]⟩
  have hself : job.envelope.eventId ∈ p.handled :=
    h.handled _ ⟨t, _, htask, by simp [hag, Phase.handled]⟩
  have hgive := hkept.owned_marked htask hag
  have hrow : ∀ e,
      (w.dispatcher.dedup.markCompleted d.agent job.envelope.eventId now).isCompleted agent e =
        true ↔ w.dispatcher.dedup.isCompleted agent e = true ∨ job.envelope.eventId = e := by
    intro e
    simp [DedupStore.isCompleted_markCompleted, hag]
  refine ⟨_, .recorded hended, fun e => ?_, fun e => ?_, fun e he => ?_, fun e he => ?_,
    fun e he => ?_, fun e he => ?_⟩
  · rw [h.running]
    exact (Set.ext_iff.mp (owned_set_keep htask (by simp)) e).symm
  · rw [Finset.mem_erase, h.ended, and_comm]
    exact (Set.ext_iff.mp hgive e).symm
  · refine (hrow e).mpr ?_
    rcases Finset.mem_insert.mp he with rfl | he
    · exact .inr rfl
    · exact .inl (h.known e he)
  · -- no other dispatch is about to start a handler for the event
    have hold : e ∈ Owned (Task.eventIn agent (· == .spawn)) w.tasks :=
      (owned_set_cases he).resolve_left (by simp)
    rw [Finset.mem_insert, not_or]
    refine ⟨?_, h.fresh e hold⟩
    rintro rfl
    exact hkept.notMem_owned htask hag rfl (Phase.claims_of_eq rfl) rfl hold
  · rcases (hrow e).mp he with he | rfl
    · exact h.recorded e he
    · exact hself
  · rcases owned_set_cases he with hnew | he
    · obtain rfl : job.envelope.eventId = e := by simpa [hag, Phase.handled] using hnew
      exact hself
    · exact h.handled e he

/-- The event could not be recorded. -/
theorem unmarked (h : Matches agent w p) (hkept : Kept agent k w)
    (htask : w.tasks[t]? = some ⟨d, .slot job permits .mark⟩) (hag : d.agent = agent) :
    ∃ p', WorkPool.Steps k.toNat p (.unrecorded job.envelope.eventId) p' ∧
      Matches agent (w.commit t ⟨d, .slot job permits .mark⟩ w.dispatcher
        (.slot job permits .remove) effects) p' := by
  have hended : job.envelope.eventId ∈ p.ended :=
    (h.ended _).mpr ⟨t, _, htask, by simp [hag]⟩
  have hgive := hkept.owned_marked htask hag
  refine ⟨_, .unrecorded hended, fun e => ?_, fun e => ?_, h.known, fun e he => ?_, h.recorded,
    fun e he => ?_⟩
  · rw [h.running]
    exact (Set.ext_iff.mp (owned_set_keep htask (by simp)) e).symm
  · rw [Finset.mem_erase, h.ended, and_comm]
    exact (Set.ext_iff.mp hgive e).symm
  · exact (owned_set_cases he).elim (fun hnone => by simp at hnone) (h.fresh e)
  · rcases owned_set_cases he with hnew | he
    · obtain rfl : job.envelope.eventId = e := by simpa [hag, Phase.handled] using hnew
      exact h.handled _ ⟨t, _, htask, by simp [hag, Phase.handled]⟩
    · exact h.handled e he

/-- An access of a dispatch of another agent. -/
theorem poll_other (h : Matches agent w p) (htask : w.tasks[t]? = some ⟨d, s⟩)
    (hag : d.agent ≠ agent) (hpoll : Polls C w.dispatcher d o s D' s' effects) :
    Matches agent (w.commit t ⟨d, s⟩ D' s' effects) p := by
  have hnone : ∀ (q : Phase → Bool) (s : Stage), (⟨d, s⟩ : Task).eventIn agent q = none :=
    fun q s => Task.eventIn_of_ne hag s
  refine h.silent htask (by simp [hnone]) (by simp [hnone]) (by simp [hnone]) (by simp [hnone])
    fun e => ?_
  cases hpoll with
  | mark => simp [DedupStore.isCompleted_markCompleted, hag]
  | ensure => rw [Dispatcher.dedup_ensureState]
  | remove | abort => rw [Dispatcher.dedup_removeInFlight]
  | _ => rfl

/-- An access of a dispatch of the agent, matched by the pool. -/
theorem poll_self (h : Matches agent w p) (hkept : Kept agent k w)
    (htask : w.tasks[t]? = some ⟨d, s⟩) (hag : d.agent = agent)
    (hpoll : Polls C w.dispatcher d o s D' s' effects) (m : List (WorkPool.Event String)) :
    ∃ p', (WorkPool.system String k.toNat).Run (fun _ _ => True) (p, m)
        (p', m ++ (w.dispatcher.passesRecorded ⟨d, s⟩ ++ effects.flatMap Effect.poolEvents)) ∧
      Matches agent (w.commit t ⟨d, s⟩ D' s' effects) p' := by
  have hquiet : w.dispatcher.passesRecorded ⟨d, s⟩ ++ effects.flatMap Effect.poolEvents = [] →
      Matches agent (w.commit t ⟨d, s⟩ D' s' effects) p →
      ∃ p', (WorkPool.system String k.toNat).Run (fun _ _ => True) (p, m)
        (p', m ++ (w.dispatcher.passesRecorded ⟨d, s⟩ ++ effects.flatMap Effect.poolEvents)) ∧
      Matches agent (w.commit t ⟨d, s⟩ D' s' effects) p' := by
    intro hnil hmatches
    rw [hnil, List.append_nil]
    exact ⟨p, .refl, hmatches⟩
  have hsingle : ∀ {event : WorkPool.Event String},
      w.dispatcher.passesRecorded ⟨d, s⟩ ++ effects.flatMap Effect.poolEvents = [event] →
      (∃ p', WorkPool.Steps k.toNat p event p' ∧
        Matches agent (w.commit t ⟨d, s⟩ D' s' effects) p') →
      ∃ p', (WorkPool.system String k.toNat).Run (fun _ _ => True) (p, m)
        (p', m ++ (w.dispatcher.passesRecorded ⟨d, s⟩ ++ effects.flatMap Effect.poolEvents)) ∧
      Matches agent (w.commit t ⟨d, s⟩ D' s' effects) p' := by
    rintro event hevent ⟨p', hstep, hmatches⟩
    rw [hevent]
    exact ⟨p', WorkPool.run_single hstep m, hmatches⟩
  -- an access to a stage in which the event, if there is one, is not handled
  have hsilent : ∀ {D' : Dispatcher} {s' : Stage} {effects : List Effect},
      (∀ q ∈ [(· == .wait), (· == .mark), (· == .spawn), Phase.handled],
        (⟨d, s'⟩ : Task).eventIn agent q = none) →
      (∀ q ∈ [(· == .wait), (· == .mark)], (⟨d, s⟩ : Task).eventIn agent q = none) →
      D'.dedup = w.dispatcher.dedup → Matches agent (w.commit t ⟨d, s⟩ D' s' effects) p := by
    intro D' s' effects hafter hbefore hdedup
    refine h.silent htask ?_ ?_ (fun e he => ?_) (fun e he => ?_) fun e => by rw [hdedup]
    · rw [hafter _ (by simp), hbefore _ (by simp)]
    · rw [hafter _ (by simp), hbefore _ (by simp)]
    · simp [hafter] at he
    · simp [hafter] at he
  cases hpoll with
  | reject hrej =>
    refine hquiet ?_ (hsilent (by simp [Task.eventIn]) (by simp [Task.eventIn]) rfl)
    cases hrej <;> rfl
  | configure | termRejected | acquire | miss | term | release | spawnFail =>
    exact hquiet rfl (hsilent (by simp [Task.eventIn, Phase.handled]) (by simp [Task.eventIn]) rfl)
  | ensure =>
    exact hquiet rfl (hsilent (by simp [Task.eventIn]) (by simp [Task.eventIn])
      (Dispatcher.dedup_ensureState ..))
  | abort =>
    exact hquiet rfl (hsilent (by simp [Phase.handled]) (by simp)
      (Dispatcher.dedup_removeInFlight ..))
  | drop hin =>
    have hid := hin
    simp only [Dispatcher.inFlight, Set.mem_ofPred_eq] at hid
    exact hquiet (by simp [Dispatcher.passesRecorded, Effect.poolEvents, hid])
      (hsilent (by simp [Phase.handled]) (by simp) rfl)
  | @hit job permits hdone =>
    refine hquiet rfl (h.silent htask (by simp) (by simp) (by simp) (fun e he => ?_) fun _ => rfl)
    obtain rfl : job.envelope.eventId = e := by simpa [hag, Phase.handled] using he
    exact h.recorded _ (hag ▸ hdone)
  | @remove job permits =>
    refine hquiet rfl (h.silent htask (by simp) (by simp) (by simp) (fun e he => ?_) fun _ => ?_)
    · obtain rfl : job.envelope.eventId = e := by simpa [hag, Phase.handled] using he
      exact h.handled _ ⟨t, _, htask, by simp [hag, Phase.handled]⟩
    · rw [Dispatcher.dedup_removeInFlight]
  | ackHit | ack =>
    refine hsingle rfl ⟨p, .acked (h.handled _ ⟨t, _, htask, by simp [hag, Phase.handled]⟩), ?_⟩
    exact hsilent (by simp [Phase.handled]) (by simp) rfl
  | @enter job permits hout =>
    have hid : job.envelope.eventId ∉ w.dispatcher.inFlightIds agent := hag ▸ hout
    have hmatches : ∀ {p : WorkPool String}, Matches agent w p → job.envelope.eventId ∉ p.known →
        Matches agent (w.commit t ⟨d, .slot job permits .check⟩
          (w.dispatcher.insertInFlight d.agent job.envelope.eventId permits)
          (.slot job permits .spawn) []) p := by
      intro p h hnew
      refine h.silent htask (by simp) (by simp) (fun e he => ?_) (by simp [Phase.handled])
        fun _ => rfl
      obtain rfl : job.envelope.eventId = e := by simpa [hag] using he
      exact hnew
    by_cases hdone : w.dispatcher.dedup.isCompleted agent job.envelope.eventId = true
    · have hevent : w.dispatcher.passesRecorded ⟨d, .slot job permits .check⟩ ++
          [].flatMap Effect.poolEvents = [.forgotten job.envelope.eventId] := by
        simp [Dispatcher.passesRecorded, hid, hag, hdone]
      refine hsingle hevent ⟨_, .forgotten, ?_⟩
      exact hmatches (h.forget _) (Finset.notMem_erase _ _)
    · exact hquiet (by simp [Dispatcher.passesRecorded, hag, hdone])
        (hmatches h fun hknown => hdone (h.known _ hknown))
  | spawn => exact hsingle rfl (h.spawned hkept htask hag)
  | exit => exact hsingle rfl (h.exited hkept htask hag)
  | mark => exact hsingle rfl (h.marked hkept htask hag _)
  | markFail => exact hsingle rfl (h.unmarked hkept htask hag)

/-- A purge, which the pool matches by forgetting the events whose rows are deleted. -/
theorem purge (h : Matches agent w p) (now ttl : UInt64)
    (hdedup : w'.dispatcher.dedup = (w.dispatcher.dedup.purgeExpired now ttl).1)
    (htasks : w'.tasks = w.tasks) :
    Matches agent w'
      { p with known := p.known \ (w.dispatcher.dedup.purgedOf agent now ttl).toFinset } := by
  refine ⟨htasks ▸ h.running, htasks ▸ h.ended, fun e he => ?_, fun e he hmem => ?_,
    fun e he => ?_, htasks ▸ h.handled⟩
  · obtain ⟨hknown, hnot⟩ := Finset.mem_sdiff.mp he
    rw [hdedup]
    exact DedupStore.isCompleted_of_notMem_purgedOf (h.known e hknown)
      fun hmem => hnot (List.mem_toFinset.mpr hmem)
  · exact h.fresh e (htasks ▸ he) (Finset.mem_sdiff.mp hmem).1
  · rw [hdedup] at he
    exact h.recorded e (DedupStore.isCompleted_of_purgeExpired he)

/-- A crash, which the pool matches by losing the events whose handlers were started and not
marked. -/
theorem crash (h : Matches agent w p) :
    Matches agent { w with tasks := [] }
      { p with
        running := p.running \
          (w.tasks.filterMap (Task.eventIn agent Phase.unmarkedStart)).toFinset
        ended := p.ended \
          (w.tasks.filterMap (Task.eventIn agent Phase.unmarkedStart)).toFinset } := by
  have hnone : ∀ q, ∀ e, e ∉ Owned (Task.eventIn agent q) ([] : List Task) := by simp
  have hlost : ∀ {q : Phase → Bool} {e : String},
      (∀ phase, q phase = true → phase.unmarkedStart = true) →
      e ∈ Owned (Task.eventIn agent q) w.tasks →
      e ∈ (w.tasks.filterMap (Task.eventIn agent Phase.unmarkedStart)).toFinset := by
    rintro q e hq ⟨i, task, hi, he⟩
    exact List.mem_toFinset.mpr (List.mem_filterMap.mpr
      ⟨task, List.mem_of_getElem? hi, Task.eventIn_mono hq he⟩)
  refine ⟨fun e => ?_, fun e => ?_, h.known, fun e he => absurd he (hnone _ e), h.recorded,
    fun e he => absurd he (hnone _ e)⟩
  · refine ⟨fun he => ?_, fun he => absurd he (hnone _ e)⟩
    obtain ⟨he, hnot⟩ := Finset.mem_sdiff.mp he
    exact absurd (hlost (by simp [Phase.unmarkedStart]) ((h.running e).mp he)) hnot
  · refine ⟨fun he => ?_, fun he => absurd he (hnone _ e)⟩
    obtain ⟨he, hnot⟩ := Finset.mem_sdiff.mp he
    exact absurd (hlost (by simp [Phase.unmarkedStart]) ((h.ended e).mp he)) hnot

/-- Every step of the dispatcher is matched by the pool. -/
theorem step (h : Matches agent w p) (hkept : Kept agent k w) {a : Action}
    (hstep : (dispatchSystem C).step w a = some w') (m : List (WorkPool.Event String)) :
    ∃ p', (WorkPool.system String k.toNat).Run (fun _ _ => True) (p, m)
      (p', m ++ w.poolEvents C agent a) ∧ Matches agent w' p' := by
  have hquiet : w.poolEvents C agent a = [] → Matches agent w' p →
      ∃ p', (WorkPool.system String k.toNat).Run (fun _ _ => True) (p, m)
        (p', m ++ w.poolEvents C agent a) ∧ Matches agent w' p' := by
    intro hnil hmatches
    rw [hnil, List.append_nil]
    exact ⟨p, .refl, hmatches⟩
  cases a with
  | poll t o =>
    obtain ⟨d, s, D', s', effects, htask, hpoll, rfl⟩ := World.poll_of_step hstep
    have hpolls := polls_of_poll hpoll
    by_cases hag : d.agent = agent
    · have hevents : w.poolEvents C agent (.poll t o) =
          w.dispatcher.passesRecorded ⟨d, s⟩ ++ effects.flatMap Effect.poolEvents := by
        simp [World.poolEvents, htask, hag, hpoll]
      rw [hevents]
      exact h.poll_self hkept htask hag hpolls m
    · exact hquiet (by simp [World.poolEvents, htask, hag]) (h.poll_other htask hag hpolls)
  | pollCall c =>
    obtain ⟨agent', s, D', s', -, hpoll, rfl⟩ := World.step_pollCall hstep
    refine hquiet rfl ⟨h.running, h.ended, fun e he => ?_, h.fresh, fun e he => ?_, h.handled⟩
    · change D'.dedup.isCompleted agent e = true
      rw [hpoll.dedup_eq]
      exact h.known e he
    · change D'.dedup.isCompleted agent e = true at he
      rw [hpoll.dedup_eq] at he
      exact h.recorded e he
  | deliver d =>
    cases hstep
    have hsame : ∀ q, Owned (Task.eventIn agent q) (w.tasks ++ [⟨d, .received⟩]) =
        Owned (Task.eventIn agent q) w.tasks := fun q => owned_append rfl
    refine hquiet rfl ⟨fun e => ?_, fun e => ?_, h.known, fun e he => ?_, h.recorded,
      fun e he => ?_⟩
    · rw [h.running, ← hsame]
    · rw [h.ended, ← hsame]
    · exact h.fresh e ((hsame _) ▸ he)
    · exact h.handled e ((hsame _) ▸ he)
  | purge now ttl =>
    cases hstep
    exact ⟨_, WorkPool.run_forgotten p m _, h.purge now ttl rfl rfl⟩
  | restart registry now ttl =>
    cases hstep
    refine ⟨_, ?_, h.crash.purge now ttl rfl rfl⟩
    rw [World.poolEvents, ← List.append_assoc]
    exact (WorkPool.run_abandoned p m _).trans (WorkPool.run_forgotten _ _ _)
  | call _ | setRegistry _ | applyChanges _ =>
    cases hstep
    exact hquiet rfl ⟨h.running, h.ended, h.known, h.fresh, h.recorded, h.handled⟩

end Matches

/-! ## Runs -/

theorem DedupStore.mem_eventsOf {s : DedupStore} {e : String} :
    e ∈ s.eventsOf agent ↔ s.isCompleted agent e = true := by
  simp [eventsOf, isCompleted, CompletedEvent.key, and_assoc]

/-- A dispatcher that has just started is an idle pool. -/
theorem Matches.start (registry : Registry) (dedup : DedupStore) (agent : AgentId) :
    Matches agent (.start registry dedup) (.idle (dedup.eventsOf agent).toFinset) := by
  have hnone : ∀ q, ∀ e, e ∉ Owned (Task.eventIn agent q) ([] : List Task) := by simp
  have hrow : ∀ e, e ∈ (dedup.eventsOf agent).toFinset ↔ dedup.isCompleted agent e = true :=
    fun e => List.mem_toFinset.trans DedupStore.mem_eventsOf
  refine ⟨fun e => ?_, fun e => ?_, fun e he => (hrow e).mp he, fun e he => absurd he (hnone _ e),
    fun e he => (hrow e).mpr he, fun e he => absurd he (hnone _ e)⟩
  · exact ⟨fun he => absurd he (Finset.notMem_empty e), fun he => absurd he (hnone _ e)⟩
  · exact ⟨fun he => absurd he (Finset.notMem_empty e), fun he => absurd he (hnone _ e)⟩

/-- What happens to the events of an agent is a trace of a pool with as many workers as the agent's
limit says, which knows the events recorded at the start. -/
theorem exists_trace {registry : Registry} {dedup : DedupStore} (hlimit : registry.Limits agent k)
    {log : List (WorkPool.Event String)}
    (hrun : ((dispatchSystem C).logging (World.poolEvents C agent)).Run
      (fun x a => x.1.SteadyFor agent k a) (.start registry dedup, []) (w, log)) :
    ∃ p, WorkPool.Traces k.toNat (.idle (dedup.eventsOf agent).toFinset) log p ∧
      Matches agent w p := by
  obtain ⟨p, htrace, -, hmatches⟩ := Run.simulate (fun w a => w.SteadyFor agent k a)
    (fun _ _ => True) (U := ⟨WorkPool.step k.toNat⟩) (g := fun _ e => [e])
    (R := fun w p => Kept agent k w ∧ Matches agent w p) hrun
    ⟨.start hlimit dedup, .start registry dedup agent⟩ (by
      rintro w a w' p m ⟨hkept, hmatches⟩ hok hstep
      obtain ⟨p', hrun, hmatches'⟩ := hmatches.step hkept hstep m
      exact ⟨p', hrun, hkept.step hok hstep, hmatches'⟩)
  exact ⟨p, htrace, hmatches⟩

/-- The event of a dispatch whose handler runs. -/
theorem Task.running_eq_some_iff {task : Task} {e : String} :
    task.running = some (agent, e) ↔ task.eventIn agent (· == .wait) = some e := by
  obtain ⟨d, s⟩ := task
  cases s with
  | slot job permits phase =>
    simp only [running, keyIn, eventIn_slot, Option.ite_none_right_eq_some, Option.some.injEq,
      Prod.mk.injEq]
    tauto
  | _ => exact iff_of_false (fun h => by cases h) fun h => by cases h

theorem Matches.mem_running_iff (h : Matches agent w p) {e : String} :
    e ∈ p.running ↔ ∃ task ∈ w.tasks, task.running = some (agent, e) := by
  rw [h.running]
  constructor
  · rintro ⟨i, task, hi, he⟩
    exact ⟨task, List.mem_of_getElem? hi, Task.running_eq_some_iff.mpr he⟩
  · rintro ⟨task, hmem, he⟩
    obtain ⟨i, hi⟩ := List.mem_iff_getElem?.mp hmem
    exact ⟨i, task, hi, Task.running_eq_some_iff.mp he⟩

/-- The dispatcher refines a pool of workers.  For an agent with the limit `k` in every registration
and changes applied to it only while none of its dispatches has a semaphore, over any crashes,
failures and actions of other agents: what happens to its events is a trace of a pool with `k`
workers, whose running jobs are the events whose handlers run, and which knows recorded events only.
The handlers that run are those of the current process: a handler that outlives a crash of the
daemon is no longer counted, its job is abandoned. -/
theorem dispatcher_refines_pool {registry : Registry} {dedup : DedupStore}
    (hlimit : registry.Limits agent k) {log : List (WorkPool.Event String)}
    (hrun : ((dispatchSystem C).logging (World.poolEvents C agent)).Run
      (fun x a => x.1.SteadyFor agent k a) (.start registry dedup, []) (w, log)) :
    ∃ p, WorkPool.Traces k.toNat (.idle (dedup.eventsOf agent).toFinset) log p ∧
      (∀ e, e ∈ p.running ↔ ∃ task ∈ w.tasks, task.running = some (agent, e)) ∧
      ∀ e ∈ p.known, w.dispatcher.dedup.isCompleted agent e = true := by
  obtain ⟨p, htrace, hmatches⟩ := exists_trace hlimit hrun
  exact ⟨p, htrace, fun e => hmatches.mem_running_iff, hmatches.known⟩

namespace Sample

/-- The handler for an event runs when the daemon crashes, and is started again for the
redelivery. -/
def startAfterCrash : List Action :=
  [.deliver (delivery "e")] ++ polls 0 6 ++ [.restart (registry config) 0 0] ++
    [.deliver (delivery "e" 1 2)] ++ polls 0 6

end Sample

theorem dispatcher_refines_pool_startAfterCrash :
    ∃ log p, WorkPool.Traces 1 (.idle ∅) log p ∧ "e" ∈ p.running ∧
      log = [.started "e", .abandoned "e", .started "e"] := by
  obtain ⟨⟨w, log⟩, hrun, hend⟩ := exists_run_of_exec
    ((dispatchSystem Sample.dispatcherConfig).logging
      (World.poolEvents Sample.dispatcherConfig Sample.agent))
    (fun x a => x.1.SteadyFor Sample.agent 1 a)
    (.start (Sample.registry Sample.config) .empty, []) Sample.startAfterCrash
    (fun x => x.2 == [.started "e", .abandoned "e", .started "e"] &&
      x.1.tasks.map Task.running == [some (Sample.agent, "e")]) (by decide +kernel)
  simp only [Bool.and_eq_true, beq_iff_eq] at hend
  obtain ⟨p, htrace, hrunning, -⟩ := dispatcher_refines_pool (by decide +kernel) hrun
  obtain ⟨task, hmem, htask⟩ := List.mem_map.mp
    (hend.2.symm ▸ List.mem_singleton_self _ : some (Sample.agent, "e") ∈ w.tasks.map Task.running)
  exact ⟨log, p, htrace, (hrunning "e").mpr ⟨task, hmem, htask⟩, hend.1⟩

/-- The starts among the effects of a dispatch. -/
theorem starts_map (t : ℕ) (d : Delivery) (effects : List Effect) (e : String) :
    starts (agent, e) (effects.map fun effect => ⟨t, d, effect⟩) =
      if d.agent = agent then (effects.flatMap Effect.poolEvents).count (.started e) else 0 := by
  induction effects with
  | nil => simp [starts]
  | cons effect effects ih =>
    have hcons : starts (agent, e) ((effect :: effects).map fun effect => ⟨t, d, effect⟩) =
        (if (⟨t, d, effect⟩ : Emission).started = some (agent, e) then 1 else 0) +
          starts (agent, e) (effects.map fun effect => ⟨t, d, effect⟩) := by
      simp [starts, List.countP_cons, Nat.add_comm]
    rw [hcons, ih, List.flatMap_cons, List.count_append]
    by_cases hag : d.agent = agent
    · rw [if_pos hag, if_pos hag]
      congr 1
      cases effect with
      | marked event ok => cases ok <;> simp [Emission.started, Effect.poolEvents]
      | _ => simp [Emission.started, Effect.poolEvents, hag, List.count_singleton]
    · rw [if_neg hag, if_neg hag, Nat.add_zero]
      cases effect <;> simp [Emission.started, hag]

/-- The trace of the pool has the starts of the dispatcher. -/
theorem starts_of_step {a : Action} (hstep : (dispatchSystem C).step w a = some w') (e : String) :
    starts (agent, e) w'.trace =
      starts (agent, e) w.trace + (w.poolEvents C agent a).count (.started e) := by
  have hfaults : ∀ (f : String → WorkPool.Event String), (∀ x, f x ≠ .started e) →
      ∀ l : List String, (l.map f).count (.started e) = 0 := by
    intro f hf l
    refine List.count_eq_zero.mpr fun hmem => ?_
    obtain ⟨x, -, hx⟩ := List.mem_map.mp hmem
    exact hf x hx
  cases a with
  | poll t o =>
    obtain ⟨d, s, D', s', effects, htask, hpoll, rfl⟩ := World.poll_of_step hstep
    have hnone : (w.dispatcher.passesRecorded ⟨d, s⟩).count (.started e) = 0 := by
      unfold Dispatcher.passesRecorded
      split
      · split <;> simp
      · rfl
    have htrace : starts (agent, e) (w.commit t ⟨d, s⟩ D' s' effects).trace =
        starts (agent, e) (effects.map fun effect => ⟨t, d, effect⟩) +
          starts (agent, e) w.trace := List.countP_append
    rw [htrace, starts_map, Nat.add_comm, World.poolEvents, htask]
    by_cases hag : d.agent = agent
    · simp [hag, hpoll, hnone]
    · simp [hag]
  | purge now ttl =>
    cases hstep
    rw [World.poolEvents, hfaults _ (fun _ h => by cases h)]
    rfl
  | restart registry now ttl =>
    cases hstep
    rw [World.poolEvents, List.count_append, hfaults _ (fun _ h => by cases h),
      hfaults _ (fun _ h => by cases h)]
    rfl
  | pollCall c =>
    obtain ⟨agent', s, D', s', -, -, rfl⟩ := World.step_pollCall hstep
    rfl
  | deliver _ | call _ | setRegistry _ | applyChanges _ =>
    cases hstep
    rfl

/-- What follows from being a pool, for an agent with the limit `k` in every registration and
changes applied to it only while none of its dispatches has a semaphore, over any crashes, failures
and actions of other agents.  Duplicates have a cause each: the starts for an event are at most one
more than the faults about it, which are marks that failed, rows deleted, checks that passed a
recorded event, and crashes between start and mark, and at most as many when it was recorded at the
start.  An event that is acknowledged has been recorded at the start, or a handler for it has exited
before.  And handlers of the current process run for at most `k` events at the same time. -/
theorem pool_guarantees {registry : Registry} {dedup : DedupStore}
    (hlimit : registry.Limits agent k) {log : List (WorkPool.Event String)}
    (hrun : ((dispatchSystem C).logging (World.poolEvents C agent)).Run
      (fun x a => x.1.SteadyFor agent k a) (.start registry dedup, []) (w, log)) :
    (∀ e, starts (agent, e) w.trace + (if dedup.isCompleted agent e then 1 else 0) ≤
      log.countP (WorkPool.Event.faults e) + 1) ∧
    (∀ e l r, log = l ++ .acked e :: r → dedup.isCompleted agent e = true ∨ .exited e ∈ l) ∧
    ∃ running : Finset String, running.card ≤ k.toNat ∧
      ∀ e, e ∈ running ↔ ∃ task ∈ w.tasks, task.running = some (agent, e) := by
  obtain ⟨p, htrace, hmatches⟩ := exists_trace hlimit hrun
  have hrow : ∀ e, e ∈ (dedup.eventsOf agent).toFinset ↔ dedup.isCompleted agent e = true :=
    fun e => List.mem_toFinset.trans DedupStore.mem_eventsOf
  refine ⟨fun e => ?_, fun e l r hlog => ?_, p.running, ?_,
    fun e => hmatches.mem_running_iff⟩
  · have hcount : starts (agent, e) w.trace = log.count (.started e) := by
      refine hrun.invariant (I := fun x => starts (agent, e) x.1.trace = x.2.count (.started e))
        rfl ?_
      rintro ⟨w, m⟩ a ⟨w', m'⟩ hI - hstep
      obtain ⟨hstep', rfl⟩ := step_logging hstep
      rw [starts_of_step hstep', List.count_append, hI]
    have hcover : (WorkPool.idle (dedup.eventsOf agent).toFinset).covers e =
        if dedup.isCompleted agent e then 1 else 0 := by
      simp [WorkPool.covers, WorkPool.idle, WorkPool.active, DedupStore.mem_eventsOf]
    rw [hcount, ← hcover]
    exact htrace.started_le e
  · exact (htrace.exited_of_acked hlog).imp_left (hrow e).mp
  · exact (Finset.card_le_card Finset.subset_union_left).trans htrace.card_active_le

namespace Sample

/-- The handler for an event runs when the daemon crashes; it is started again for the redelivery,
and this time the mark fails; then it is started a third time. -/
def startThrice : List Action :=
  [.deliver (delivery "e")] ++ polls 0 6 ++ [.restart (registry config) 0 0] ++
    [.deliver (delivery "e" 1 2)] ++ polls 0 7 ++ [.poll 0 { markFails := true }] ++ polls 0 3 ++
    [.deliver (delivery "e" 1 3)] ++ polls 1 6

end Sample

/-- The starts are as many as the bound says. -/
theorem pool_guarantees_startThrice :
    ∃ w log, ((dispatchSystem Sample.dispatcherConfig).logging
        (World.poolEvents Sample.dispatcherConfig Sample.agent)).Run
        (fun x a => x.1.SteadyFor Sample.agent 1 a)
        (.start (Sample.registry Sample.config) .empty, []) (w, log) ∧
      log.countP (WorkPool.Event.faults "e") = 2 ∧ starts (Sample.agent, "e") w.trace = 3 ∧
      starts (Sample.agent, "e") w.trace + 0 ≤ 2 + 1 := by
  obtain ⟨⟨w, log⟩, hrun, hend⟩ := exists_run_of_exec
    ((dispatchSystem Sample.dispatcherConfig).logging
      (World.poolEvents Sample.dispatcherConfig Sample.agent))
    (fun x a => x.1.SteadyFor Sample.agent 1 a)
    (.start (Sample.registry Sample.config) .empty, []) Sample.startThrice
    (fun x => x.2.countP (WorkPool.Event.faults "e") == 2 &&
      starts (Sample.agent, "e") x.1.trace == 3) (by decide +kernel)
  simp only [Bool.and_eq_true, beq_iff_eq] at hend
  have hbound := (pool_guarantees (by decide +kernel) hrun).1 "e"
  rw [hend.1] at hbound
  exact ⟨w, log, hrun, hend.1, hend.2, by simpa using hbound⟩

end Agentd
