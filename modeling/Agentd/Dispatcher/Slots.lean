import Agentd.Dispatcher.Steps

/-!
# Concurrency slots

How many handlers of an agent can run at the same time, and how many slots does the agent have
when none of them runs?  Both questions are about semaphores: `ensure_state` creates one for an
agent without state, `apply_changes` makes the dispatcher forget it, and dispatches that hold or
wait for one of its permits go on.

Three invariants hold on every run, whatever the environment does: permits available and permits
held add up (`Accounts`), the semaphores in use are pairwise different for different agents
(`Separate`), and sizes never change.  The limit of one agent needs the fourth one, `OneSemaphore`:
all dispatches of the agent that have a semaphore have the one in the agent's state, and its size
is the limit.  It is kept as long as no change is applied to the agent under a dispatch of it that
has a semaphore (`DetachedApply`).
-/

namespace Agentd

open TransitionSystem TaskPool

variable {C : DispatcherConfig} {w w' : World} {D D' : Dispatcher} {agent : AgentId}
  {t : ℕ} {d : Delivery} {o : Outcome} {s s' : Stage} {effects : List Effect}

/-! ## Permits add up -/

/-- Permits available and permits held add up to the sizes of the semaphores. -/
def World.Accounts (w : World) : Prop :=
  Semaphore.Balanced Task.permit w.tasks w.dispatcher.semaphores

namespace World.Accounts

theorem start (registry : Registry) (dedup : DedupStore) :
    (World.start registry dedup).Accounts :=
  Semaphore.balanced_nil _

/-- `ensure_state` keeps the accounts. -/
theorem ensureState {tasks : List Task} (h : Semaphore.Balanced Task.permit tasks D.semaphores)
    (n : UInt32) :
    Semaphore.Balanced Task.permit tasks (D.ensureState agent n).1.semaphores := by
  rcases D.ensureState_cases agent n with ⟨-, heq⟩ | ⟨-, -, heq⟩ <;> rw [heq]
  · exact h
  · exact h.create _

/-- Every step keeps the accounts. -/
theorem step (h : w.Accounts) {a : Action} (hstep : (dispatchSystem C).step w a = some w') :
    w'.Accounts := by
  cases a with
  | poll t o =>
    obtain ⟨d, s, D', s', effects, htask, hpoll, rfl⟩ := World.step_poll hstep
    change Semaphore.Balanced Task.permit (w.tasks.set t ⟨d, s'⟩) D'.semaphores
    unfold World.Accounts at h
    rcases hpoll.permit_cases with ⟨hkeep, hsem⟩ | ⟨n, hkeep, hsem⟩ |
      ⟨permits, hnone, hsome, hacq⟩ | ⟨permits, hsome, hnone, hsem⟩
    · rw [hsem]
      exact h.set_keep htask hkeep
    · rw [hsem]
      exact (h.set_keep htask hkeep).create n
    · exact h.acquire htask hnone hsome hacq
    · rw [hsem]
      exact h.release htask hsome hnone
  | pollCall c =>
    obtain ⟨agent, s, D', s', -, hpoll, rfl⟩ := World.step_pollCall hstep
    cases hpoll with
    | ensure => exact ensureState h _
    | _ => exact h
  | deliver d =>
    cases hstep
    exact h.append rfl
  | restart =>
    cases hstep
    exact Semaphore.balanced_nil _
  | _ =>
    cases hstep
    exact h

end World.Accounts

/-- A poll keeps the sizes of the semaphores that exist. -/
theorem Polls.sizes_mono (h : Polls C D d o s D' s' effects) {p n : ℕ}
    (hp : (Semaphore.sizes D.semaphores)[p]? = some n) :
    (Semaphore.sizes D'.semaphores)[p]? = some n := by
  rcases h.permit_cases with ⟨-, hsem⟩ | ⟨m, -, hsem⟩ | ⟨permits, -, -, hacq⟩ |
    ⟨permits, -, -, hsem⟩
  · rwa [hsem]
  · rw [hsem, Semaphore.sizes_append_new]
    exact getElem?_append_of_some hp
  · rwa [Semaphore.sizes_tryAcquire hacq]
  · rwa [hsem, Semaphore.sizes_release]

/-! ## Semaphores of different agents are different -/

/-- `owner` tells the agent of every semaphore that a state or a dispatch has. -/
structure OwnedBy (owner : ℕ → AgentId) (D : Dispatcher) (tasks : List Task) : Prop where
  /-- The semaphore in the state of an agent is the agent's. -/
  state : ∀ (agent : AgentId) (p : ℕ), D.permitsOf agent = some p →
    p < D.semaphores.length ∧ owner p = agent
  /-- The semaphore a dispatch has is that of its agent. -/
  task : ∀ (t : ℕ) (task : Task) (p : ℕ), tasks[t]? = some task →
    task.stage.semaphore = some p → p < D.semaphores.length ∧ owner p = task.delivery.agent

/-- No semaphore is shared by two agents. -/
def World.Separate (w : World) : Prop := ∃ owner, OwnedBy owner w.dispatcher w.tasks

namespace OwnedBy

variable {owner : ℕ → AgentId} {tasks : List Task}

/-- A new semaphore belongs to the agent it was created for, and the others keep their agents. -/
theorem ensureState (h : OwnedBy owner D tasks) (agent : AgentId) (n : UInt32) :
    ∃ owner', OwnedBy owner' (D.ensureState agent n).1 tasks ∧
      (∀ p < D.semaphores.length, owner' p = owner p) ∧
      (D.ensureState agent n).2 < (D.ensureState agent n).1.semaphores.length ∧
      owner' (D.ensureState agent n).2 = agent := by
  rcases D.ensureState_cases agent n with ⟨hperm, hsem⟩ | ⟨hnone, hnew, hsem⟩
  · obtain ⟨hlt, howner⟩ := h.state agent _ hperm
    refine ⟨owner, ⟨fun agent' p hp => ?_, ?_⟩, fun p _ => rfl, by rwa [hsem], howner⟩
    · rw [hsem]
      by_cases hag : agent' = agent
      · subst hag
        rw [Dispatcher.permitsOf_ensureState, ← hperm] at hp
        exact h.state _ p hp
      · rw [Dispatcher.permitsOf_ensureState_of_ne n hag] at hp
        exact h.state agent' p hp
    · rw [hsem]
      exact h.task
  · refine ⟨Function.update owner D.semaphores.length agent, ⟨fun agent' p hp => ?_, ?_⟩, ?_, ?_,
      ?_⟩
    · rw [hsem, List.length_append, List.length_singleton]
      by_cases hag : agent' = agent
      · subst hag
        rw [Dispatcher.permitsOf_ensureState, hnew] at hp
        obtain rfl : D.semaphores.length = p := by simpa using hp
        simp
      · rw [Dispatcher.permitsOf_ensureState_of_ne n hag] at hp
        obtain ⟨hlt, howner⟩ := h.state agent' p hp
        exact ⟨by omega, by rw [Function.update_of_ne (by omega), howner]⟩
    · intro t task p ht hp
      rw [hsem, List.length_append, List.length_singleton]
      obtain ⟨hlt, howner⟩ := h.task t task p ht hp
      exact ⟨by omega, by rw [Function.update_of_ne (by omega), howner]⟩
    · intro p hp
      exact Function.update_of_ne (by omega) ..
    · rw [hsem, hnew]
      simp
    · rw [hnew, Function.update_self]

/-- A dispatch may move to a stage with no semaphore or with one of its agent, and the shared state
may change as long as the semaphores of states stay those of their agents. -/
theorem commit (h : OwnedBy owner D tasks)
    (hlen : D'.semaphores.length = D.semaphores.length)
    (hstate : ∀ agent p, D'.permitsOf agent = some p → p < D.semaphores.length ∧ owner p = agent)
    (hs' : ∀ p, s'.semaphore = some p → p < D.semaphores.length ∧ owner p = d.agent) :
    OwnedBy owner D' (tasks.set t ⟨d, s'⟩) := by
  refine ⟨fun agent p hp => hlen ▸ hstate agent p hp, fun i task p hi hp => hlen ▸ ?_⟩
  rcases getElem?_set_cases hi with ⟨-, rfl⟩ | ⟨-, hi⟩
  · exact hs' p hp
  · exact h.task i task p hi hp

/-- An access of a dispatch keeps the semaphores of different agents apart. -/
theorem poll (h : OwnedBy owner D tasks) (htask : tasks[t]? = some ⟨d, s⟩)
    (hpoll : Polls C D d o s D' s' effects) :
    ∃ owner', OwnedBy owner' D' (tasks.set t ⟨d, s'⟩) ∧
      ∀ p < D.semaphores.length, owner' p = owner p := by
  have hsame : ∀ p < D.semaphores.length, owner p = owner p := fun p _ => rfl
  have hold : ∀ p, s.semaphore = some p → p < D.semaphores.length ∧ owner p = d.agent :=
    fun p hp => h.task t _ p htask hp
  cases hpoll with
  | @ensure job =>
    obtain ⟨owner', h', hsame', hlt, howner⟩ := h.ensureState d.agent job.config.maxConcurrency
    refine ⟨owner', h'.commit rfl h'.state fun p hp => ?_, hsame'⟩
    obtain rfl := Option.some_inj.mp hp
    exact ⟨hlt, howner⟩
  | acquire hacq => exact ⟨owner, h.commit (Semaphore.length_tryAcquire hacq) h.state hold, hsame⟩
  | @enter job permits hids =>
    refine ⟨owner, h.commit rfl (fun agent p hp => ?_) hold, hsame⟩
    by_cases hag : agent = d.agent
    · subst hag
      rw [Dispatcher.permitsOf_insertInFlight] at hp
      obtain rfl := Option.some_inj.mp hp
      cases hperm : D.permitsOf d.agent with
      | none => exact hold _ rfl
      | some q => exact h.state _ q hperm
    · rw [Dispatcher.permitsOf_insertInFlight_of_ne hag] at hp
      exact h.state agent p hp
  | remove =>
    refine ⟨owner, h.commit (by simp) (fun agent p hp => ?_) hold, hsame⟩
    rw [Dispatcher.permitsOf_removeInFlight] at hp
    exact h.state agent p hp
  | abort =>
    refine ⟨owner, h.commit (by simp) (fun agent p hp => ?_) hold, hsame⟩
    rw [Dispatcher.permitsOf_removeInFlight] at hp
    exact h.state agent p hp
  | release => exact ⟨owner, h.commit (by simp) h.state nofun, hsame⟩
  | reject => exact ⟨owner, h.commit rfl h.state nofun, hsame⟩
  | configure => exact ⟨owner, h.commit rfl h.state nofun, hsame⟩
  | termRejected => exact ⟨owner, h.commit rfl h.state nofun, hsame⟩
  | _ => exact ⟨owner, h.commit rfl h.state hold, hsame⟩

end OwnedBy

namespace World.Separate

theorem start (registry : Registry) (dedup : DedupStore) :
    (World.start registry dedup).Separate := by
  refine ⟨fun _ => Sample.agent, ⟨fun agent p hp => ?_, fun t task p ht => ?_⟩⟩
  · cases hp
  · simp [World.start] at ht

/-- Every step keeps the semaphores of different agents apart. -/
theorem step (h : w.Separate) {a : Action} (hstep : (dispatchSystem C).step w a = some w') :
    w'.Separate := by
  cases a with
  | poll t o =>
    obtain ⟨d, s, D', s', effects, htask, hpoll, rfl⟩ := World.step_poll hstep
    obtain ⟨owner, h⟩ := h
    obtain ⟨owner', h', -⟩ := h.poll htask hpoll
    exact ⟨owner', h'⟩
  | pollCall c =>
    obtain ⟨agent, s, D', s', -, hpoll, rfl⟩ := World.step_pollCall hstep
    obtain ⟨owner, h⟩ := h
    cases hpoll with
    | @ensure config =>
      obtain ⟨owner', h', -⟩ := h.ensureState agent config.maxConcurrency
      exact ⟨owner', h'⟩
    | _ => exact ⟨owner, h⟩
  | deliver d =>
    cases hstep
    obtain ⟨owner, h⟩ := h
    refine ⟨owner, h.state, fun i task p hi hp => ?_⟩
    rcases getElem?_append_cases hi with ⟨-, rfl⟩ | hi
    · cases hp
    · exact h.task i task p hi hp
  | applyChanges changes =>
    cases hstep
    obtain ⟨owner, h⟩ := h
    refine ⟨owner, fun agent p hp => ?_, h.task⟩
    rw [Dispatcher.permitsOf_applyChanges] at hp
    split at hp
    · cases hp
    · exact h.state agent p hp
  | restart =>
    cases hstep
    refine ⟨fun _ => Sample.agent, ⟨fun agent p hp => ?_, fun t task p ht => ?_⟩⟩
    · cases hp
    · simp at ht
  | _ =>
    cases hstep
    obtain ⟨owner, h⟩ := h
    exact ⟨owner, h.state, h.task⟩

end World.Separate

/-! ## The size of an agent's semaphore -/

/-- `ensure_state` keeps the semaphore of every agent that has a state. -/
theorem Dispatcher.permitsOf_ensureState_mono (agent' : AgentId) (n : UInt32) {p : ℕ}
    (hp : D.permitsOf agent = some p) : (D.ensureState agent' n).1.permitsOf agent = some p := by
  by_cases hag : agent = agent'
  · subst hag
    rcases D.ensureState_cases agent n with ⟨hsame, -⟩ | ⟨hnone, -, -⟩
    · rw [permitsOf_ensureState, ← hsame, hp]
    · simp [hp] at hnone
  · rwa [permitsOf_ensureState_of_ne _ hag]

/-- A poll keeps the semaphore of every agent that has a state. -/
theorem Polls.permitsOf_mono (h : Polls C D d o s D' s' effects) {p : ℕ}
    (hp : D.permitsOf agent = some p) : D'.permitsOf agent = some p := by
  cases h with
  | ensure => exact Dispatcher.permitsOf_ensureState_mono _ _ hp
  | @enter job permits hids =>
    by_cases hag : agent = d.agent
    · subst hag
      simp [hp]
    · rwa [Dispatcher.permitsOf_insertInFlight_of_ne hag]
  | remove => rwa [Dispatcher.permitsOf_removeInFlight]
  | abort => rwa [Dispatcher.permitsOf_removeInFlight]
  | _ => exact hp

/-- A poll that ends with a semaphore started with it or found it in the agent's state. -/
theorem Polls.semaphore_cases (h : Polls C D d o s D' s' effects) {p : ℕ}
    (hp : s'.semaphore = some p) : s.semaphore = some p ∨ D'.permitsOf d.agent = some p := by
  cases h with
  | ensure => exact .inr ((Dispatcher.permitsOf_ensureState ..).trans hp)
  | reject | configure | termRejected | release => cases hp
  | _ => exact .inl hp

/-- An access of a call keeps the semaphore of every agent that has a state. -/
theorem CallPolls.permitsOf_mono {agent' : AgentId} {c c' : CallStage}
    (h : CallPolls D agent' c D' c') {p : ℕ} (hp : D.permitsOf agent = some p) :
    D'.permitsOf agent = some p := by
  cases h with
  | ensure => exact Dispatcher.permitsOf_ensureState_mono _ _ hp
  | _ => exact hp

/-- A call that ends with a registration has just read it. -/
theorem CallPolls.registered_of_configured {agent' : AgentId} {c : CallStage}
    {config : AgentConfig} (h : CallPolls D agent' c D' (.configured config)) :
    D.registry.get agent' = some config := by
  cases h with
  | configure hget hen => exact hget

/-- A poll that ends with a registration has just read it, and it was enabled. -/
theorem Polls.registered_of_configured {job : Job}
    (h : Polls C D d o s D' (.configured job) effects) :
    D.registry.get d.agent = some job.config ∧ job.config.enabled = true := by
  cases h with
  | configure hd hget hen => exact ⟨hget, hen⟩

/-- The semaphore of the agent's state, if there is one, has size `n`. -/
def Dispatcher.Sized (D : Dispatcher) (agent : AgentId) (n : ℕ) : Prop :=
  ∀ p : ℕ, D.permitsOf agent = some p → (Semaphore.sizes D.semaphores)[p]? = some n

/-- If the next access of the dispatch gives its agent a state, then with a semaphore of size
`n`. -/
def Stage.Creates (D : Dispatcher) (n : ℕ) : Stage → Prop
  | .configured job => job.config.maxConcurrency.toNat = n
  | .slot _ permits .check => (Semaphore.sizes D.semaphores)[permits]? = some n
  | _ => True

/-- If the next access of the call gives its agent a state, then with a semaphore of size `n`. -/
def CallStage.Creates (n : ℕ) : CallStage → Prop
  | .configured config => config.maxConcurrency.toNat = n
  | _ => True

namespace Dispatcher.Sized

variable {n : ℕ}

/-- The semaphore of an agent stays as it is. -/
theorem of_permitsOf_eq (h : D.Sized agent n) (hperm : D'.permitsOf agent = D.permitsOf agent)
    (hsizes : ∀ p : ℕ, (Semaphore.sizes D.semaphores)[p]? = some n →
      (Semaphore.sizes D'.semaphores)[p]? = some n) : D'.Sized agent n :=
  fun p hp => hsizes p (h p (hperm ▸ hp))

/-- `ensure_state` for any agent, with the size `n` when it is this agent and has no state. -/
theorem ensureState (h : D.Sized agent n) {agent' : AgentId} {m : UInt32}
    (hm : agent' = agent → D.permitsOf agent = none → m.toNat = n) :
    (D.ensureState agent' m).1.Sized agent n := by
  have hsizes : ∀ p : ℕ, (Semaphore.sizes D.semaphores)[p]? = some n →
      (Semaphore.sizes (D.ensureState agent' m).1.semaphores)[p]? = some n := by
    intro p hp
    rcases D.ensureState_cases agent' m with ⟨-, hsem⟩ | ⟨-, -, hsem⟩ <;> rw [hsem]
    · exact hp
    · rw [Semaphore.sizes_append_new]
      exact getElem?_append_of_some hp
  by_cases hag : agent = agent'
  · subst hag
    intro p hp
    rw [permitsOf_ensureState, Option.some.injEq] at hp
    rcases D.ensureState_cases agent m with ⟨hperm, -⟩ | ⟨hnone, hnew, hsem⟩
    · exact hsizes p (h p (hp ▸ hperm))
    · rw [← hp, hnew, hsem, Semaphore.sizes_append_new, hm rfl hnone,
        ← Semaphore.length_sizes, List.getElem?_concat_length]
  · exact h.of_permitsOf_eq (permitsOf_ensureState_of_ne m hag) hsizes

/-- A poll keeps the size when a state that it creates for the agent has it. -/
theorem poll (h : D.Sized agent n) (hpoll : Polls C D d o s D' s' effects)
    (hcreate : d.agent = agent → D.permitsOf agent = none → s.Creates D n) :
    D'.Sized agent n := by
  have hsizes := fun p => hpoll.sizes_mono (p := p) (n := n)
  cases hpoll with
  | ensure => exact h.ensureState hcreate
  | @enter job permits hids =>
    by_cases hag : agent = d.agent
    · subst hag
      intro p hp
      rw [permitsOf_insertInFlight, Option.some.injEq] at hp
      cases hperm : D.permitsOf d.agent with
      | none =>
        obtain rfl : permits = p := by simpa [hperm] using hp
        exact hcreate rfl hperm
      | some q =>
        obtain rfl : q = p := by simpa [hperm] using hp
        exact h _ hperm
    · exact h.of_permitsOf_eq (permitsOf_insertInFlight_of_ne hag) hsizes
  | remove => exact h.of_permitsOf_eq (permitsOf_removeInFlight ..) hsizes
  | abort => exact h.of_permitsOf_eq (permitsOf_removeInFlight ..) hsizes
  | _ => exact h.of_permitsOf_eq rfl hsizes

/-- A poll of a call keeps the size when a state that it creates for the agent has it. -/
theorem pollCall (h : D.Sized agent n) {agent' : AgentId} {c c' : CallStage}
    (hpoll : CallPolls D agent' c D' c')
    (hcreate : agent' = agent → D.permitsOf agent = none → c.Creates n) : D'.Sized agent n := by
  cases hpoll with
  | ensure => exact h.ensureState hcreate
  | _ => exact h

/-- Applied changes keep the size. -/
theorem applyChanges (h : D.Sized agent n) (changes : List Change) :
    (D.applyChanges changes).Sized agent n := by
  intro p hp
  rw [permitsOf_applyChanges] at hp
  split at hp
  · cases hp
  · exact h p hp

end Dispatcher.Sized

/-! ## The concurrency limit -/

/-- The free slots of an agent are those of its semaphore, or all of its limit when it has no state,
and none when it is not enabled. -/
theorem Dispatcher.available_eq (S : Dispatcher) (agent : AgentId) :
    S.available agent = (S.registry.get agent).elim 0 fun c =>
      if c.enabled then (S.states agent).elim c.maxConcurrency.toNat fun st =>
        S.availablePermits st.permits else 0 := by
  unfold available ensureState
  cases S.registry.get agent with
  | none => rfl
  | some c =>
    cases S.states agent with
    | some st => rfl
    | none => simp [availablePermits, Semaphore.new]

/-- The limit of the agent, if it is registered, is `k`. -/
def Registry.Limits (r : Registry) (agent : AgentId) (k : UInt32) : Prop :=
  ∀ config ∈ r.get agent, config.maxConcurrency = k

instance (r : Registry) (agent : AgentId) (k : UInt32) : Decidable (r.Limits agent k) :=
  inferInstanceAs (Decidable (∀ config ∈ r.get agent, config.maxConcurrency = k))

/-- A change of the registry leaves the agent with the limit `k`, and there is no crash. -/
def Action.KeepsLimit (agent : AgentId) (k : UInt32) : Action → Prop
  | .setRegistry registry => registry.Limits agent k
  | .restart .. => False
  | _ => True

/-- Changes are not applied to the agent while a dispatch of it waits for or holds a permit. -/
def World.DetachedApply (agent : AgentId) (w : World) : Action → Prop
  | .applyChanges changes => agent ∈ changes.map Change.agentId →
      ∀ task ∈ w.tasks, task.delivery.agent = agent → task.stage.semaphore = none
  | _ => True

instance (agent : AgentId) (k : UInt32) : DecidablePred (Action.KeepsLimit agent k)
  | .setRegistry registry => inferInstanceAs (Decidable (registry.Limits agent k))
  | .restart .. => inferInstanceAs (Decidable False)
  | .deliver _ | .poll .. | .call _ | .pollCall _ | .applyChanges _ | .purge .. =>
    inferInstanceAs (Decidable True)

instance (agent : AgentId) (w : World) : DecidablePred (w.DetachedApply agent)
  | .applyChanges changes => inferInstanceAs (Decidable (agent ∈ changes.map Change.agentId →
      ∀ task ∈ w.tasks, task.delivery.agent = agent → task.stage.semaphore = none))
  | .deliver _ | .poll .. | .call _ | .pollCall _ | .setRegistry _ | .purge .. | .restart .. =>
    inferInstanceAs (Decidable True)

/-- The number of handlers of the agent that are running. -/
def runningHandlers (agent : AgentId) (tasks : List Task) : ℕ :=
  tasks.countP fun task => task.delivery.agent == agent && task.running.isSome

/-- All dispatches and calls of the agent use one semaphore, of the size of its limit. -/
structure OneSemaphore (agent : AgentId) (k : UInt32) (w : World) : Prop where
  /-- The limit of the registration. -/
  registered : w.dispatcher.registry.Limits agent k
  /-- The limit a dispatch has read. -/
  read : ∀ (t : ℕ) (d : Delivery) (job : Job), w.tasks[t]? = some ⟨d, .configured job⟩ →
    d.agent = agent → job.config.maxConcurrency = k
  /-- The limit a call has read. -/
  called : ∀ (c : ℕ) (config : AgentConfig), w.calls[c]? = some ⟨agent, .configured config⟩ →
    config.maxConcurrency = k
  /-- The size of the semaphore in the agent's state. -/
  sized : w.dispatcher.Sized agent k.toNat
  /-- A dispatch with a semaphore has that one. -/
  attached : ∀ (t : ℕ) (task : Task) (p : ℕ), w.tasks[t]? = some task →
    task.delivery.agent = agent → task.stage.semaphore = some p →
    w.dispatcher.permitsOf agent = some p

namespace OneSemaphore

variable {k : UInt32}

theorem start {registry : Registry} (h : registry.Limits agent k) (dedup : DedupStore) :
    OneSemaphore agent k (.start registry dedup) where
  registered := h
  read t d job ht := by simp [World.start] at ht
  called c config hc := by simp [World.start] at hc
  sized p hp := by cases hp
  attached t task p ht := by simp [World.start] at ht

/-- An access of a dispatch keeps the agent on one semaphore. -/
theorem poll (h : OneSemaphore agent k w) (htask : w.tasks[t]? = some ⟨d, s⟩)
    (hpoll : Polls C w.dispatcher d o s D' s' effects) :
    OneSemaphore agent k (w.commit t ⟨d, s⟩ D' s' effects) := by
  have hreg : D'.registry = w.dispatcher.registry := hpoll.registry_eq
  refine ⟨?_, fun i d' job hi hd => ?_, h.called, ?_, fun i task p hi hag hp => ?_⟩
  · change D'.registry.Limits agent k
    rw [hreg]
    exact h.registered
  · rcases getElem?_set_cases hi with ⟨-, heq⟩ | ⟨-, hi⟩
    · simp only [Task.mk.injEq] at heq
      obtain ⟨rfl, rfl⟩ := heq
      exact h.registered _ (hd ▸ hpoll.registered_of_configured.1)
    · exact h.read i d' job hi hd
  · refine h.sized.poll hpoll fun hag hnone => ?_
    -- an agent without state has no dispatch at the in-flight check
    unfold Stage.Creates
    split
    · rw [h.read t d _ htask hag]
    · have := h.attached t _ _ htask hag rfl
      simp [hnone] at this
    · trivial
  · rcases getElem?_set_cases hi with ⟨-, rfl⟩ | ⟨-, hi⟩
    · rcases hpoll.semaphore_cases hp with hold | hnew
      · exact hpoll.permitsOf_mono (h.attached t _ p htask hag hold)
      · exact hag ▸ hnew
    · exact hpoll.permitsOf_mono (h.attached i task p hi hag hp)

/-- A step keeps the agent on one semaphore when it does not apply changes under an attached
dispatch. -/
theorem step (h : OneSemaphore agent k w) {a : Action} (hlimit : a.KeepsLimit agent k)
    (hok : w.DetachedApply agent a) (hstep : (dispatchSystem C).step w a = some w') :
    OneSemaphore agent k w' := by
  cases a with
  | poll t o =>
    obtain ⟨d, s, D', s', effects, htask, hpoll, rfl⟩ := World.step_poll hstep
    exact h.poll htask hpoll
  | pollCall c =>
    obtain ⟨agent', s, D', s', hcall, hpoll, rfl⟩ := World.step_pollCall hstep
    have hcreate : agent' = agent → w.dispatcher.permitsOf agent = none → s.Creates k.toNat := by
      rintro rfl -
      unfold CallStage.Creates
      split
      · rw [h.called c _ hcall]
      · trivial
    refine ⟨?_, h.read, fun i config hi => ?_, h.sized.pollCall hpoll hcreate,
      fun i task p hi hag hp => ?_⟩
    · change D'.registry.Limits agent k
      rw [hpoll.registry_eq]
      exact h.registered
    · rcases getElem?_set_cases hi with ⟨-, heq⟩ | ⟨-, hi⟩
      · simp only [Call.mk.injEq] at heq
        obtain ⟨rfl, rfl⟩ := heq
        exact h.registered _ hpoll.registered_of_configured
      · exact h.called i config hi
    · exact hpoll.permitsOf_mono (h.attached i task p hi hag hp)
  | deliver d =>
    cases hstep
    refine ⟨h.registered, fun i d' job hi => ?_, h.called, h.sized, fun i task p hi hag hp => ?_⟩
    · rcases getElem?_append_cases hi with ⟨-, heq⟩ | hi
      · cases heq
      · exact h.read i d' job hi
    · rcases getElem?_append_cases hi with ⟨-, rfl⟩ | hi
      · cases hp
      · exact h.attached i task p hi hag hp
  | call agent' =>
    cases hstep
    refine ⟨h.registered, h.read, fun i config hi => ?_, h.sized, h.attached⟩
    rcases getElem?_append_cases hi with ⟨-, heq⟩ | hi
    · cases heq
    · exact h.called i config hi
  | setRegistry registry =>
    cases hstep
    exact ⟨hlimit, h.read, h.called, h.sized, h.attached⟩
  | applyChanges changes =>
    cases hstep
    refine ⟨h.registered, h.read, h.called, h.sized.applyChanges changes,
      fun i task p hi hag hp => ?_⟩
    change (w.dispatcher.applyChanges changes).permitsOf agent = some p
    rw [Dispatcher.permitsOf_applyChanges]
    split
    · rename_i hmem
      rw [hok hmem task (List.mem_of_getElem? hi) hag] at hp
      cases hp
    · exact h.attached i task p hi hag hp
  | purge now ttl =>
    cases hstep
    exact ⟨h.registered, h.read, h.called, h.sized, h.attached⟩
  | restart => exact hlimit.elim

/-- On one semaphore of size `k`, at most `k` handlers run. -/
theorem runningHandlers_le (h : OneSemaphore agent k w) (hacc : w.Accounts) :
    runningHandlers agent w.tasks ≤ k.toNat := by
  cases hperm : w.dispatcher.permitsOf agent with
  | none =>
    have hzero : runningHandlers agent w.tasks = 0 := by
      refine List.countP_eq_zero.mpr fun task hmem hrun => ?_
      obtain ⟨i, hi⟩ := List.mem_iff_getElem?.mp hmem
      simp only [Bool.and_eq_true, beq_iff_eq] at hrun
      obtain ⟨p, -, hp⟩ := task.permit_of_running hrun.2
      simpa [hperm] using h.attached i task p hi hrun.1 hp
    omega
  | some p =>
    calc runningHandlers agent w.tasks
        ≤ Semaphore.holders Task.permit w.tasks p := by
          refine List.countP_mono_left fun task hmem hrun => ?_
          obtain ⟨i, hi⟩ := List.mem_iff_getElem?.mp hmem
          simp only [Bool.and_eq_true, beq_iff_eq] at hrun ⊢
          obtain ⟨q, hq, hsem⟩ := task.permit_of_running hrun.2
          have := h.attached i task q hi hrun.1 hsem
          rw [hperm] at this
          rw [hq, this]
      _ ≤ k.toNat := hacc.holders_le (h.sized p hperm)

end OneSemaphore

/-- When every registration of the agent has the limit `k` and changes are applied to it only
while none of its dispatches waits for or holds a permit, at most `k` of its handlers run at the
same time. -/
theorem runningHandlers_le_limit {registry : Registry} {dedup : DedupStore} {k : UInt32}
    (hlimit : registry.Limits agent k)
    (hrun : (dispatchSystem C).Run (fun w a => a.KeepsLimit agent k ∧ w.DetachedApply agent a)
      (.start registry dedup) w) : runningHandlers agent w.tasks ≤ k.toNat := by
  have hone : OneSemaphore agent k w :=
    hrun.invariant (OneSemaphore.start hlimit dedup) fun _ _ _ h hok hstep =>
      h.step hok.1 hok.2 hstep
  have hacc : w.Accounts :=
    hrun.invariant (World.Accounts.start registry dedup) fun _ _ _ h _ hstep => h.step hstep
  exact hone.runningHandlers_le hacc

/-- The handler of a serial agent is swapped while no event is handled, then two events arrive. -/
def Sample.swapBetween : List Action :=
  [.deliver (delivery "e")] ++ polls 0 2 ++
    [.setRegistry (registry (config 1 true))] ++ polls 0 9 ++
    [.applyChanges [.updated (config 1 true)], .deliver (delivery "f" 2)] ++ polls 1 6

theorem runningHandlers_le_limit_swapBetween :
    ∃ w, (dispatchSystem Sample.dispatcherConfig).Run
        (fun w a => a.KeepsLimit Sample.agent 1 ∧ w.DetachedApply Sample.agent a)
        (.start (Sample.registry Sample.config) .empty) w ∧
      (w.tasks[1]?.bind Task.running).isSome = true ∧
      runningHandlers Sample.agent w.tasks ≤ 1 := by
  obtain ⟨w, hrun, hw⟩ := exists_run_of_exec (dispatchSystem Sample.dispatcherConfig)
    (fun w a => a.KeepsLimit Sample.agent 1 ∧ w.DetachedApply Sample.agent a)
    (.start (Sample.registry Sample.config) .empty) Sample.swapBetween
    (fun w => (w.tasks[1]?.bind Task.running).isSome) (by decide +kernel)
  exact ⟨w, hrun, hw, runningHandlers_le_limit (by decide +kernel) hrun⟩

/-- The handler of a serial agent is swapped while an event is handled, then a second event
arrives. -/
def Sample.swapWhileRunning : List Action :=
  [.deliver (delivery "e")] ++ polls 0 6 ++
    [.setRegistry (registry (config 1 true)), .applyChanges [.updated (config 1 true)],
      .deliver (delivery "f" 2)] ++ polls 1 6

/-- A handler swap gives the agent a new semaphore while the old one is held: a serial agent runs
two handlers. -/
theorem serial_agent_runs_two_handlers :
    ¬∀ (C : DispatcherConfig) (agent : AgentId) (k : UInt32) (registry : Registry)
        (dedup : DedupStore) (w : World), registry.Limits agent k →
      (dispatchSystem C).Run (fun _ a => a.KeepsLimit agent k) (.start registry dedup) w →
        runningHandlers agent w.tasks ≤ k.toNat := by
  intro h
  obtain ⟨w, hrun, hw⟩ := exists_run_of_exec (dispatchSystem Sample.dispatcherConfig)
    (fun _ a => a.KeepsLimit Sample.agent 1) (.start (Sample.registry Sample.config) .empty)
    Sample.swapWhileRunning (fun w => runningHandlers Sample.agent w.tasks == 2)
    (by decide +kernel)
  have := h _ _ 1 _ _ w (by decide +kernel) hrun
  rw [beq_iff_eq.mp hw] at this
  exact absurd this (by decide)

end Agentd
