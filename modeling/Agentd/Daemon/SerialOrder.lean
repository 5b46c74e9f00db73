import Agentd.Daemon.Registration

/-!
# Serial delivery order

Does a serial agent handle its messages in stream order?  Its consumer lets one message be
outstanding at a time, so a new message is sent only after the last one was acknowledged or
terminated.  But an outstanding message may be sent again, the daemon may have several copies of
it, and each of them is dispatched by a task of its own.

A message that has been started, or that is outstanding, is never behind a later one.  So the first
starts of the messages come in stream order as long as an ack or a term releases a message only
after it was started or when no copy of it is left that may still start (`SettlesDecided`).
-/

namespace Agentd

open TransitionSystem TaskPool History

variable {C : DispatcherConfig} {D D' D₁ : Daemon} {agent : AgentId} {seq : ℕ}

/-! ## Starts -/

/-- The message whose handler the emission says was started. -/
def Emission.startedMessage (em : Emission) : Option (AgentId × ℕ) :=
  match em.effect with
  | .spawned .. => some (em.delivery.agent, em.delivery.streamSequence)
  | _ => none

/-- The handler was started for a message of the agent. -/
def MessageStarted (agent : AgentId) (seq : ℕ) (trace : List Emission) : Prop :=
  ∃ em ∈ trace, em.startedMessage = some (agent, seq)

instance (agent : AgentId) (seq : ℕ) (trace : List Emission) :
    Decidable (MessageStarted agent seq trace) :=
  inferInstanceAs (Decidable (∃ em ∈ trace, em.startedMessage = some (agent, seq)))

/-- If the emission is the first start of a message, then the messages started before it come
earlier in the stream. -/
def StartsInOrder (agent : AgentId) (em : Emission) (past : List Emission) : Prop :=
  ∀ seq, em.startedMessage = some (agent, seq) → ¬MessageStarted agent seq past →
    ∀ seq', MessageStarted agent seq' past → seq' < seq

/-- An access starts a handler only from a stage after the registration check. -/
theorem Polls.started_cases {W W' : Dispatcher} {d : Delivery} {o : Outcome} {s s' : Stage}
    {effects : List Effect} (h : Polls C W d o s W' s' effects) (t : ℕ) :
    (∀ effect ∈ effects, Emission.startedMessage ⟨t, d, effect⟩ = none) ∨
    ∃ effect, effects = [effect] ∧ s.pending.isSome = true ∧
      Emission.startedMessage ⟨t, d, effect⟩ = some (d.agent, d.streamSequence) := by
  cases h with
  | spawn => exact .inr ⟨_, rfl, rfl, rfl⟩
  | reject h =>
    left
    intro effect heffect
    obtain rfl := List.mem_singleton.mp heffect
    cases h <;> rfl
  | configure | ensure | acquire | miss | enter | remove | abort | release => exact .inl nofun
  | _ =>
    left
    intro effect heffect
    obtain rfl := List.mem_singleton.mp heffect
    rfl

/-! ## Copies -/

/-- The deliveries a pull loop has received and not yet dispatched. -/
def LoopStage.held : LoopStage → List Delivery
  | .receiving _ inbox => inbox
  | .spawning d _ inbox => d :: inbox
  | _ => []

/-- The dispatch may still start its handler. -/
def Task.undecided (C : DispatcherConfig) (task : Task) : Bool :=
  match task.stage with
  | .received => (task.delivery.envelope? C).isSome
  | stage => stage.pending.isSome

/-- A copy of a message of the agent that carries an event of it may still start its handler: a
pull loop holds it, or it is being dispatched. -/
def Daemon.Undecided (C : DispatcherConfig) (D : Daemon) (agent : AgentId) (seq : ℕ) : Prop :=
  (∃ p ∈ D.loops, ∃ d ∈ p.stage.held,
    d.agent = agent ∧ d.streamSequence = seq ∧ (d.envelope? C).isSome = true) ∨
  ∃ task ∈ D.world.tasks,
    task.delivery.agent = agent ∧ task.delivery.streamSequence = seq ∧ task.undecided C = true

instance (C : DispatcherConfig) (D : Daemon) (agent : AgentId) (seq : ℕ) :
    Decidable (D.Undecided C agent seq) :=
  inferInstanceAs (Decidable ((∃ p ∈ D.loops, ∃ d ∈ p.stage.held,
      d.agent = agent ∧ d.streamSequence = seq ∧ (d.envelope? C).isSome = true) ∨
    ∃ task ∈ D.world.tasks,
      task.delivery.agent = agent ∧ task.delivery.streamSequence = seq ∧
        task.undecided C = true))

/-- An access does not make a decided dispatch undecided. -/
theorem Polls.undecided_mono {W W' : Dispatcher} {d : Delivery} {o : Outcome} {s s' : Stage}
    {effects : List Effect} (h : Polls C W d o s W' s' effects)
    (hs' : (⟨d, s'⟩ : Task).undecided C = true) : (⟨d, s⟩ : Task).undecided C = true := by
  cases h with
  | configure hd =>
    have henvelope := Delivery.carries_iff.mp hd
    simp [Task.undecided, henvelope]
  | ensure | acquire | miss | enter => rfl
  | _ => cases hs'

/-! ## The window of a serial consumer -/

namespace Consumer

variable {c c' : Consumer} {d : Delivery} {sending : Sending}

/-- The message was delivered and is neither acknowledged nor terminated. -/
def Holds (c : Consumer) (seq : ℕ) : Prop :=
  ∃ p ∈ c.outstanding, p.message.streamSequence = seq

/-- The consumer lets one message be outstanding, and only the last one it has sent for the first
time is. -/
structure Serial (c : Consumer) : Prop where
  window : c.config.maxAckPending = 1
  last : ∀ p ∈ c.outstanding, p.message.streamSequence = c.lastStream

/-- A message that is outstanding is the last one. -/
theorem Serial.eq_lastStream (h : c.Serial) (hseq : c.Holds seq) : seq = c.lastStream := by
  obtain ⟨p, hp, rfl⟩ := hseq
  exact h.last p hp

/-- A send keeps the consumer serial and the outstanding messages outstanding, and what it sends is
outstanding. -/
theorem Serial.send (h : c.Serial) (hsend : c.send agent sending = some (c', d)) :
    c'.Serial ∧ c.lastStream ≤ c'.lastStream ∧ (∀ seq, c.Holds seq → c'.Holds seq) ∧
      c'.Holds d.streamSequence := by
  cases sending with
  | new m =>
    simp only [Consumer.send] at hsend
    split at hsend
    · rename_i hnew
      cases hsend
      -- the window is open, so nothing is outstanding
      have hempty : c.outstanding = [] := by
        have hwindow := h.window
        exact List.eq_nil_of_length_eq_zero (by omega)
      refine ⟨⟨h.window, ?_⟩, hnew.2.le, ?_, ?_⟩
      · intro p hp
        rw [hempty] at hp
        obtain rfl := List.mem_singleton.mp hp
        rfl
      · rintro seq ⟨p, hp, -⟩
        simp [hempty] at hp
      · exact ⟨⟨m, 1⟩, List.mem_append_right _ (List.mem_singleton_self _), rfl⟩
    · cases hsend
  | again seq =>
    simp only [Consumer.send] at hsend
    split at hsend
    · rename_i p hfind
      cases hsend
      have hsame : ∀ q : Outstanding, (if q.message.streamSequence = seq then
          { q with deliveryCount := q.deliveryCount + 1 } else q).message = q.message := by
        intro q
        split <;> rfl
      have hp : p ∈ c.outstanding := List.mem_of_find?_eq_some hfind
      have hseq : p.message.streamSequence = seq := by simpa using List.find?_some hfind
      have hholds : ∀ q ∈ c.outstanding, ∃ q' ∈ c.outstanding.map fun q =>
          if q.message.streamSequence = seq then { q with deliveryCount := q.deliveryCount + 1 }
          else q, q'.message.streamSequence = q.message.streamSequence := by
        intro q hq
        exact ⟨_, List.mem_map_of_mem hq, by rw [hsame q]⟩
      refine ⟨⟨h.window, ?_⟩, le_refl _, ?_, ?_⟩
      · intro q' hq'
        obtain ⟨q, hq, rfl⟩ := List.mem_map.mp hq'
        rw [hsame q]
        exact h.last q hq
      · rintro seq' ⟨q, hq, rfl⟩
        exact hholds q hq
      · obtain ⟨q', hq', heq⟩ := hholds p hp
        exact ⟨q', hq', heq.trans hseq⟩
    · cases hsend

/-- A delivery names the agent of its consumer. -/
theorem agent_of_send (hsend : c.send agent sending = some (c', d)) : d.agent = agent := by
  cases sending with
  | new m =>
    simp only [Consumer.send] at hsend
    split at hsend <;> cases hsend
    rfl
  | again seq =>
    simp only [Consumer.send] at hsend
    split at hsend <;> cases hsend
    rfl

/-- An ack or a term keeps the consumer serial, and every other message outstanding. -/
theorem Serial.settle (h : c.Serial) (seq : ℕ) :
    (c.settle seq).Serial ∧ ∀ seq', c.Holds seq' → seq' ≠ seq → (c.settle seq).Holds seq' := by
  refine ⟨⟨h.window, ?_⟩, ?_⟩
  · intro p hp
    exact h.last p (List.mem_filter.mp hp).1
  · rintro seq' ⟨p, hp, rfl⟩ hne
    exact ⟨p, List.mem_filter.mpr ⟨hp, by simpa using hne⟩, rfl⟩

end Consumer

/-- A new consumer for the limit 1 is serial. -/
theorem Consumer.Serial.new (id : AgentId) :
    (⟨consumerConfig id 1, 0, 0, []⟩ : Consumer).Serial where
  window := rfl
  last := nofun

/-- Binding the consumer of an agent leaves the consumers that exist alone and creates at most that
of the agent. -/
theorem getOrCreateConsumer_cases (consumers : AgentId → Option Consumer) (id : AgentId)
    (config : ConsumerConfig) (agent : AgentId) :
    getOrCreateConsumer consumers id config agent = consumers agent ∨
      (id = agent ∧ consumers agent = none ∧
        getOrCreateConsumer consumers id config agent = some ⟨config, 0, 0, []⟩) := by
  cases hid : consumers id with
  | some c => exact .inl (by simp only [getOrCreateConsumer, hid])
  | none =>
    have hupdate : getOrCreateConsumer consumers id config =
        Function.update consumers id (some ⟨config, 0, 0, []⟩) := by
      simp only [getOrCreateConsumer, hid]
    rw [hupdate]
    by_cases hag : agent = id
    · subst hag
      exact .inr ⟨rfl, hid, Function.update_self ..⟩
    · exact .inl (Function.update_of_ne hag ..)

/-! ## The registration and the binds -/

/-- The step changes neither the agent's registration nor its state in the dispatcher, and is no
crash. -/
def Daemon.Spares (agent : AgentId) (D : Daemon) (a : DaemonAction) : Prop :=
  ∀ b ∈ D.worldAction a, D.world.Spares agent b

instance (agent : AgentId) (D : Daemon) (a : DaemonAction) : Decidable (D.Spares agent a) :=
  inferInstanceAs (Decidable (∀ b ∈ D.worldAction a, D.world.Spares agent b))

/-- An action that spares the agent keeps its limit and applies no change to it. -/
theorem World.Spares.keepsLimit {w : World} {k : UInt32} {b : Action} (h : w.Spares agent b)
    (hlimits : w.dispatcher.registry.Limits agent k) :
    b.KeepsLimit agent k ∧ w.DetachedApply agent b := by
  cases b with
  | setRegistry registry =>
    have hsame : registry.get agent = w.dispatcher.registry.get agent := h
    refine ⟨?_, trivial⟩
    intro config hconfig
    rw [hsame] at hconfig
    exact hlimits config hconfig
  | applyChanges changes => exact ⟨trivial, fun hmem => absurd hmem h⟩
  | restart => exact h.elim
  | _ => exact ⟨trivial, trivial⟩

/-- The relay may bind the agent's consumer only with the limit `k`. -/
def RequestStage.BindsWith (agent : AgentId) (k : UInt32) : RequestStage → Prop
  | .relay changes stage =>
    (∀ ch ∈ changes, ch.agentId = agent → ∀ c, ch = .added c ∨ ch = .enabled c →
      c.maxConcurrency = k) ∧
    ∀ n, stage = .bind n → ∀ ch ∈ changes.head?, ch.agentId = agent → n = k
  | _ => True

/-- A change that names another agent binds no consumer of this one. -/
theorem RequestStage.bindsWith_of_notMem {k : UInt32} {changes : List Change}
    (h : agent ∉ changes.map Change.agentId) :
    RequestStage.BindsWith agent k (.relay changes .begin) := by
  constructor
  · intro ch hch hag
    exact absurd (hag ▸ List.mem_map_of_mem hch) h
  · intro n hn
    cases hn

/-- The rest of the changes of an operation. -/
theorem RequestStage.BindsWith.tail {k : UInt32} {ch : Change} {rest : List Change}
    {stage : RelayStage} (h : RequestStage.BindsWith agent k (.relay (ch :: rest) stage)) :
    RequestStage.BindsWith agent k (.relay rest .begin) := by
  refine ⟨fun ch' hch' => h.1 ch' (List.mem_cons_of_mem _ hch'), ?_⟩
  intro n hn
  cases hn

/-- An access of a control operation that spares the agent binds its consumer only with the limit
that the agent is registered with. -/
theorem Serves.bindsWith {o : ServeOutcome} {stage stage' : RequestStage} {k : UInt32}
    (h : Serves D o stage D₁ stage') (hbinds : stage.BindsWith agent k)
    (hlimits : D.registry.Limits agent k)
    (hspares : ∀ changes, stage = .dispatcher changes → agent ∉ changes.map Change.agentId) :
    stage'.BindsWith agent k := by
  cases h with
  | change | refuse | finish => trivial
  | reset => exact RequestStage.bindsWith_of_notMem (hspares _ rfl)
  | @launch ch rest c hch =>
    refine ⟨hbinds.1, ?_⟩
    rintro n ⟨⟩ ch' hch' hag
    obtain rfl : ch = ch' := Option.some_inj.mp hch'
    exact hbinds.1 ch List.mem_cons_self hag c hch
  | @read ch rest c hget =>
    refine ⟨hbinds.1, ?_⟩
    rintro n ⟨⟩ ch' hch' hag
    obtain rfl : ch = ch' := Option.some_inj.mp hch'
    exact hlimits c (hag ▸ hget)
  | halt | skip | unbound | store => exact hbinds.tail
  | rebind | bind | spawn =>
    refine ⟨hbinds.1, ?_⟩
    intro n hn
    cases hn

/-- The agent is registered with the limit `k` or not at all, its dispatches share one semaphore of
that size, and its consumer is bound with that limit. -/
structure Daemon.Limited (agent : AgentId) (k : UInt32) (D : Daemon) : Prop where
  one : OneSemaphore agent k D.world
  binds : ∀ stage ∈ D.requests, stage.BindsWith agent k

namespace Daemon.Limited

variable {k : UInt32}

/-- The startup applies an `Added` with the entry of the registry. -/
theorem start {registry : Registry} (h : registry.Limits agent k) (dedup : DedupStore)
    (consumers : AgentId → Option Consumer) :
    (Daemon.start registry dedup consumers).Limited agent k where
  one := .start h dedup
  binds stage hstage := by
    rw [List.mem_singleton.mp hstage]
    refine ⟨?_, fun n hn => by cases hn⟩
    intro ch hch hag c hc
    obtain ⟨c', hc', rfl⟩ := List.mem_map.mp hch
    obtain rfl : c' = c := by simpa using hc
    obtain ⟨id, hget⟩ := Registry.mem_snapshot.mp (List.mem_filter.mp hc').1
    obtain rfl : id = agent := (Registry.agentId_of_get hget).symm.trans hag
    exact h c' hget

/-- A step that spares the agent keeps its limit. -/
theorem step (h : D.Limited agent k) {a : DaemonAction} (hspares : D.Spares agent a)
    (hstep : (daemonSystem C).step D a = some D') : D'.Limited agent k := by
  constructor
  · rcases Daemon.step_world hstep with hsame | ⟨b, hb, hworld⟩
    · rw [hsame]
      exact h.one
    · obtain ⟨hlimit, hdetached⟩ := (hspares b hb).keepsLimit h.one.registered
      exact h.one.step hlimit hdetached hworld
  · by_cases hserve : ∃ r o, a = .serve r o
    · obtain ⟨r, o, rfl⟩ := hserve
      obtain ⟨stage, D₁, stage', hr, hserve, rfl⟩ := Daemon.step_serve hstep
      have hserves := Daemon.serves_of_serve hserve
      have hmem := List.mem_of_getElem? hr
      have hnot : ∀ changes, stage = .dispatcher changes →
          agent ∉ changes.map Change.agentId := by
        rintro changes rfl
        exact hspares (.applyChanges changes) (by simp [Daemon.worldAction, hr])
      intro s hs
      rw [hserves.frame.1] at hs
      rcases List.mem_or_eq_of_mem_set hs with hs | rfl
      · exact h.binds s hs
      · exact hserves.bindsWith (h.binds stage hmem) h.one.registered hnot
    · have hother : ∀ r o, a ≠ .serve r o := fun r o heq => hserve ⟨r, o, heq⟩
      have hrestart : ∀ registry now ttl, a ≠ .restart registry now ttl := by
        rintro registry now ttl rfl
        exact hspares _ rfl
      intro s hs
      rcases Daemon.step_requests hstep hother hrestart with hreq | ⟨op, -, hreq⟩
      · exact h.binds s (hreq ▸ hs)
      · rw [hreq] at hs
        rcases List.mem_append.mp hs with hs | hs
        · exact h.binds s hs
        · rw [List.mem_singleton.mp hs]
          trivial

end Daemon.Limited

/-! ## Copies under the steps -/

/-- A dispatch that has read the registration and may still spawn is undecided. -/
theorem Task.undecided_of_pending {d : Delivery} {s : Stage} (h : s.pending.isSome = true) :
    (⟨d, s⟩ : Task).undecided C = true := by
  cases s with
  | received => cases h
  | _ => exact h

/-- A loop that takes a message holds what it held and the message. -/
theorem LoopStage.held_accept {d d' : Delivery} {s s' : LoopStage} (h : s.accept d = some s')
    (hd' : d' ∈ s'.held) : d' ∈ s.held ∨ d' = d := by
  unfold accept at h
  split at h
  · cases h
    exact (List.mem_append.mp hd').imp_right List.mem_singleton.mp
  · cases h
    rcases List.mem_cons.mp hd' with rfl | hd'
    · exact .inl List.mem_cons_self
    · refine (List.mem_append.mp hd').imp (List.mem_cons_of_mem _) List.mem_singleton.mp
  · cases h

/-- A loop that goes on holds no delivery that it did not hold. -/
theorem Pulls.held_subset {s s' : LoopStage} (h : Pulls C D agent s D' s') {d : Delivery}
    (hd : d ∈ s'.held) : d ∈ s.held := by
  cases h with
  | spawn | skip => exact List.mem_cons_of_mem _ hd
  | receive => exact hd
  | call | count => cases hd
  | idle hinbox hspawning =>
    cases s' with
    | receiving credit inbox =>
      rw [hinbox credit inbox rfl] at hd
      cases hd
    | spawning d' credit inbox => exact absurd rfl (hspawning d' credit inbox)
    | _ => cases hd

/-- A loop that goes on changes no dispatch, and a new one is of a delivery it held. -/
theorem Pulls.tasks_cases {s s' : LoopStage} (h : Pulls C D agent s D' s') {task : Task}
    (ht : task ∈ D'.world.tasks) :
    task ∈ D.world.tasks ∨ (task.delivery ∈ s.held ∧ task.stage = .received) := by
  cases h with
  | call hworld =>
    cases hworld
    exact .inl ht
  | @count c world hworld =>
    obtain ⟨agent', s, W', s', -, -, rfl⟩ := World.step_pollCall (C := C) hworld
    exact .inl ht
  | spawn hworld =>
    cases hworld
    rcases List.mem_append.mp ht with ht | ht
    · exact .inl ht
    · rw [List.mem_singleton.mp ht]
      exact .inr ⟨List.mem_cons_self, rfl⟩
  | _ => exact .inl ht

namespace Daemon

/-- No message gets an undecided copy when no loop holds a new delivery and every undecided
dispatch was undecided or held by a loop. -/
theorem Undecided.of_forall (h : D'.Undecided C agent seq)
    (hloops : ∀ p' ∈ D'.loops, ∀ d ∈ p'.stage.held, ∃ p ∈ D.loops, d ∈ p.stage.held)
    (htasks : ∀ task' ∈ D'.world.tasks, task'.undecided C = true →
      (∃ task ∈ D.world.tasks, task.delivery = task'.delivery ∧ task.undecided C = true) ∨
      (∃ p ∈ D.loops, task'.delivery ∈ p.stage.held) ∧
        (task'.delivery.envelope? C).isSome = true) : D.Undecided C agent seq := by
  rcases h with ⟨p', hp', d, hd, hagent, hseq, hevent⟩ | ⟨task', ht', hagent, hseq, hund⟩
  · obtain ⟨p, hp, hd⟩ := hloops p' hp' d hd
    exact .inl ⟨p, hp, d, hd, hagent, hseq, hevent⟩
  · rcases htasks task' ht' hund with ⟨task, ht, heq, hund⟩ | ⟨⟨p, hp, hd⟩, hevent⟩
    · exact .inr ⟨task, ht, heq ▸ hagent, heq ▸ hseq, hund⟩
    · exact .inl ⟨p, hp, _, hd, hagent, hseq, hevent⟩

/-- Only a send gives a message an undecided copy. -/
theorem undecided_of_step {a : DaemonAction} (hstep : (daemonSystem C).step D a = some D')
    (hsend : ∀ loop ag sending, a ≠ .send loop ag sending) (h : D'.Undecided C agent seq) :
    D.Undecided C agent seq := by
  have hsame : ∀ task ∈ D.world.tasks, task.undecided C = true →
      (∃ task' ∈ D.world.tasks, task'.delivery = task.delivery ∧ task'.undecided C = true) ∨
      (∃ p ∈ D.loops, task.delivery ∈ p.stage.held) ∧
        (task.delivery.envelope? C).isSome = true :=
    fun task ht hund => .inl ⟨task, ht, rfl, hund⟩
  cases a with
  | poll t o =>
    obtain ⟨world, hworld, rfl⟩ := Option.map_eq_some_iff.mp hstep
    obtain ⟨d, s, W', s', effects, htask, hpoll, rfl⟩ := World.step_poll hworld
    refine h.of_forall (fun p hp d hd => ⟨p, hp, hd⟩) ?_
    intro task' ht' hund
    rcases List.mem_or_eq_of_mem_set ht' with ht' | rfl
    · exact hsame task' ht' hund
    · exact .inl ⟨⟨d, s⟩, List.mem_of_getElem? htask, rfl, hpoll.undecided_mono hund⟩
  | pull l move =>
    obtain ⟨p, D₁, p', hp, htask, rfl⟩ := step_pull hstep
    have hmem := List.mem_of_getElem? hp
    obtain ⟨-, -, ⟨rfl, hstage⟩ | hpulls⟩ := pullTask_cases htask
    · refine h.of_forall ?_ hsame
      intro q hq d hd
      rcases List.mem_or_eq_of_mem_set hq with hq | rfl
      · exact ⟨q, hq, hd⟩
      · exact ⟨p, hmem, hstage ▸ hd⟩
    · refine h.of_forall ?_ ?_
      · intro q hq d hd
        rcases List.mem_or_eq_of_mem_set hq with hq | rfl
        · rw [hpulls.relay_eq.2.1] at hq
          exact ⟨q, hq, hd⟩
        · exact ⟨p, hmem, hpulls.held_subset hd⟩
      · intro task ht hund
        rcases hpulls.tasks_cases ht with ht | ⟨hheld, hreceived⟩
        · exact hsame task ht hund
        · refine .inr ⟨⟨p, hmem, hheld⟩, ?_⟩
          simpa [Task.undecided, hreceived] using hund
  | send loop ag sending => exact absurd rfl (hsend loop ag sending)
  | settle ag seq' =>
    obtain ⟨c, -, -, rfl⟩ := step_settle hstep
    exact h
  | request op =>
    obtain ⟨-, rfl⟩ := step_request hstep
    exact h
  | serve r o =>
    obtain ⟨stage, D₁, stage', -, hserve, rfl⟩ := step_serve hstep
    have hserves := serves_of_serve hserve
    refine h.of_forall ?_ ?_
    · intro p' hp' d hd
      obtain ⟨l, hl⟩ := List.mem_iff_getElem?.mp hp'
      rcases hserves.loop_cases hl with hfree | ⟨p, hp, -, hstage⟩
      · rw [hfree] at hd
        cases hd
      · exact ⟨p, List.mem_of_getElem? hp, hstage ▸ hd⟩
    · intro task ht hund
      rw [hserves.frame.2.1] at ht
      exact hsame task ht hund
  | shutdown =>
    obtain ⟨-, rfl⟩ := step_shutdown hstep
    exact h
  | stop pick =>
    obtain ⟨-, hworld, -, hloops⟩ := stop_cases hstep
    refine h.of_forall ?_ (hworld ▸ hsame)
    intro p' hp' d hd
    rcases hloops with hloops | ⟨l, hloops⟩
    · exact ⟨p', hloops ▸ hp', hd⟩
    · rw [hloops] at hp'
      obtain ⟨j, hj⟩ := List.mem_iff_getElem?.mp hp'
      obtain ⟨p, hp, -, hstage⟩ := PullLoop.getElem?_abort hj
      exact ⟨p, List.mem_of_getElem? hp, hstage ▸ hd⟩
  | join t =>
    obtain ⟨-, rfl⟩ := step_join hstep
    exact h
  | restart registry now ttl =>
    obtain ⟨world, hworld, rfl⟩ := step_restart hstep
    cases hworld
    rcases h with ⟨p, hp, -⟩ | ⟨task, ht, -⟩
    · cases hp
    · cases ht

/-- What a step adds to the history: emissions that start nothing, or the start of a message with an
undecided copy. -/
theorem trace_of_step {a : DaemonAction} (hstep : (daemonSystem C).step D a = some D') :
    (∃ newer, D'.world.trace = newer ++ D.world.trace ∧
      ∀ em ∈ newer, em.startedMessage = none) ∨
    ∃ em, D'.world.trace = em :: D.world.trace ∧
      ∀ agent seq, em.startedMessage = some (agent, seq) → D.Undecided C agent seq := by
  rcases step_world hstep with hsame | ⟨b, -, hworld⟩
  · exact .inl ⟨[], by rw [hsame]; rfl, nofun⟩
  cases b with
  | poll t o =>
    obtain ⟨d, s, W', s', effects, htask, hpoll, hcommit⟩ := World.step_poll hworld
    have htrace : D'.world.trace = effects.map (fun effect => ⟨t, d, effect⟩) ++ D.world.trace := by
      rw [hcommit]
      rfl
    rcases hpoll.started_cases t with hnone | ⟨effect, rfl, hpending, hstart⟩
    · refine .inl ⟨_, htrace, ?_⟩
      intro em hem
      obtain ⟨effect, heffect, rfl⟩ := List.mem_map.mp hem
      exact hnone effect heffect
    · refine .inr ⟨_, htrace, ?_⟩
      intro agent seq hmessage
      have hkey : (d.agent, d.streamSequence) = (agent, seq) :=
        Option.some_inj.mp (hstart.symm.trans hmessage)
      obtain ⟨rfl, rfl⟩ := Prod.mk.inj hkey
      exact .inr ⟨⟨d, s⟩, List.mem_of_getElem? htask, rfl, rfl, Task.undecided_of_pending hpending⟩
  | pollCall c =>
    obtain ⟨agent', s, W', s', -, -, hcommit⟩ := World.step_pollCall hworld
    exact .inl ⟨[], by rw [hcommit]; rfl, nofun⟩
  | _ =>
    have hcommit := Option.some_inj.mp hworld
    exact .inl ⟨[], by rw [← hcommit]; rfl, nofun⟩

/-- An ack or a term releases a message of the agent only after the handler was started for it, or
when no copy of it that carries an event may still start the handler. -/
def SettlesDecided (C : DispatcherConfig) (agent : AgentId) (D : Daemon) : DaemonAction → Prop
  | .settle ag seq => ag = agent →
      MessageStarted agent seq D.world.trace ∨ ¬D.Undecided C agent seq
  | _ => True

instance (C : DispatcherConfig) (agent : AgentId) (D : Daemon) :
    DecidablePred (SettlesDecided C agent D)
  | .settle ag seq => inferInstanceAs (Decidable (ag = agent →
      MessageStarted agent seq D.world.trace ∨ ¬D.Undecided C agent seq))
  | .poll .. | .pull .. | .send .. | .request _ | .serve .. | .shutdown | .stop _ | .join _
  | .restart .. => inferInstanceAs (Decidable True)

/-- The step keeps the agent's consumer, when it is a serial one, and every outstanding message that
is not released in the way `SettlesDecided` allows. -/
def KeepsConsumer (C : DispatcherConfig) (agent : AgentId) (D D' : Daemon) : Prop :=
  (∀ c' ∈ D'.consumers agent, c'.Serial) ∧
    ∀ c ∈ D.consumers agent, ∃ c' ∈ D'.consumers agent, c.lastStream ≤ c'.lastStream ∧
      ∀ seq, c.Holds seq →
        c'.Holds seq ∨ MessageStarted agent seq D.world.trace ∨ ¬D.Undecided C agent seq

/-- A step that leaves the consumer alone keeps it. -/
theorem KeepsConsumer.of_eq (hserial : ∀ c ∈ D.consumers agent, c.Serial)
    (heq : D'.consumers agent = D.consumers agent) : KeepsConsumer C agent D D' := by
  refine ⟨fun c hc => hserial c (heq ▸ hc), fun c hc => ?_⟩
  exact ⟨c, heq.symm ▸ hc, le_refl _, fun seq hseq => .inl hseq⟩

/-- A step that replaces the consumer of the agent. -/
theorem KeepsConsumer.of_update {c c' : Consumer} (hc : D.consumers agent = some c)
    (hc' : D'.consumers agent = some c') (hserial : c'.Serial)
    (hlast : c.lastStream ≤ c'.lastStream)
    (hholds : ∀ seq, c.Holds seq →
      c'.Holds seq ∨ MessageStarted agent seq D.world.trace ∨ ¬D.Undecided C agent seq) :
    KeepsConsumer C agent D D' := by
  constructor
  · intro c₁ hc₁
    obtain rfl : c' = c₁ := Option.some_inj.mp (hc'.symm.trans hc₁)
    exact hserial
  · intro c₁ hc₁
    obtain rfl : c = c₁ := Option.some_inj.mp (hc.symm.trans hc₁)
    exact ⟨c', hc', hlast, hholds⟩

/-- A send keeps the consumer of every agent. -/
theorem keepsConsumer_send {ag : AgentId} {c c' : Consumer} {d : Delivery} {sending : Sending}
    (hserial : ∀ c ∈ D.consumers agent, c.Serial) (hc : D.consumers ag = some c)
    (hsend : c.send ag sending = some (c', d))
    (hcons : D'.consumers = Function.update D.consumers ag (some c')) :
    KeepsConsumer C agent D D' := by
  by_cases hag : ag = agent
  · subst hag
    obtain ⟨hserial', hlast, hholds, -⟩ := (hserial c hc).send hsend
    have hc' : D'.consumers ag = some c' := by
      rw [hcons]
      exact Function.update_self ..
    exact .of_update hc hc' hserial' hlast fun seq hseq => .inl (hholds seq hseq)
  · refine .of_eq hserial ?_
    rw [hcons]
    exact Function.update_of_ne (Ne.symm hag) ..

/-- Every step that meets the condition keeps the consumer of a serial agent. -/
theorem keepsConsumer_of_step {a : DaemonAction} (hlimited : D.Limited agent 1)
    (hserial : ∀ c ∈ D.consumers agent, c.Serial) (hsettles : SettlesDecided C agent D a)
    (hstep : (daemonSystem C).step D a = some D') : KeepsConsumer C agent D D' := by
  cases a with
  | poll t o =>
    obtain ⟨world, -, rfl⟩ := Option.map_eq_some_iff.mp hstep
    exact .of_eq hserial rfl
  | pull l move =>
    obtain ⟨p, D₁, p', -, htask, rfl⟩ := step_pull hstep
    obtain ⟨-, -, ⟨rfl, -⟩ | hpulls⟩ := pullTask_cases htask
    · exact .of_eq hserial rfl
    · exact .of_eq hserial (congrFun hpulls.relay_eq.2.2.2.1 agent)
  | send loop ag sending =>
    obtain ⟨c, c', d, hc, hsend, ⟨-, rfl⟩ | ⟨l, p, stage, -, -, -, -, rfl⟩⟩ := step_send hstep
    · exact keepsConsumer_send hserial hc hsend rfl
    · exact keepsConsumer_send hserial hc hsend rfl
  | settle ag seq =>
    obtain ⟨c, hc, -, rfl⟩ := step_settle hstep
    by_cases hag : ag = agent
    · subst hag
      obtain ⟨hserial', hholds⟩ := (hserial c hc).settle seq
      refine .of_update hc (Function.update_self ..) hserial' (le_refl _) ?_
      intro seq' hseq'
      by_cases hseq : seq' = seq
      · subst hseq
        exact .inr (hsettles rfl)
      · exact .inl (hholds seq' hseq' hseq)
    · exact .of_eq hserial (Function.update_of_ne (Ne.symm hag) ..)
  | request op =>
    obtain ⟨-, rfl⟩ := step_request hstep
    exact .of_eq hserial rfl
  | serve r o =>
    obtain ⟨stage, D₁, stage', hr, hserve, rfl⟩ := step_serve hstep
    have hbinds := hlimited.binds stage (List.mem_of_getElem? hr)
    cases serves_of_serve hserve with
    | rebind | halt =>
      refine .of_eq hserial ?_
      unfold stopPull
      split <;> rfl
    | @bind ch rest n =>
      rcases getOrCreateConsumer_cases D.consumers ch.agentId
        (consumerConfig ch.agentId n.toNat) agent with heq | ⟨hag, hnone, hnew⟩
      · exact .of_eq hserial heq
      · -- the first bind of the agent's consumer
        subst hag
        have hn : n = 1 := hbinds.2 n rfl ch rfl rfl
        constructor
        · intro c hc
          have heq : some ⟨consumerConfig ch.agentId n.toNat, 0, 0, []⟩ = some c :=
            hnew.symm.trans hc
          obtain rfl := Option.some_inj.mp heq
          rw [hn]
          exact .new ch.agentId
        · intro c hc
          cases hnone.symm.trans hc
    | _ => exact .of_eq hserial rfl
  | shutdown =>
    obtain ⟨-, rfl⟩ := step_shutdown hstep
    exact .of_eq hserial rfl
  | stop pick => exact .of_eq hserial (congrFun (stop_cases hstep).2.2.1 agent)
  | join t =>
    obtain ⟨-, rfl⟩ := step_join hstep
    exact .of_eq hserial rfl
  | restart registry now ttl =>
    obtain ⟨world, -, rfl⟩ := step_restart hstep
    exact .of_eq hserial rfl

/-- A copy that a step leaves undecided was undecided before, or is of an outstanding message. -/
theorem undecided_cases {a : DaemonAction} (hserial : ∀ c ∈ D.consumers agent, c.Serial)
    (hstep : (daemonSystem C).step D a = some D') (h : D'.Undecided C agent seq) :
    D.Undecided C agent seq ∨ ∃ c' ∈ D'.consumers agent, c'.Holds seq := by
  by_cases hsend : ∃ loop ag sending, a = .send loop ag sending
  · obtain ⟨loop, ag, sending, rfl⟩ := hsend
    obtain ⟨c, c', d, hc, hsend, ⟨-, rfl⟩ | ⟨l, p, stage, -, hp, hag, haccept, rfl⟩⟩ :=
      step_send hstep
    · exact .inl h
    · rcases h with ⟨q, hq, d', hd', hagent, hseq, hevent⟩ | htask
      · rcases List.mem_or_eq_of_mem_set hq with hq | rfl
        · exact .inl (.inl ⟨q, hq, d', hd', hagent, hseq, hevent⟩)
        · rcases LoopStage.held_accept haccept hd' with hheld | rfl
          · exact .inl (.inl ⟨p, List.mem_of_getElem? hp, d', hheld, hagent, hseq, hevent⟩)
          · -- the new copy
            have hd : d'.agent = ag := Consumer.agent_of_send hsend
            obtain rfl : ag = agent := hd.symm.trans hagent
            obtain ⟨-, -, -, hholds⟩ := (hserial c hc).send hsend
            exact .inr ⟨c', Function.update_self .., hseq ▸ hholds⟩
      · exact .inl (.inr htask)
  · refine .inl (undecided_of_step hstep ?_ h)
    rintro loop ag sending rfl
    exact hsend ⟨loop, ag, sending, rfl⟩

end Daemon

/-! ## The order -/

theorem MessageStarted.append {past : List Emission} (h : MessageStarted agent seq past)
    (newer : List Emission) : MessageStarted agent seq (newer ++ past) := by
  obtain ⟨em, hem, hkey⟩ := h
  exact ⟨em, List.mem_append_right _ hem, hkey⟩

/-- A message with an undecided copy is outstanding or was started, no message that was started is
later in the stream than the last one sent, and the first starts were in order. -/
structure FirstStartsInOrder (C : DispatcherConfig) (agent : AgentId) (D : Daemon) : Prop where
  serial : ∀ c ∈ D.consumers agent, c.Serial
  undecided : ∀ seq, D.Undecided C agent seq →
    (∃ c ∈ D.consumers agent, c.Holds seq) ∨ MessageStarted agent seq D.world.trace
  sent : ∀ seq, MessageStarted agent seq D.world.trace →
    ∃ c ∈ D.consumers agent, seq ≤ c.lastStream
  order : Every (StartsInOrder agent) D.world.trace

namespace FirstStartsInOrder

theorem start (registry : Registry) (dedup : DedupStore) {consumers : AgentId → Option Consumer}
    (h : ∀ c ∈ consumers agent, c.Serial) :
    FirstStartsInOrder C agent (.start registry dedup consumers) where
  serial := h
  undecided := by
    rintro seq (⟨p, hp, -⟩ | ⟨task, ht, -⟩)
    · cases hp
    · cases ht
  sent := by
    rintro seq ⟨em, hem, -⟩
    cases hem
  order := trivial

/-- A message that is undecided was sent. -/
theorem sent_of_undecided (h : FirstStartsInOrder C agent D) (hund : D.Undecided C agent seq) :
    ∃ c ∈ D.consumers agent, seq ≤ c.lastStream := by
  rcases h.undecided seq hund with ⟨c, hc, hseq⟩ | hstarted
  · exact ⟨c, hc, ((h.serial c hc).eq_lastStream hseq).le⟩
  · exact h.sent seq hstarted

/-- The start of a message with an undecided copy is in order. -/
theorem startsInOrder (h : FirstStartsInOrder C agent D) {em : Emission}
    (hem : ∀ seq, em.startedMessage = some (agent, seq) → D.Undecided C agent seq) :
    StartsInOrder agent em D.world.trace := by
  intro seq hkey hfirst seq' hstarted
  rcases h.undecided seq (hem seq hkey) with ⟨c, hc, hseq⟩ | hbefore
  · have hlast : seq = c.lastStream := (h.serial c hc).eq_lastStream hseq
    obtain ⟨c₂, hc₂, hle⟩ := h.sent seq' hstarted
    obtain rfl : c = c₂ := Option.some_inj.mp (hc.symm.trans hc₂)
    have hne : seq' ≠ seq := by
      rintro rfl
      exact hfirst hstarted
    omega
  · exact absurd hbefore hfirst

/-- A step that meets the condition keeps the first starts in order. -/
theorem step (h : FirstStartsInOrder C agent D) (hlimited : D.Limited agent 1) {a : DaemonAction}
    (hsettles : Daemon.SettlesDecided C agent D a)
    (hstep : (daemonSystem C).step D a = some D') : FirstStartsInOrder C agent D' := by
  obtain ⟨hserial, hkeeps⟩ :=
    Daemon.keepsConsumer_of_step hlimited h.serial hsettles hstep
  have htrace := Daemon.trace_of_step hstep
  -- the history only grows
  obtain ⟨newer, hnewer⟩ : ∃ newer, D'.world.trace = newer ++ D.world.trace := by
    rcases htrace with ⟨newer, hnewer, -⟩ | ⟨em, hem, -⟩
    · exact ⟨newer, hnewer⟩
    · exact ⟨[em], hem⟩
  have hsent : ∀ seq, (∃ c ∈ D.consumers agent, seq ≤ c.lastStream) →
      ∃ c' ∈ D'.consumers agent, seq ≤ c'.lastStream := by
    rintro seq ⟨c, hc, hle⟩
    obtain ⟨c', hc', hlast, -⟩ := hkeeps c hc
    exact ⟨c', hc', hle.trans hlast⟩
  constructor
  · exact hserial
  · intro seq hund'
    rcases Daemon.undecided_cases h.serial hstep hund' with hund | hholds
    · rcases h.undecided seq hund with ⟨c, hc, hseq⟩ | hstarted
      · obtain ⟨c', hc', -, hholds⟩ := hkeeps c hc
        rcases hholds seq hseq with hseq' | hstarted | hdecided
        · exact .inl ⟨c', hc', hseq'⟩
        · exact .inr (hnewer ▸ hstarted.append newer)
        · exact absurd hund hdecided
      · exact .inr (hnewer ▸ hstarted.append newer)
    · exact .inl hholds
  · intro seq hstarted
    rcases htrace with ⟨newer, hnewer, hnone⟩ | ⟨em, hnewer, hem⟩ <;> rw [hnewer] at hstarted
    · obtain ⟨em, hem, hkey⟩ := hstarted
      rcases List.mem_append.mp hem with hem | hem
      · rw [hnone em hem] at hkey
        cases hkey
      · exact hsent seq (h.sent seq ⟨em, hem, hkey⟩)
    · obtain ⟨em', hem', hkey⟩ := hstarted
      rcases List.mem_cons.mp hem' with rfl | hem'
      · exact hsent seq (h.sent_of_undecided (hem agent seq hkey))
      · exact hsent seq (h.sent seq ⟨em', hem', hkey⟩)
  · rcases htrace with ⟨newer, hnewer, hnone⟩ | ⟨em, hnewer, hem⟩ <;> rw [hnewer]
    · refine h.order.append ?_
      intro em hem past seq hkey
      rw [hnone em hem] at hkey
      cases hkey
    · exact ⟨h.startsInOrder (hem agent), h.order⟩

end FirstStartsInOrder

/-- A serial agent whose registration does not change never runs two handlers at a time, and when
its messages are released only after they were started or decided, the first starts of the
messages are in stream order. -/
theorem serial_starts_in_order {registry : Registry} {dedup : DedupStore}
    {consumers : AgentId → Option Consumer} (hlimit : registry.Limits agent 1)
    (hserial : ∀ c ∈ consumers agent, c.Serial)
    (hrun : (daemonSystem C).Run (fun D a => D.Spares agent a ∧ Daemon.SettlesDecided C agent D a)
      (.start registry dedup consumers) D) :
    runningHandlers agent D.world.tasks ≤ 1 ∧
      ∀ em past, em :: past <:+ D.world.trace → StartsInOrder agent em past := by
  have hworld : (dispatchSystem C).Run (fun _ _ => True) (.start registry dedup) D.world :=
    Daemon.run_world hrun fun _ _ _ _ _ => trivial
  have haccounts : D.world.Accounts :=
    hworld.invariant (World.Accounts.start registry dedup) fun _ _ _ h _ hstep => h.step hstep
  have hinv : D.Limited agent 1 ∧ FirstStartsInOrder C agent D := by
    refine hrun.invariant (I := fun D => D.Limited agent 1 ∧ FirstStartsInOrder C agent D)
      ⟨.start hlimit dedup consumers, .start registry dedup hserial⟩ ?_
    rintro x a y ⟨hlimited, horder⟩ ⟨hspares, hsettles⟩ hstep
    exact ⟨hlimited.step hspares hstep, horder.step hlimited hsettles hstep⟩
  refine ⟨hinv.1.one.runningHandlers_le haccounts, ?_⟩
  intro em past hsuffix
  exact hinv.2.order.of_suffix hsuffix

namespace Sample

/-- The pull loop gets a message and spawns its dispatch, after its last request came to an end. -/
def pullNext (sending : Sending) : List DaemonAction :=
  [.pull 0 .fail] ++ advances 0 6 ++ [.send (some 0) Sample.agent sending] ++ advances 0 2

/-- The second message of the stream, with the event `f`. -/
def secondMessage : Message := ⟨2, (delivery "f").raw⟩

/-- The first message is pulled twice and handled, and its ack arrives while the second copy is
not polled yet.  Then the second message is handled, and then the second copy is. -/
def redeliverAndGoOn : List DaemonAction :=
  pullFirst ++ pullNext (.again 1) ++ dispatches 0 11 ++ [.settle Sample.agent 1] ++
    pullNext (.new secondMessage) ++ dispatches 2 11 ++ dispatches 1 4

/-- The first message is pulled twice, and the first copy is terminated because its handler cannot
be spawned.  Then the second message is handled, and then the second copy of the first one is. -/
def spawnFailsOnce : List DaemonAction :=
  pullFirst ++ pullNext (.again 1) ++ dispatches 0 5 ++ [.poll 0 { spawnFails := true }] ++
    dispatches 0 3 ++ [.settle Sample.agent 1] ++ pullNext (.new secondMessage) ++
    dispatches 2 11 ++ dispatches 1 6

end Sample

theorem serial_starts_in_order_redeliverAndGoOn :
    ∃ D, (daemonSystem Sample.dispatcherConfig).Run
        (fun D a => D.Spares Sample.agent a ∧
          Daemon.SettlesDecided Sample.dispatcherConfig Sample.agent D a)
        (.start (Sample.registry Sample.config) .empty fun _ => none) D ∧
      (MessageStarted Sample.agent 1 D.world.trace ∧ MessageStarted Sample.agent 2 D.world.trace) ∧
      runningHandlers Sample.agent D.world.tasks ≤ 1 ∧
      ∀ em past, em :: past <:+ D.world.trace → StartsInOrder Sample.agent em past := by
  obtain ⟨D, hrun, hend⟩ := exists_run_of_exec (daemonSystem Sample.dispatcherConfig)
    (fun D a => D.Spares Sample.agent a ∧
      Daemon.SettlesDecided Sample.dispatcherConfig Sample.agent D a)
    (.start (Sample.registry Sample.config) .empty fun _ => none) Sample.redeliverAndGoOn
    (fun D => decide (MessageStarted Sample.agent 1 D.world.trace ∧
      MessageStarted Sample.agent 2 D.world.trace)) (by decide +kernel)
  exact ⟨D, hrun, of_decide_eq_true hend,
    serial_starts_in_order (by decide +kernel) (by simp) hrun⟩

/-- A copy of a message that was terminated because its handler could not be spawned is handled
after a later message. -/
theorem terminated_message_started_late :
    ¬∀ (C : DispatcherConfig) (agent : AgentId) (registry : Registry) (dedup : DedupStore)
        (consumers : AgentId → Option Consumer) (D : Daemon), registry.Limits agent 1 →
      (∀ c ∈ consumers agent, c.Serial) →
      (daemonSystem C).Run (fun D a => D.Spares agent a) (.start registry dedup consumers) D →
        runningHandlers agent D.world.tasks ≤ 1 ∧
          ∀ em past, em :: past <:+ D.world.trace → StartsInOrder agent em past := by
  intro h
  obtain ⟨D, hrun, hend⟩ := exists_run_of_exec (daemonSystem Sample.dispatcherConfig)
    (fun D a => D.Spares Sample.agent a)
    (.start (Sample.registry Sample.config) .empty fun _ => none) Sample.spawnFailsOnce
    (fun D => D.world.trace.head?.any fun em : Emission => decide (
      em.startedMessage = some (Sample.agent, 1) ∧
        ¬MessageStarted Sample.agent 1 D.world.trace.tail ∧
        MessageStarted Sample.agent 2 D.world.trace.tail)) (by decide +kernel)
  obtain ⟨em, hem, hend⟩ := (Option.any_eq_true _ _).mp hend
  obtain ⟨hstart, hfirst, hsecond⟩ := of_decide_eq_true hend
  have hsuffix : em :: D.world.trace.tail <:+ D.world.trace := by
    rw [List.cons_head?_tail hem]
  have horder := (h _ Sample.agent _ _ _ D (by decide +kernel) (by simp) hrun).2 em _ hsuffix
  have hlt : 2 < 1 := horder 1 hstart hfirst 2 hsecond
  omega

end Agentd
