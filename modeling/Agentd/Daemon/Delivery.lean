import Agentd.Daemon.SerialOrder
import Agentd.Dispatcher.Genuine

/-!
# From the server to the handler

What becomes of a message that the server has sent?  The daemon may crash at any point, resend
requests may fail, acks may be lost, and the registration may change under the message.  The stream
keeps a message for the days of its age limit and then drops it, whatever became of it;
`streamSystem` adds that to the daemon, at any time, and logs what was sent and what was dropped.

No message is lost (`sent_until_handled`): it is outstanding at the server, which sends it again, or
the stream has dropped it, or it was acknowledged after a handler for its event has run, or it was
terminated for a reason that the history shows.  And nothing is made up (`started_were_sent`): every
handler gets the bytes of a message that the server sent to the consumer of its agent, and there are
never more starts of a message than sends.  The first result is an invariant about the outstanding
messages (`Conserved`), the second one also counts the copies of a delivery that are around
(`Daemon.copies`). -/

namespace Agentd

open TransitionSystem TaskPool History

variable {C : DispatcherConfig} {D D' : Daemon} {a : DaemonAction} {agent : AgentId} {d : Delivery}
  {log : List Delivery}

/-! ## What the server sends -/

/-- The message that a delivery is a copy of. -/
def Delivery.message (d : Delivery) : Message := ⟨d.streamSequence, d.raw⟩

/-- What a copy of a message carries depends on the message and the agent only. -/
theorem Delivery.Carries.congr {d' : Delivery} {envelope : EventEnvelope}
    (h : d.Carries C envelope) (hagent : d'.agent = d.agent) (hmessage : d'.message = d.message) :
    d'.Carries C envelope := by
  obtain ⟨-, hraw⟩ := Message.mk.inj hmessage
  exact ⟨hraw ▸ h.size, hraw ▸ h.parse, hagent ▸ h.agent⟩

namespace Consumer

variable {c c' : Consumer} {sending : Sending}

/-- The messages that are delivered and neither acknowledged nor terminated. -/
def messages (c : Consumer) : List Message := c.outstanding.map Outstanding.message

/-- A send gives a delivery the next sequence of the consumer.  It is of a message later in the
stream than all before, or of one that is outstanding. -/
theorem send_cases (h : c.send agent sending = some (c', d)) :
    d.agent = agent ∧ d.consumerSequence = c.lastConsumer + 1 ∧
      c'.lastConsumer = c.lastConsumer + 1 ∧
      ((c.lastStream < d.streamSequence ∧ c'.lastStream = d.streamSequence ∧
          c'.messages = c.messages ++ [d.message]) ∨
        (d.message ∈ c.messages ∧ c'.lastStream = c.lastStream ∧ c'.messages = c.messages)) := by
  rcases sending with m | seq
  · simp only [send] at h
    split at h
    · rename_i hnew
      cases h
      refine ⟨rfl, rfl, rfl, .inl ⟨hnew.2, rfl, ?_⟩⟩
      simp [messages, Delivery.message]
    · cases h
  · simp only [send] at h
    split at h
    · rename_i p hfind
      cases h
      have hp : p ∈ c.outstanding := List.mem_of_find?_eq_some hfind
      have hseq : p.message.streamSequence = seq := by simpa using List.find?_some hfind
      refine ⟨rfl, rfl, rfl, .inr ⟨?_, rfl, ?_⟩⟩
      · exact List.mem_map.mpr ⟨p, hp, by simp [Delivery.message, ← hseq]⟩
      · simp only [messages, List.map_map]
        refine List.map_congr_left fun q hq => ?_
        simp only [Function.comp_apply]
        split <;> rfl
    · cases h

/-- The message sent is outstanding afterwards, with those that were before. -/
theorem mem_messages_send (h : c.send agent sending = some (c', d)) {m : Message} :
    m ∈ c'.messages ↔ m ∈ c.messages ∨ m = d.message := by
  obtain ⟨-, -, -, ⟨-, -, heq⟩ | ⟨hm, -, heq⟩⟩ := send_cases h
  · rw [heq, List.mem_append, List.mem_singleton]
  · rw [heq]
    refine ⟨.inl, ?_⟩
    rintro (hm' | rfl)
    · exact hm'
    · exact hm

/-- An ack or a term takes its message off. -/
theorem mem_messages_settle {m : Message} {seq : ℕ} :
    m ∈ (c.settle seq).messages ↔ m ∈ c.messages ∧ m.streamSequence ≠ seq := by
  simp only [messages, settle, List.mem_map, List.mem_filter, bne_iff_ne, ne_eq]
  constructor
  · rintro ⟨p, ⟨hp, hne⟩, rfl⟩
    exact ⟨⟨p, hp, rfl⟩, hne⟩
  · rintro ⟨⟨p, hp, rfl⟩, hne⟩
    exact ⟨p, ⟨hp, hne⟩, rfl⟩

end Consumer

/-! ## The steps as the server and the deliveries see them -/

namespace Daemon

/-- What the server sends at a step. -/
def deliveries (D : Daemon) : DaemonAction → List Delivery
  | .send _ agent sending =>
    match (D.consumers agent).bind fun c => c.send agent sending with
    | some (_, d) => [d]
    | none => []
  | _ => []

/-- A delivery is in the daemon's hands, or was: a pull loop holds it, or it was dispatched, or the
history is about it. -/
def Delivers (D : Daemon) (d : Delivery) : Prop :=
  (∃ p ∈ D.loops, d ∈ p.stage.held) ∨ (∃ task ∈ D.world.tasks, task.delivery = d) ∨
    ∃ em ∈ D.world.trace, em.delivery = d

/-- A send makes a delivery of what the consumer sends. -/
theorem deliveries_send {loop : Option ℕ} {sending : Sending} {c c' : Consumer}
    (hc : D.consumers agent = some c) (hsend : c.send agent sending = some (c', d)) :
    D.deliveries (.send loop agent sending) = [d] := by
  simp [deliveries, hc, hsend]

/-- A send changes the consumer that it is from, and no other one. -/
theorem consumers_of_send {loop : Option ℕ} {sending : Sending} {c c' : Consumer}
    (hstep : (daemonSystem C).step D (.send loop agent sending) = some D')
    (hc : D.consumers agent = some c) (hsend : c.send agent sending = some (c', d)) :
    D'.consumers = Function.update D.consumers agent (some c') := by
  obtain ⟨c₁, c₂, d₁, hc₁, hsend₁, hD'⟩ := step_send hstep
  obtain rfl : c = c₁ := Option.some_inj.mp (hc.symm.trans hc₁)
  obtain ⟨rfl, -⟩ := Prod.mk.inj (Option.some_inj.mp (hsend.symm.trans hsend₁))
  rcases hD' with ⟨-, rfl⟩ | ⟨l, p, stage, -, -, -, -, rfl⟩ <;> rfl

/-- What a step does to the consumer of an agent: nothing, it sends a message, it settles one that
the history resolves, or it is created. -/
theorem consumer_of_step (hstep : (daemonSystem C).step D a = some D') (agent : AgentId) :
    D'.consumers agent = D.consumers agent ∨
    (∃ loop sending c c' d, a = .send loop agent sending ∧ D.consumers agent = some c ∧
      c.send agent sending = some (c', d) ∧ D'.consumers agent = some c') ∨
    (∃ seq c, a = .settle agent seq ∧ D.consumers agent = some c ∧
      (D.world.trace.any fun em => em.resolves agent seq) = true ∧
      D'.consumers agent = some (c.settle seq)) ∨
    (D.consumers agent = none ∧ ∃ config, D'.consumers agent = some ⟨config, 0, 0, []⟩) := by
  cases a with
  | poll t o =>
    obtain ⟨world, -, rfl⟩ := Option.map_eq_some_iff.mp hstep
    exact .inl rfl
  | pull l move =>
    obtain ⟨p, D₁, p', -, htask, rfl⟩ := step_pull hstep
    obtain ⟨-, -, ⟨rfl, -⟩ | hpulls⟩ := pullTask_cases htask
    · exact .inl rfl
    · exact .inl (congrFun hpulls.relay_eq.2.2.2.1 agent)
  | send loop ag sending =>
    obtain ⟨c, c', d, hc, hsend, -⟩ := step_send hstep
    rw [consumers_of_send hstep hc hsend]
    by_cases hag : agent = ag
    · subst hag
      exact .inr (.inl ⟨loop, sending, c, c', d, rfl, hc, hsend, Function.update_self ..⟩)
    · exact .inl (Function.update_of_ne hag ..)
  | settle ag seq =>
    obtain ⟨c, hc, hres, rfl⟩ := step_settle hstep
    by_cases hag : agent = ag
    · subst hag
      exact .inr (.inr (.inl ⟨seq, c, rfl, hc, hres, Function.update_self ..⟩))
    · exact .inl (Function.update_of_ne hag ..)
  | request op =>
    obtain ⟨-, rfl⟩ := step_request hstep
    exact .inl rfl
  | serve r o =>
    obtain ⟨stage, D₁, stage', -, hserve, rfl⟩ := step_serve hstep
    cases serves_of_serve hserve with
    | rebind | halt =>
      left
      unfold stopPull
      split <;> rfl
    | @bind ch rest n =>
      rcases getOrCreateConsumer_cases D.consumers ch.agentId
        (consumerConfig ch.agentId n.toNat) agent with heq | ⟨-, hnone, hnew⟩
      · exact .inl heq
      · exact .inr (.inr (.inr ⟨hnone, _, hnew⟩))
    | _ => exact .inl rfl
  | shutdown =>
    obtain ⟨-, rfl⟩ := step_shutdown hstep
    exact .inl rfl
  | stop pick => exact .inl (congrFun (stop_cases hstep).2.2.1 agent)
  | join t =>
    obtain ⟨-, rfl⟩ := step_join hstep
    exact .inl rfl
  | restart registry now ttl =>
    obtain ⟨world, -, rfl⟩ := step_restart hstep
    exact .inl rfl

/-- A pull loop holds what it held before and what the server sends at the step. -/
theorem held_of_step (hstep : (daemonSystem C).step D a = some D')
    (h : ∃ p ∈ D'.loops, d ∈ p.stage.held) :
    (∃ p ∈ D.loops, d ∈ p.stage.held) ∨ d ∈ D.deliveries a := by
  obtain ⟨q, hq, hd⟩ := h
  cases a with
  | poll t o =>
    obtain ⟨world, -, rfl⟩ := Option.map_eq_some_iff.mp hstep
    exact .inl ⟨q, hq, hd⟩
  | pull l move =>
    left
    obtain ⟨p, D₁, p', hp, htask, rfl⟩ := step_pull hstep
    have hmem := List.mem_of_getElem? hp
    obtain ⟨-, -, ⟨rfl, hstage⟩ | hpulls⟩ := pullTask_cases htask
    · rcases List.mem_or_eq_of_mem_set hq with hq | rfl
      · exact ⟨q, hq, hd⟩
      · exact ⟨p, hmem, hstage ▸ hd⟩
    · rcases List.mem_or_eq_of_mem_set hq with hq | rfl
      · rw [hpulls.relay_eq.2.1] at hq
        exact ⟨q, hq, hd⟩
      · exact ⟨p, hmem, hpulls.held_subset hd⟩
  | send loop ag sending =>
    obtain ⟨c, c', d', hc, hsend, ⟨-, rfl⟩ | ⟨l, p, stage, -, hp, -, haccept, rfl⟩⟩ :=
      step_send hstep
    · exact .inl ⟨q, hq, hd⟩
    · rcases List.mem_or_eq_of_mem_set hq with hq | rfl
      · exact .inl ⟨q, hq, hd⟩
      · rw [deliveries_send hc hsend, List.mem_singleton]
        exact (LoopStage.held_accept haccept hd).imp_left fun hd =>
          ⟨p, List.mem_of_getElem? hp, hd⟩
  | settle ag seq =>
    obtain ⟨c, -, -, rfl⟩ := step_settle hstep
    exact .inl ⟨q, hq, hd⟩
  | request op =>
    obtain ⟨-, rfl⟩ := step_request hstep
    exact .inl ⟨q, hq, hd⟩
  | serve r o =>
    left
    obtain ⟨stage, D₁, stage', -, hserve, rfl⟩ := step_serve hstep
    obtain ⟨l, hl⟩ := List.mem_iff_getElem?.mp hq
    rcases (serves_of_serve hserve).loop_cases hl with hfree | ⟨p, hp, -, hstage⟩
    · rw [hfree] at hd
      cases hd
    · exact ⟨p, List.mem_of_getElem? hp, hstage ▸ hd⟩
  | shutdown =>
    obtain ⟨-, rfl⟩ := step_shutdown hstep
    exact .inl ⟨q, hq, hd⟩
  | stop pick =>
    left
    obtain ⟨-, -, -, hloops | ⟨l, hloops⟩⟩ := stop_cases hstep
    · exact ⟨q, hloops ▸ hq, hd⟩
    · rw [hloops] at hq
      obtain ⟨j, hj⟩ := List.mem_iff_getElem?.mp hq
      obtain ⟨p, hp, -, hstage⟩ := PullLoop.getElem?_abort hj
      exact ⟨p, List.mem_of_getElem? hp, hstage ▸ hd⟩
  | join t =>
    obtain ⟨-, rfl⟩ := step_join hstep
    exact .inl ⟨q, hq, hd⟩
  | restart registry now ttl =>
    obtain ⟨world, -, rfl⟩ := step_restart hstep
    cases hq

/-- A dispatch is of a delivery that was being dispatched before or that a pull loop held. -/
theorem task_of_step (hstep : (daemonSystem C).step D a = some D')
    (h : ∃ task ∈ D'.world.tasks, task.delivery = d) :
    (∃ task ∈ D.world.tasks, task.delivery = d) ∨ ∃ p ∈ D.loops, d ∈ p.stage.held := by
  obtain ⟨task, ht, hd⟩ := h
  have hpoll : ∀ {t o}, World.step C D.world (.poll t o) = some D'.world →
      ∃ task ∈ D.world.tasks, task.delivery = d := by
    intro t o hworld
    obtain ⟨d', s, W', s', effects, htask, -, hw⟩ := World.step_poll (C := C) hworld
    rw [hw] at ht
    rcases List.mem_or_eq_of_mem_set ht with ht | rfl
    · exact ⟨task, ht, hd⟩
    · exact ⟨_, List.mem_of_getElem? htask, hd⟩
  cases a with
  | poll t o =>
    obtain ⟨world, hworld, rfl⟩ := Option.map_eq_some_iff.mp hstep
    exact .inl (hpoll hworld)
  | pull l move =>
    obtain ⟨p, D₁, p', hp, htask, rfl⟩ := step_pull hstep
    obtain ⟨-, -, ⟨rfl, -⟩ | hpulls⟩ := pullTask_cases htask
    · exact .inl ⟨task, ht, hd⟩
    · rcases hpulls.tasks_cases ht with ht | ⟨hheld, -⟩
      · exact .inl ⟨task, ht, hd⟩
      · exact .inr ⟨p, List.mem_of_getElem? hp, hd ▸ hheld⟩
  | send loop ag sending =>
    obtain ⟨c, c', d', -, -, ⟨-, rfl⟩ | ⟨l, p, stage, -, -, -, -, rfl⟩⟩ := step_send hstep
    · exact .inl ⟨task, ht, hd⟩
    · exact .inl ⟨task, ht, hd⟩
  | settle ag seq =>
    obtain ⟨c, -, -, rfl⟩ := step_settle hstep
    exact .inl ⟨task, ht, hd⟩
  | request op =>
    obtain ⟨-, rfl⟩ := step_request hstep
    exact .inl ⟨task, ht, hd⟩
  | serve r o =>
    obtain ⟨stage, D₁, stage', -, hserve, rfl⟩ := step_serve hstep
    rw [(serves_of_serve hserve).frame.2.1] at ht
    exact .inl ⟨task, ht, hd⟩
  | shutdown =>
    obtain ⟨-, rfl⟩ := step_shutdown hstep
    exact .inl ⟨task, ht, hd⟩
  | stop pick => exact .inl ⟨task, (stop_cases hstep).2.1 ▸ ht, hd⟩
  | join t =>
    obtain ⟨-, rfl⟩ := step_join hstep
    exact .inl ⟨task, ht, hd⟩
  | restart registry now ttl =>
    obtain ⟨world, hworld, rfl⟩ := step_restart hstep
    obtain rfl := Option.some_inj.mp hworld
    cases ht

/-- The history only grows, and what is new is about a delivery that is being dispatched. -/
theorem history_of_step (hstep : (daemonSystem C).step D a = some D') :
    ∃ newer, D'.world.trace = newer ++ D.world.trace ∧
      ∀ em ∈ newer, ∃ task ∈ D.world.tasks, task.delivery = em.delivery := by
  rcases step_world hstep with hsame | ⟨b, -, hworld⟩
  · exact ⟨[], by rw [hsame]; rfl, nofun⟩
  rcases World.step_cases hworld with ⟨t, o, d, s, W', s', effects, -, htask, -, hw⟩ | ⟨htrace, -⟩
  · refine ⟨effects.map fun effect => ⟨t, d, effect⟩, by rw [hw]; rfl, fun em hem => ?_⟩
    obtain ⟨effect, -, rfl⟩ := List.mem_map.mp hem
    exact ⟨_, List.mem_of_getElem? htask, rfl⟩
  · exact ⟨[], by rw [htrace]; rfl, nofun⟩

/-- Only the server brings a delivery into the daemon. -/
theorem delivers_of_step (hstep : (daemonSystem C).step D a = some D') (h : D'.Delivers d) :
    D.Delivers d ∨ d ∈ D.deliveries a := by
  rcases h with hheld | htask | ⟨em, hem, hd⟩
  · exact (held_of_step hstep hheld).imp_left .inl
  · rcases task_of_step hstep htask with htask | hheld
    · exact .inl (.inr (.inl htask))
    · exact .inl (.inl hheld)
  · obtain ⟨newer, htrace, hnewer⟩ := history_of_step hstep
    rw [htrace] at hem
    rcases List.mem_append.mp hem with hem | hem
    · obtain ⟨task, ht, heq⟩ := hnewer em hem
      exact .inl (.inr (.inl ⟨task, ht, heq.trans hd⟩))
    · exact .inl (.inr (.inr ⟨em, hem, hd⟩))

end Daemon

/-! ## The stream -/

/-- An action of the daemon or of the server, or the stream drops a message. -/
inductive StreamAction where
  | act (a : DaemonAction)
  /-- The message is older than the stream's `max_age`. -/
  | expire (agent : AgentId) (seq : ℕ)

/-- What the log has of the stream: a delivery was sent, or a message was dropped. -/
inductive StreamEvent where
  | sent (d : Delivery)
  | expired (agent : AgentId) (seq : ℕ)
  deriving DecidableEq

namespace Daemon

/-- A message that is outstanding reaches the age limit: it is not sent again. -/
def expire (D : Daemon) (agent : AgentId) (seq : ℕ) : Option Daemon :=
  match D.consumers agent with
  | some c =>
    if c.messages.any fun m => m.streamSequence == seq then
      some { D with consumers := Function.update D.consumers agent (some (c.settle seq)) }
    else none
  | none => none

/-- What a step adds to the log of the stream. -/
def streamEvents (D : Daemon) : StreamAction → List StreamEvent
  | .act a => (D.deliveries a).map .sent
  | .expire agent seq => [.expired agent seq]

end Daemon

/-- The daemon and a server whose stream drops messages. -/
def streamSystem (C : DispatcherConfig) : TransitionSystem Daemon StreamAction where
  step D
    | .act a => D.step C a
    | .expire agent seq => D.expire agent seq

/-- A message that the stream drops is taken off the consumer, and nothing else changes. -/
theorem Daemon.expire_cases {seq : ℕ} (h : D.expire agent seq = some D') :
    ∃ c, D.consumers agent = some c ∧
      D' = { D with consumers := Function.update D.consumers agent (some (c.settle seq)) } := by
  unfold expire at h
  cases hc : D.consumers agent with
  | none => simp [hc] at h
  | some c =>
    simp only [hc] at h
    split at h
    · exact ⟨c, rfl, (Option.some_inj.mp h).symm⟩
    · cases h

/-- A step is one of the daemon and the server, or takes a message off a consumer. -/
theorem streamSystem_cases {b : StreamAction} (h : (streamSystem C).step D b = some D') :
    (∃ a, b = .act a ∧ (daemonSystem C).step D a = some D') ∨
    ∃ agent seq c, b = .expire agent seq ∧ D.consumers agent = some c ∧
      D' = { D with consumers := Function.update D.consumers agent (some (c.settle seq)) } := by
  cases b with
  | act a => exact .inl ⟨a, rfl, h⟩
  | expire agent seq =>
    obtain ⟨c, hc, hD'⟩ := Daemon.expire_cases h
    exact .inr ⟨agent, seq, c, rfl, hc, hD'⟩

/-- A step makes at most one access to the dispatcher. -/
theorem Daemon.step_world_stream {b : StreamAction} (h : (streamSystem C).step D b = some D') :
    D'.world = D.world ∨ ∃ a, (dispatchSystem C).step D.world a = some D'.world := by
  rcases streamSystem_cases h with ⟨a, rfl, hact⟩ | ⟨agent, seq, c, rfl, hc, rfl⟩
  · rcases step_world hact with hsame | ⟨b, -, hworld⟩
    · exact .inl hsame
    · exact .inr ⟨b, hworld⟩
  · exact .inl rfl

/-! ## No message is lost -/

section

variable {log : List StreamEvent}

/-- How the log of the stream and the state belong together. -/
structure Conserved (D : Daemon) (log : List StreamEvent) : Prop where
  /-- The consumer counts what it has sent. -/
  counted : ∀ d, .sent d ∈ log → ∃ c, D.consumers d.agent = some c ∧
    d.streamSequence ≤ c.lastStream ∧ d.consumerSequence ≤ c.lastConsumer
  /-- All copies of a message are alike. -/
  alike : ∀ d, .sent d ∈ log → ∀ d', .sent d' ∈ log → d.agent = d'.agent →
    d.streamSequence = d'.streamSequence → d.message = d'.message
  /-- An outstanding message was sent. -/
  outstanding : ∀ agent c, D.consumers agent = some c → ∀ m ∈ c.messages,
    ∃ d, .sent d ∈ log ∧ d.agent = agent ∧ d.message = m
  /-- What the daemon has was sent. -/
  sent : ∀ d, D.Delivers d → .sent d ∈ log
  /-- What was sent is outstanding, or dropped, or resolved. -/
  kept : ∀ d, .sent d ∈ log → (∃ c, D.consumers d.agent = some c ∧ d.message ∈ c.messages) ∨
    .expired d.agent d.streamSequence ∈ log ∨
    ∃ em ∈ D.world.trace, em.resolves d.agent d.streamSequence = true

/-- What becomes of the consumer of an agent at a step at which the server sends nothing. -/
inductive Silent (D D' : Daemon) (log : List StreamEvent) (agent : AgentId) : Prop
  | same (h : D'.consumers agent = D.consumers agent)
  | settle {c : Consumer} {seq : ℕ} (hc : D.consumers agent = some c)
      (hc' : D'.consumers agent = some (c.settle seq))
      (hwhy : .expired agent seq ∈ log ∨
        ∃ em ∈ D.world.trace, em.resolves agent seq = true)
  | create {config : ConsumerConfig} (hc : D.consumers agent = none)
      (hc' : D'.consumers agent = some ⟨config, 0, 0, []⟩)

namespace Conserved

theorem start (registry : Registry) (dedup : DedupStore) {consumers : AgentId → Option Consumer}
    (hempty : ∀ agent c, consumers agent = some c → c.outstanding = []) :
    Conserved (.start registry dedup consumers) [] where
  counted d hd := by cases hd
  alike d hd := by cases hd
  outstanding agent c hc m hm := by
    simp [Consumer.messages, hempty agent c hc] at hm
  sent d hd := by
    rcases hd with ⟨p, hp, -⟩ | ⟨task, ht, -⟩ | ⟨em, hem, -⟩
    · cases hp
    · cases ht
    · cases hem
  kept d hd := by cases hd

/-- A step at which the server sends nothing. -/
theorem quiet (h : Conserved D log) {drops : List StreamEvent}
    (hdrops : ∀ d, .sent d ∉ drops)
    (htrace : ∀ em ∈ D.world.trace, em ∈ D'.world.trace)
    (hdelivers : ∀ d, D'.Delivers d → D.Delivers d)
    (hsilent : ∀ agent, Silent D D' (log ++ drops) agent) : Conserved D' (log ++ drops) := by
  have hsent : ∀ d, .sent d ∈ log ++ drops → .sent d ∈ log := fun d hd =>
    (List.mem_append.mp hd).resolve_right (hdrops d)
  refine ⟨fun d hd => ?_, fun d hd d' hd' => h.alike d (hsent d hd) d' (hsent d' hd'),
    fun agent c' hc' m hm => ?_, fun d hd => ?_, fun d hd => ?_⟩
  · obtain ⟨c, hc, hstream, hconsumer⟩ := h.counted d (hsent d hd)
    cases hsilent d.agent with
    | same heq => exact ⟨c, heq.trans hc, hstream, hconsumer⟩
    | settle hc₁ hc' =>
      obtain rfl := Option.some_inj.mp (hc.symm.trans hc₁)
      exact ⟨_, hc', hstream, hconsumer⟩
    | create hnone => cases hnone.symm.trans hc
  · have hbefore : ∃ c, D.consumers agent = some c ∧ m ∈ c.messages := by
      cases hsilent agent with
      | same heq => exact ⟨c', heq.symm.trans hc', hm⟩
      | @settle c seq hc hsettled =>
        obtain rfl := Option.some_inj.mp (hsettled.symm.trans hc')
        exact ⟨c, hc, (Consumer.mem_messages_settle.mp hm).1⟩
      | create hnone hnew =>
        obtain rfl := Option.some_inj.mp (hnew.symm.trans hc')
        cases hm
    obtain ⟨c, hc, hm⟩ := hbefore
    obtain ⟨d, hd, hof⟩ := h.outstanding agent c hc m hm
    exact ⟨d, List.mem_append_left _ hd, hof⟩
  · exact List.mem_append_left _ (h.sent d (hdelivers d hd))
  · rcases h.kept d (hsent d hd) with ⟨c, hc, hm⟩ | hdropped | ⟨em, hem, hres⟩
    · cases hsilent d.agent with
      | same heq => exact .inl ⟨c, heq.trans hc, hm⟩
      | @settle c₁ seq hc₁ hc' hwhy =>
        obtain rfl := Option.some_inj.mp (hc.symm.trans hc₁)
        by_cases hseq : d.streamSequence = seq
        · subst hseq
          exact .inr (hwhy.imp_right fun ⟨em, hem, hres⟩ => ⟨em, htrace em hem, hres⟩)
        · exact .inl ⟨_, hc', Consumer.mem_messages_settle.mpr ⟨hm, hseq⟩⟩
      | create hnone => cases hnone.symm.trans hc
    · exact .inr (.inl (List.mem_append_left _ hdropped))
    · exact .inr (.inr ⟨em, htrace em hem, hres⟩)

/-- The stream drops a message. -/
theorem expire (h : Conserved D log) {seq : ℕ} {c : Consumer} (hc : D.consumers agent = some c) :
    Conserved { D with consumers := Function.update D.consumers agent (some (c.settle seq)) }
      (log ++ [.expired agent seq]) := by
  refine h.quiet (by simp) (fun em hem => hem) (fun d hd => hd) fun ag => ?_
  by_cases hag : ag = agent
  · subst hag
    exact .settle hc (Function.update_self ..) (.inl (by simp))
  · exact .same (Function.update_of_ne hag ..)

/-- The consumer counts what was sent to it. -/
theorem le_of_sent (h : Conserved D log) {c : Consumer} (hc : D.consumers d.agent = some c)
    (hd : .sent d ∈ log) :
    d.streamSequence ≤ c.lastStream ∧ d.consumerSequence ≤ c.lastConsumer := by
  obtain ⟨c₁, hc₁, hle⟩ := h.counted d hd
  obtain rfl : c = c₁ := Option.some_inj.mp (hc.symm.trans hc₁)
  exact hle

/-- An outstanding message is not later in the stream than what was sent, and all that was sent with
its sequence are copies of it. -/
theorem of_mem_messages (h : Conserved D log) {c : Consumer} (hc : D.consumers agent = some c)
    {m : Message} (hm : m ∈ c.messages) :
    m.streamSequence ≤ c.lastStream ∧ ∀ d, .sent d ∈ log → d.agent = agent →
      d.streamSequence = m.streamSequence → d.message = m := by
  obtain ⟨d₀, hd₀, rfl, rfl⟩ := h.outstanding agent c hc m hm
  exact ⟨(h.le_of_sent hc hd₀).1, fun d hd hag hseq => h.alike d hd d₀ hd₀ hag hseq⟩

/-- A step at which the server sends a message. -/
theorem send (h : Conserved D log) {loop : Option ℕ} {sending : Sending} {c c' : Consumer}
    (hstep : (daemonSystem C).step D (.send loop agent sending) = some D')
    (hc : D.consumers agent = some c) (hsend : c.send agent sending = some (c', d)) :
    Conserved D' (log ++ [.sent d]) := by
  obtain ⟨newer, htrace, -⟩ := Daemon.history_of_step hstep
  have hconsumers := Daemon.consumers_of_send hstep hc hsend
  obtain ⟨rfl, hnumber, hcount, hmessage⟩ := Consumer.send_cases hsend
  have hself : D'.consumers d.agent = some c' := by
    rw [hconsumers]
    exact Function.update_self ..
  have hother : ∀ ag, ag ≠ d.agent → D'.consumers ag = D.consumers ag := fun ag hne => by
    rw [hconsumers]
    exact Function.update_of_ne hne ..
  have hlast : c.lastStream ≤ c'.lastStream ∧ d.streamSequence ≤ c'.lastStream := by
    rcases hmessage with ⟨hlt, heq, -⟩ | ⟨hm, heq, -⟩
    · omega
    · have hle : d.streamSequence ≤ c.lastStream := (h.of_mem_messages hc hm).1
      omega
  -- the new delivery is a copy of what was sent before with its sequence
  have halike : ∀ d', .sent d' ∈ log → d'.agent = d.agent → d'.streamSequence = d.streamSequence →
      d'.message = d.message := by
    intro d' hd' hag hseq
    rcases hmessage with ⟨hlt, -, -⟩ | ⟨hm, -, -⟩
    · have hle := (h.le_of_sent (hag ▸ hc) hd').1
      omega
    · exact (h.of_mem_messages hc hm).2 d' hd' hag hseq
  have hmem_log : ∀ d', .sent d' ∈ log ++ [.sent d] → .sent d' ∈ log ∨ d' = d := by
    intro d' hd'
    simpa using hd'
  refine ⟨fun d' hd' => ?_, fun d₁ hd₁ d₂ hd₂ hag hseq => ?_, fun ag c₁ hc₁ m hm => ?_,
    fun d' hd' => ?_, fun d' hd' => ?_⟩
  · rcases hmem_log d' hd' with hd' | rfl
    · by_cases hag : d'.agent = d.agent
      · obtain ⟨hstream, hconsumer⟩ := h.le_of_sent (hag ▸ hc) hd'
        exact ⟨c', hag ▸ hself, hstream.trans hlast.1, by omega⟩
      · obtain ⟨c₁, hc₁, hle⟩ := h.counted d' hd'
        exact ⟨c₁, (hother _ hag).trans hc₁, hle⟩
    · exact ⟨c', hself, hlast.2, by omega⟩
  · rcases hmem_log d₁ hd₁ with hold₁ | rfl <;> rcases hmem_log d₂ hd₂ with hold₂ | rfl
    · exact h.alike d₁ hold₁ d₂ hold₂ hag hseq
    · exact halike d₁ hold₁ hag hseq
    · exact (halike d₂ hold₂ hag.symm hseq.symm).symm
    · rfl
  · have hbefore : (∃ d₀, .sent d₀ ∈ log ∧ d₀.agent = ag ∧ d₀.message = m) ∨
        d.agent = ag ∧ d.message = m := by
      by_cases hag : ag = d.agent
      · subst hag
        obtain rfl : c' = c₁ := Option.some_inj.mp (hself.symm.trans hc₁)
        exact ((Consumer.mem_messages_send hsend).mp hm).imp (h.outstanding _ c hc m)
          fun heq => ⟨rfl, heq.symm⟩
      · exact .inl (h.outstanding ag c₁ ((hother ag hag).symm.trans hc₁) m hm)
    rcases hbefore with ⟨d₀, hd₀, hof⟩ | hof
    · exact ⟨d₀, List.mem_append_left _ hd₀, hof⟩
    · exact ⟨d, List.mem_append_right _ (List.mem_singleton_self _), hof⟩
  · rcases Daemon.delivers_of_step hstep hd' with hd' | hd'
    · exact List.mem_append_left _ (h.sent d' hd')
    · rw [Daemon.deliveries_send hc hsend, List.mem_singleton] at hd'
      subst hd'
      exact List.mem_append_right _ (List.mem_singleton_self _)
  · rcases hmem_log d' hd' with hd' | rfl
    · rcases h.kept d' hd' with ⟨c₁, hc₁, hm⟩ | hdropped | ⟨em, hem, hres⟩
      · by_cases hag : d'.agent = d.agent
        · obtain rfl : c = c₁ := Option.some_inj.mp (hc.symm.trans (hag ▸ hc₁))
          exact .inl ⟨c', hag ▸ hself, (Consumer.mem_messages_send hsend).mpr (.inl hm)⟩
        · exact .inl ⟨c₁, (hother _ hag).trans hc₁, hm⟩
      · exact .inr (.inl (List.mem_append_left _ hdropped))
      · exact .inr (.inr ⟨em, htrace ▸ List.mem_append_right _ hem, hres⟩)
    · exact .inl ⟨c', hself, (Consumer.mem_messages_send hsend).mpr (.inr rfl)⟩

/-- A step of the daemon and the server keeps the log and the state together. -/
theorem act (h : Conserved D log) (hstep : (daemonSystem C).step D a = some D') :
    Conserved D' (log ++ (D.deliveries a).map .sent) := by
  by_cases hsend : ∃ loop agent sending, a = .send loop agent sending
  · obtain ⟨loop, agent, sending, rfl⟩ := hsend
    obtain ⟨c, c', d, hc, hsend, -⟩ := Daemon.step_send hstep
    rw [Daemon.deliveries_send hc hsend]
    exact h.send hstep hc hsend
  have hnothing : D.deliveries a = [] := by
    cases a with
    | send loop agent sending => exact absurd ⟨loop, agent, sending, rfl⟩ hsend
    | _ => rfl
  obtain ⟨newer, htrace, -⟩ := Daemon.history_of_step hstep
  rw [hnothing, List.map_nil]
  refine h.quiet (fun d => List.not_mem_nil) (fun em hem => ?_) (fun d hd => ?_) fun agent => ?_
  · exact htrace ▸ List.mem_append_right _ hem
  · refine (Daemon.delivers_of_step hstep hd).resolve_right fun hd => ?_
    rw [hnothing] at hd
    cases hd
  · rcases Daemon.consumer_of_step hstep agent with heq | ⟨l, sending, -, -, -, ha, -⟩ |
      ⟨seq, c, -, hc, hresolved, hc'⟩ | ⟨hnone, config, hnew⟩
    · exact .same heq
    · exact absurd ⟨l, agent, sending, ha⟩ hsend
    · exact .settle hc hc' (.inr (List.any_eq_true.mp hresolved))
    · exact .create hnone hnew

/-- Every step keeps the log and the state together. -/
theorem step (h : Conserved D log) {b : StreamAction}
    (hstep : (streamSystem C).step D b = some D') : Conserved D' (log ++ D.streamEvents b) := by
  rcases streamSystem_cases hstep with ⟨a, rfl, hact⟩ | ⟨agent, seq, c, rfl, hc, rfl⟩
  · exact h.act hact
  · exact h.expire hc

end Conserved

/-- What was sent to the consumer of an agent, whatever fails and however often the daemon crashes:
it is outstanding at the server, or the stream has dropped it, or it was acknowledged after a
handler for its event had run, or it was terminated because it carries no event, could not be
spawned, or found its agent missing or disabled. -/
theorem sent_until_handled {registry : Registry} {consumers : AgentId → Option Consumer}
    (hempty : ∀ agent c, consumers agent = some c → c.outstanding = [])
    (hrun : ((streamSystem C).logging Daemon.streamEvents).Run (fun _ _ => True)
      (.start registry .empty consumers, []) (D, log)) (hd : .sent d ∈ log) :
    (∃ c, D.consumers d.agent = some c ∧ d.message ∈ c.messages) ∨
    .expired d.agent d.streamSequence ∈ log ∨
    ∃ em past, em :: past <:+ D.world.trace ∧ em.delivery.agent = d.agent ∧
      em.delivery.message = d.message ∧
      ((∃ envelope, d.Carries C envelope ∧ em.effect = .acked envelope.eventId ∧
          Ran (d.agent, envelope.eventId) past) ∨
        (em.effect = .termed ∧
          ((∀ envelope, ¬d.Carries C envelope) ∨ TurnedAway em.task em.delivery past))) := by
  obtain ⟨hconserved, hgenuine, hran, -, hterms⟩ : Conserved D log ∧ D.world.Genuine C ∧
      RanFirst D.world ∧ Witnessed D.world ∧ TermsExplained C D.world := by
    refine hrun.invariant (I := fun x => Conserved x.1 x.2 ∧ x.1.world.Genuine C ∧
      RanFirst x.1.world ∧ Witnessed x.1.world ∧ TermsExplained C x.1.world)
      ⟨.start registry .empty hempty, .start .., .start .., .start .., .start ..⟩ ?_
    rintro x b y ⟨hconserved, hgenuine, hran, hw, hterms⟩ - hlog
    obtain ⟨hstep, hy⟩ := step_logging hlog
    rw [hy]
    refine ⟨hconserved.step hstep, ?_⟩
    rcases Daemon.step_world_stream hstep with hsame | ⟨a, hworld⟩
    · rw [hsame]
      exact ⟨hgenuine, hran, hw, hterms⟩
    · exact ⟨hgenuine.step hworld, hran.step hw hworld, hw.step hworld, hterms.step hworld⟩
  refine (hconserved.kept d hd).imp_right (Or.imp_right ?_)
  rintro ⟨em, hem, hres⟩
  simp only [Emission.resolves, Bool.and_eq_true, beq_iff_eq] at hres
  obtain ⟨⟨hagent, hseq⟩, heffect⟩ := hres
  have hlogged : .sent em.delivery ∈ log := hconserved.sent _ (.inr (.inr ⟨em, hem, rfl⟩))
  have hmessage : em.delivery.message = d.message :=
    hconserved.alike _ hlogged _ hd hagent hseq
  obtain ⟨newer, past, hsplit⟩ := List.append_of_mem hem
  have hsuffix : em :: past <:+ D.world.trace := hsplit ▸ List.suffix_append newer (em :: past)
  refine ⟨em, past, hsuffix, hagent, hmessage, ?_⟩
  split at heffect
  · rename_i event heq
    left
    obtain ⟨envelope, hcarries, rfl⟩ := (hgenuine.trace em hem).event event (by rw [heq]; rfl)
    refine ⟨envelope, hcarries.congr hagent.symm hmessage.symm, heq, ?_⟩
    rw [← hagent]
    exact hran.every.of_suffix hsuffix _ (by rw [Emission.acked, heq])
  · rename_i heq
    right
    refine ⟨heq, ?_⟩
    by_cases hcarries : ∃ envelope, d.Carries C envelope
    · obtain ⟨envelope, hcarries⟩ := hcarries
      exact .inr (hterms.every.of_suffix hsuffix envelope heq (hcarries.congr hagent hmessage))
    · exact .inl (not_exists.mp hcarries)
  · cases heffect

end

/-- The first message is handled, and its ack arrives. -/
def Sample.handleAndSettle : List DaemonAction :=
  pullFirst ++ dispatches 0 11 ++ [.settle Sample.agent 1]

/-- Then the second one is sent to a pull request that nobody reads, and grows too old. -/
def Sample.handleAndExpire : List StreamAction :=
  handleAndSettle.map .act ++ [.act (.send none Sample.agent (.new ⟨2, (delivery "f").raw⟩)),
    .expire Sample.agent 2]

theorem sent_until_handled_handleAndExpire :
    ∃ D log, ((streamSystem Sample.dispatcherConfig).logging Daemon.streamEvents).Run
        (fun _ _ => True) (.start (Sample.registry Sample.config) .empty fun _ => none, [])
        (D, log) ∧
      (∀ c ∈ D.consumers Sample.agent, c.messages = []) ∧
      .expired Sample.agent 2 ∈ log ∧
      ∃ em past, em :: past <:+ D.world.trace ∧
        em.delivery.message = (Sample.delivery "e").message ∧
        (em.effect = .termed ∨
          ∃ event, em.effect = .acked event ∧ Ran (Sample.agent, event) past) := by
  obtain ⟨⟨D, log⟩, hrun, hend⟩ := exists_run_of_exec
    ((streamSystem Sample.dispatcherConfig).logging Daemon.streamEvents) (fun _ _ => True)
    (.start (Sample.registry Sample.config) .empty fun _ => none, []) Sample.handleAndExpire
    (fun x => decide (.sent (Sample.delivery "e") ∈ x.2 ∧ .expired Sample.agent 1 ∉ x.2 ∧
      .expired Sample.agent 2 ∈ x.2 ∧ ∀ c ∈ x.1.consumers Sample.agent, c.messages = []))
    (by decide +kernel)
  obtain ⟨hd, hfirst, hsecond, hempty⟩ := of_decide_eq_true hend
  refine ⟨D, log, hrun, hempty, hsecond, ?_⟩
  have hnone : ∀ agent c, (fun _ => none : AgentId → Option Consumer) agent = some c →
      c.outstanding = [] := fun agent c hc => by cases hc
  rcases sent_until_handled hnone hrun hd with ⟨c, hc, hm⟩ | hdropped |
    ⟨em, past, hsuffix, -, hmessage, hwhy⟩
  · rw [hempty c hc] at hm
    cases hm
  · exact absurd hdropped hfirst
  · refine ⟨em, past, hsuffix, hmessage, ?_⟩
    rcases hwhy with ⟨envelope, -, heffect, hran⟩ | ⟨heffect, -⟩
    · exact .inr ⟨_, heffect, hran⟩
    · exact .inl heffect

/-! ## Nothing is made up -/

/-- The deliveries whose handlers were started, newest first. -/
def Daemon.started (D : Daemon) : List Delivery :=
  (D.world.trace.filter fun em => em.startedMessage.isSome).map Emission.delivery

/-- The copies of the delivery that pull loops hold. -/
def Daemon.heldCopies (D : Daemon) (d : Delivery) : ℕ :=
  (D.loops.map fun p => p.stage.held.count d).sum

/-- How often the delivery is around: a pull loop holds it, its dispatch may still start the
handler, or the handler was started. -/
def Daemon.copies (C : DispatcherConfig) (D : Daemon) (d : Delivery) : ℕ :=
  D.heldCopies d + D.world.tasks.countP (fun task => task.delivery = d ∧ task.undecided C = true) +
    D.started.count d

/-- Aborted loops hold what they held. -/
theorem PullLoop.map_abort {β : Type*} (f : LoopStage → β) (loops : List PullLoop) (j : ℕ) :
    (loops.modify j PullLoop.abort).map (fun p => f p.stage) = loops.map fun p => f p.stage := by
  induction loops generalizing j with
  | nil => simp
  | cons p loops ih =>
    obtain _ | j := j
    · simp [PullLoop.abort]
    · simpa using ih j

/-- A step of a control operation leaves the copies in the pull loops alone. -/
theorem Serves.heldCopies_eq {o : ServeOutcome} {stage stage' : RequestStage}
    (h : Serves D o stage D' stage') : D'.heldCopies d = D.heldCopies d := by
  unfold Daemon.heldCopies
  cases h with
  | rebind | halt =>
    unfold Daemon.stopPull
    split
    · exact congrArg List.sum (PullLoop.map_abort (fun s => s.held.count d) ..)
    · rfl
  | spawn => simp [LoopStage.held]
  | @store ch rest l =>
    unfold Daemon.storePull
    cases D.pulls ch.agentId with
    | none => rfl
    | some old => exact congrArg List.sum (PullLoop.map_abort (fun s => s.held.count d) ..)
  | _ => rfl

/-- A loop that goes on emits nothing. -/
theorem Pulls.trace_eq {s s' : LoopStage} (h : Pulls C D agent s D' s') :
    D'.world.trace = D.world.trace := by
  cases h with
  | call hworld | spawn hworld => exact Option.some_inj.mp hworld ▸ rfl
  | count hworld =>
    obtain ⟨agent', s, W', s', -, -, rfl⟩ := World.step_pollCall (C := C) hworld
    rfl
  | _ => rfl

/-- A loop that goes on hands a delivery in its hand to a dispatch, or loses some. -/
theorem Pulls.copies_le {s s' : LoopStage} (h : Pulls C D agent s D' s') (d : Delivery) :
    s'.held.count d +
        D'.world.tasks.countP (fun task => task.delivery = d ∧ task.undecided C = true) ≤
      s.held.count d +
        D.world.tasks.countP (fun task => task.delivery = d ∧ task.undecided C = true) := by
  cases h with
  | call hworld =>
    obtain rfl := Option.some_inj.mp hworld
    exact le_rfl
  | count hworld =>
    obtain ⟨agent', s, W', s', -, -, rfl⟩ := World.step_pollCall (C := C) hworld
    exact le_rfl
  | @spawn d' credit inbox world hworld =>
    obtain rfl := Option.some_inj.mp hworld
    simp only [LoopStage.held, List.count_cons, List.countP_append, List.countP_singleton,
      beq_iff_eq]
    by_cases hd : d' = d
    · simp only [hd, if_true, true_and, decide_eq_true_eq]
      split <;> omega
    · simp [hd]
  | receive => exact le_rfl
  | skip => exact Nat.add_le_add_right (List.Sublist.count_le d (List.sublist_cons_self ..)) _
  | idle hinbox hspawning =>
    have hnone : s'.held = [] := by
      cases s' with
      | receiving credit inbox => exact hinbox credit inbox rfl
      | spawning d' credit inbox => exact absurd rfl (hspawning d' credit inbox)
      | _ => rfl
    simp [hnone]

/-- A loop that takes a message holds one more copy, of that message. -/
theorem LoopStage.count_held_accept {d' : Delivery} {s s' : LoopStage} (h : s.accept d' = some s') :
    s'.held.count d = s.held.count d + [d'].count d := by
  unfold accept at h
  split at h
  · obtain rfl := Option.some_inj.mp h
    exact List.count_append
  · obtain rfl := Option.some_inj.mp h
    simp only [held, List.count_cons, List.count_append]
    omega
  · cases h

/-- After the start of its handler a dispatch is decided. -/
theorem Polls.decided_of_started {W W' : Dispatcher} {o : Outcome} {s s' : Stage}
    {effects : List Effect} {effect : Effect} {t : ℕ} (h : Polls C W d o s W' s' effects)
    (hmem : effect ∈ effects) (hstart : (Emission.startedMessage ⟨t, d, effect⟩).isSome = true) :
    (⟨d, s'⟩ : Task).undecided C = false := by
  cases h with
  | spawn => rfl
  | reject hrej =>
    obtain rfl := List.mem_singleton.mp hmem
    obtain _ | _ | _ := hrej <;> cases hstart
  | configure | ensure | acquire | miss | enter | remove | abort | release => cases hmem
  | _ =>
    obtain rfl := List.mem_singleton.mp hmem
    cases hstart

namespace Daemon

/-- The accesses of a dispatch make no copies. -/
theorem copies_poll {t : ℕ} {o : Outcome} (hstep : (daemonSystem C).step D (.poll t o) = some D')
    (d : Delivery) : D'.copies C d ≤ D.copies C d := by
  obtain ⟨world, hworld, rfl⟩ := Option.map_eq_some_iff.mp hstep
  obtain ⟨d', s, W', s', effects, htask, hpoll, rfl⟩ := World.step_poll hworld
  have htasks := countP_set_add (y := (⟨d', s'⟩ : Task))
    (fun task : Task => decide (task.delivery = d ∧ task.undecided C = true)) htask
  have hmoves : (((effects.map fun effect => (⟨t, d', effect⟩ : Emission)).filter
        fun em => em.startedMessage.isSome).map Emission.delivery).count d +
      (if d' = d ∧ (⟨d', s'⟩ : Task).undecided C = true then 1 else 0) ≤
        if d' = d ∧ (⟨d', s⟩ : Task).undecided C = true then 1 else 0 := by
    rcases hpoll.started_cases t with hnone | ⟨effect, rfl, hpending, hstart⟩
    · have hnothing : (effects.map fun effect => (⟨t, d', effect⟩ : Emission)).filter
          (fun em => em.startedMessage.isSome) = [] := by
        refine List.filter_eq_nil_iff.mpr fun em hem => ?_
        obtain ⟨effect, heffect, rfl⟩ := List.mem_map.mp hem
        simp [hnone effect heffect]
      rw [hnothing, List.map_nil, List.count_nil, Nat.zero_add]
      split_ifs with hafter hbefore
      · exact le_rfl
      · exact absurd ⟨hafter.1, hpoll.undecided_mono hafter.2⟩ hbefore
      · exact Nat.zero_le 1
      · exact le_rfl
    · -- the copy that the dispatch had becomes the one that was started
      have hs : (⟨d', s⟩ : Task).undecided C = true := Task.undecided_of_pending hpending
      have hs' : (⟨d', s'⟩ : Task).undecided C = false :=
        hpoll.decided_of_started (t := t) (List.mem_singleton_self _) (by rw [hstart]; rfl)
      by_cases hd : d' = d
      · simp [hd, hd ▸ hs, hd ▸ hs', hd ▸ hstart]
      · simp [hd, hstart]
  simp only [decide_eq_true_eq] at htasks
  simp only [copies, heldCopies, started, World.commit, List.filter_append, List.map_append,
    List.count_append]
  omega

/-- A step makes no copies but of what the server sends. -/
theorem copies_of_step (hstep : (daemonSystem C).step D a = some D') (d : Delivery) :
    D'.copies C d ≤ D.copies C d + (D.deliveries a).count d := by
  have hsame : D'.heldCopies d = D.heldCopies d → D'.world.tasks = D.world.tasks →
      D'.world.trace = D.world.trace → D'.copies C d ≤ D.copies C d + (D.deliveries a).count d := by
    intro hheld htasks htrace
    simp only [copies, hheld, htasks, started, htrace]
    omega
  cases a with
  | poll t o =>
    have := copies_poll hstep d
    omega
  | pull l move =>
    obtain ⟨p, D₁, p', hp, htask, rfl⟩ := step_pull hstep
    have hheld := sum_map_set (y := p') (fun p : PullLoop => p.stage.held.count d) hp
    obtain ⟨-, -, ⟨rfl, hstage⟩ | hpulls⟩ := pullTask_cases htask
    · refine hsame ?_ rfl rfl
      rw [hstage] at hheld
      simp only [heldCopies]
      omega
    · have hcopies := hpulls.copies_le d
      simp only [copies, heldCopies, started, hpulls.trace_eq, hpulls.relay_eq.2.1]
      omega
  | send loop agent sending =>
    obtain ⟨c, c', d', hc, hsend, ⟨-, rfl⟩ | ⟨l, p, stage, -, hp, -, haccept, rfl⟩⟩ :=
      step_send hstep
    · exact hsame rfl rfl rfl
    · have hheld :=
        sum_map_set (y := { p with stage }) (fun p : PullLoop => p.stage.held.count d) hp
      simp only [LoopStage.count_held_accept haccept] at hheld
      rw [deliveries_send hc hsend]
      simp only [copies, heldCopies, started]
      omega
  | settle ag seq =>
    obtain ⟨c, -, -, rfl⟩ := step_settle hstep
    exact hsame rfl rfl rfl
  | request op =>
    obtain ⟨-, rfl⟩ := step_request hstep
    exact hsame rfl rfl rfl
  | serve r o =>
    obtain ⟨stage, D₁, stage', -, hserve, rfl⟩ := step_serve hstep
    have hserves := serves_of_serve hserve
    exact hsame hserves.heldCopies_eq hserves.frame.2.1 hserves.frame.2.2.1
  | shutdown =>
    obtain ⟨-, rfl⟩ := step_shutdown hstep
    exact hsame rfl rfl rfl
  | stop pick =>
    obtain ⟨-, hworld, -, hloops⟩ := stop_cases hstep
    refine hsame ?_ (by rw [hworld]) (by rw [hworld])
    rcases hloops with hloops | ⟨l, hloops⟩ <;> rw [heldCopies, hloops]
    · rfl
    · exact congrArg List.sum (PullLoop.map_abort (fun s => s.held.count d) ..)
  | join t =>
    obtain ⟨-, rfl⟩ := step_join hstep
    exact hsame rfl rfl rfl
  | restart registry now ttl =>
    obtain ⟨world, hworld, rfl⟩ := step_restart hstep
    obtain rfl := Option.some_inj.mp hworld
    simp only [copies, heldCopies, started, List.map_nil, List.sum_nil, List.countP_nil]
    omega

end Daemon

/-- Every handler ever started, across crashes, was started for a delivery of its own that the
server has sent to the consumer of its agent; it gets the bytes of that message, and its environment
is about the event and the delivery.  So no message has more starts than sends. -/
theorem started_were_sent {registry : Registry} {dedup : DedupStore}
    {consumers : AgentId → Option Consumer}
    (hrun : ((daemonSystem C).logging Daemon.deliveries).Run (fun _ _ => True)
      (.start registry dedup consumers, []) (D, log)) :
    D.started.Subperm log ∧
    ∀ em ∈ D.world.trace, ∀ event command, em.effect = .spawned event command →
      em.delivery ∈ log ∧ ∃ envelope config, em.delivery.Carries C envelope ∧
        command = .forEvent config envelope em.delivery := by
  obtain ⟨hgenuine, hcopies⟩ : D.world.Genuine C ∧ ∀ d, D.copies C d ≤ log.count d := by
    refine hrun.invariant (I := fun x => x.1.world.Genuine C ∧
      ∀ d, x.1.copies C d ≤ x.2.count d) ⟨.start .., fun d => le_rfl⟩ ?_
    rintro x a y ⟨hgenuine, hcopies⟩ - hlog
    obtain ⟨hstep, hy⟩ := step_logging hlog
    constructor
    · rcases Daemon.step_world hstep with hsame | ⟨b, -, hworld⟩
      · exact hsame ▸ hgenuine
      · exact hgenuine.step hworld
    · intro d
      have hle := Daemon.copies_of_step hstep d
      have hbefore := hcopies d
      rw [hy, List.count_append]
      omega
  have hsub : D.started.Subperm log := by
    refine List.subperm_ext_iff.mpr fun d _ => ?_
    have hle := hcopies d
    unfold Daemon.copies at hle
    omega
  refine ⟨hsub, fun em hem event command heffect => ⟨hsub.subset ?_, ?_⟩⟩
  · refine List.mem_map.mpr ⟨em, List.mem_filter.mpr ⟨hem, ?_⟩, rfl⟩
    simp [Emission.startedMessage, heffect]
  · exact (hgenuine.trace em hem).command event command heffect

/-- The daemon crashes while the handler of the first message is running, and the next process gets
the message again. -/
def Sample.crashAndRedeliver : List DaemonAction :=
  pullFirst ++ dispatches 0 6 ++ [.restart (registry config) 0 0] ++ serves 0 5 ++
    [.pull 0 .resume] ++ advances 0 6 ++ [.send (some 0) Sample.agent (.again 1)] ++ advances 0 2 ++
    dispatches 0 6

theorem started_were_sent_crashAndRedeliver :
    ∃ D log, ((daemonSystem Sample.dispatcherConfig).logging Daemon.deliveries).Run
        (fun _ _ => True) (.start (Sample.registry Sample.config) .empty fun _ => none, [])
        (D, log) ∧
      D.started.length = 2 ∧ D.started.Subperm log := by
  obtain ⟨⟨D, log⟩, hrun, hend⟩ := exists_run_of_exec
    ((daemonSystem Sample.dispatcherConfig).logging Daemon.deliveries) (fun _ _ => True)
    (.start (Sample.registry Sample.config) .empty fun _ => none, []) Sample.crashAndRedeliver
    (fun x => x.1.started.length == 2) (by decide +kernel)
  exact ⟨D, log, hrun, beq_iff_eq.mp hend, (started_were_sent hrun).1⟩

end Agentd
