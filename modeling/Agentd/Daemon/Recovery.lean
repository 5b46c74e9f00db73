import Agentd.Daemon.Delivery
import Agentd.Daemon.Drain
import Agentd.Daemon.OverPull

/-!
# A backlog can always be worked off

Can the daemon get into a state in which an outstanding message is stuck?  While the agent is
registered and enabled and one of its pull loops was not aborted, it cannot: whatever happened
before, the dispatches can be run until they are all at rest, the loop can be brought to its next
request, the server can send the message again, and the dispatch of that copy ends with an ack or a
term (`Daemon.Ready.settle_one`).  It ends with an ack if the message carries an event, since its
agent is enabled: the handler runs, or the event is found recorded (`Polls.handling`).  Nobody has
to step in on the way; all of it are `Automatic` steps.

The argument needs that nothing leaks.  A permit that is never released would leave the loop without
a free slot, and an id that stays in flight would have the copy dropped.  Both are excluded when the
dispatches are at rest (`World.AtRest`).
-/

namespace Agentd

open TransitionSystem TaskPool

variable {C : DispatcherConfig} {D D' D₁ : Daemon} {a : DaemonAction} {agent : AgentId} {l : ℕ}
  {w w' : World} {d : Delivery} {t : ℕ}

/-- A step for which there is no need of an operator, a crash or a new message, and at which no
spawn fails. -/
def DaemonAction.Automatic : DaemonAction → Prop
  | .poll _ o => o.spawnFails = false
  | .pull .. | .send _ _ (.again _) | .settle .. => True
  | _ => False

/-! ## A message that is handled -/

/-- A stage before the insertion of the in-flight id. -/
def Stage.beforeInsert : Stage → Bool
  | .received | .rejected | .configured _ | .waiting .. => true
  | .slot _ _ .lookup | .slot _ _ .hit | .slot _ _ .check => true
  | _ => false

/-- A delivery of the message to the agent carries the event. -/
def Message.Carries (C : DispatcherConfig) (agent : AgentId) (m : Message)
    (envelope : EventEnvelope) : Prop :=
  ∃ d : Delivery, d.agent = agent ∧ d.message = m ∧ d.Carries C envelope

/-- The dispatch `t` of the delivery `d` found a record of the event. -/
def RecalledBy (t : ℕ) (d : Delivery) (event : String) (past : List Emission) : Prop :=
  ∃ em ∈ past, em.task = t ∧ em.delivery = d ∧ em.effect = .dedupHit event

/-- The dispatch `t` of the delivery `d` acknowledged it, after its handler had run to its end or a
record of the event was found. -/
def AnsweredBy (t : ℕ) (d : Delivery) (event : String) (past : List Emission) : Prop :=
  ∃ em before, em :: before <:+ past ∧ em.task = t ∧ em.delivery = d ∧ em.effect = .acked event ∧
    (RanBy t d (d.agent, event) before ∨ RecalledBy t d event before)

/-- If the message carries an event for the agent, then a dispatch of the message acknowledged it
so. -/
def Message.Answered (C : DispatcherConfig) (agent : AgentId) (m : Message)
    (past : List Emission) : Prop :=
  ∀ envelope, m.Carries C agent envelope →
    ∃ t d, d.agent = agent ∧ d.message = m ∧ AnsweredBy t d envelope.eventId past

/-- What is answered stays so, and it does not matter what came before. -/
theorem AnsweredBy.append {event : String} {past : List Emission} (h : AnsweredBy t d event past)
    (newer older : List Emission) : AnsweredBy t d event (newer ++ past ++ older) := by
  obtain ⟨em, before, ⟨between, rfl⟩, htask, hd, heffect, hwhy⟩ := h
  refine ⟨em, before ++ older, ⟨newer ++ between, by simp⟩, htask, hd, heffect, ?_⟩
  rcases hwhy with ⟨exit, start, hsub, hran⟩ | ⟨hit, hmem, hfound⟩
  · exact .inl ⟨exit, start, hsub.trans (List.sublist_append_left ..), hran⟩
  · exact .inr ⟨hit, List.mem_append_left _ hmem, hfound⟩

/-- What the dispatch `t` of a delivery that carries the event has done so far, when its agent is
enabled and its handler can be spawned. -/
def Stage.Handling (t : ℕ) (d : Delivery) (event : String) (past : List Emission) : Stage → Prop
  | .received | .configured _ | .waiting .. => True
  | .slot _ _ .lookup | .slot _ _ .check | .slot _ _ .spawn => True
  | .slot _ _ .hit => RecalledBy t d event past
  | .slot _ _ .wait => StartedBy t d (d.agent, event) past
  | .slot _ _ .mark | .slot _ _ .remove | .slot _ _ .ack => RanBy t d (d.agent, event) past
  | .slot _ _ .release | .finished => AnsweredBy t d event past
  | .rejected | .slot _ _ .abort | .slot _ _ .term => False

/-- Every access of such a dispatch brings it closer to the answer, unless the event is in flight.
-/
theorem Polls.handling {E E' : Dispatcher} {o : Outcome} {s s' : Stage} {effects : List Effect}
    {envelope : EventEnvelope} {past : List Emission} (hpoll : Polls C E d o s E' s' effects)
    (hspawns : o.spawnFails = false) (hd : d.Carries C envelope)
    (hen : E.registry.Enabled d.agent) (hempty : s.beforeInsert = true → E.inFlight = ∅)
    (hjob : ∀ job, s.job? = some job → d.Carries C job.envelope)
    (h : s.Handling t d envelope.eventId past) :
    s'.Handling t d envelope.eventId (effects.map (fun effect => ⟨t, d, effect⟩) ++ past) := by
  have hsame : ∀ job, s.job? = some job → job.envelope = envelope := by
    intro job hs
    have hboth := (Delivery.carries_iff.mp (hjob job hs)).symm.trans (Delivery.carries_iff.mp hd)
    exact Option.some_inj.mp hboth
  cases hpoll with
  | reject hrejects =>
    obtain ⟨config, hget, henabled⟩ := hen
    cases hrejects with
    | invalid hno => exact absurd hd (hno envelope)
    | unregistered _ hnone => cases hnone.symm.trans hget
    | disabled _ hget' hdis =>
      obtain rfl := Option.some_inj.mp (hget'.symm.trans hget)
      cases hdis.symm.trans henabled
  | configure | ensure | acquire | miss | enter => trivial
  | termRejected | abort | term => exact h.elim
  | spawnFail hfails => cases hfails.symm.trans hspawns
  | drop hin =>
    rw [hempty rfl] at hin
    exact absurd hin (Set.notMem_empty _)
  | @hit job =>
    rw [← hsame job rfl]
    exact ⟨_, List.mem_cons_self, rfl, rfl, rfl⟩
  | @spawn job =>
    rw [← hsame job rfl]
    exact ⟨_, List.mem_cons_self, rfl, rfl, rfl⟩
  | @exit job =>
    obtain ⟨em, hem, htask, hdelivery, hk⟩ := h
    refine ⟨_, em, (List.singleton_sublist.mpr hem).cons_cons _, rfl, rfl, ?_, htask, hdelivery, hk⟩
    rw [← hsame job rfl]
    rfl
  | mark | markFail => exact RanBy.append h _
  | remove => exact h
  | @ack job =>
    exact ⟨_, past, List.suffix_rfl, rfl, rfl, by rw [← hsame job rfl], .inl h⟩
  | @ackHit job =>
    exact ⟨_, past, List.suffix_rfl, rfl, rfl, by rw [← hsame job rfl], .inr h⟩
  | release => exact h

/-! ## The only dispatch under way -/

/-- No dispatch but `t` is under way, and its agent is enabled.  It finds no event in flight; when
it is through with its message it has acknowledged or terminated it, and acknowledged it if it
carries an event. -/
structure World.Alone (C : DispatcherConfig) (old : List Emission) (t : ℕ) (d : Delivery)
    (w : World) : Prop where
  others : ∀ (i : ℕ) (task : Task), w.tasks[i]? = some task → i ≠ t → task.stage = .finished
  enabled : w.dispatcher.registry.Enabled d.agent
  stage : ∃ s, w.tasks[t]? = some ⟨d, s⟩ ∧
    (s.beforeInsert = true → w.dispatcher.inFlight = ∅) ∧
    (s.resolved = true → ∃ em ∈ w.trace, em.resolves d.agent d.streamSequence = true) ∧
    (∀ job, s.job? = some job → d.Carries C job.envelope) ∧
    ∃ recent, w.trace = recent ++ old ∧
      ∀ envelope, d.Carries C envelope → s.Handling t d envelope.eventId recent

/-- An access before the insertion leaves nothing in flight, and an access that resolves the message
says so, when no event is in flight. -/
theorem Polls.alone {E E' : Dispatcher} {o : Outcome} {s s' : Stage} {effects : List Effect}
    (hpoll : Polls C E d o s E' s' effects) (hempty : s.beforeInsert = true → E.inFlight = ∅) :
    (s'.beforeInsert = true → E'.inFlight = ∅) ∧
      (s'.resolved = true → s.resolved = true ∨
        ∃ effect ∈ effects, Emission.resolves ⟨t, d, effect⟩ d.agent d.streamSequence = true) := by
  have hresolves : ∀ effect, (effect = .termed ∨ ∃ event, effect = .acked event) →
      Emission.resolves ⟨t, d, effect⟩ d.agent d.streamSequence = true := by
    rintro effect (rfl | ⟨event, rfl⟩) <;> simp [Emission.resolves]
  have hno : ∀ {p : Prop}, false = true → p := fun h => absurd h Bool.false_ne_true
  cases hpoll with
  | drop hin =>
    rw [hempty rfl] at hin
    exact absurd hin (Set.notMem_empty _)
  | ensure =>
    refine ⟨fun _ => ?_, hno⟩
    rw [Dispatcher.inFlight_ensureState]
    exact hempty rfl
  | termRejected | term =>
    exact ⟨hno, fun _ => .inr ⟨_, List.mem_cons_self, hresolves _ (.inl rfl)⟩⟩
  | ackHit | ack =>
    exact ⟨hno, fun _ => .inr ⟨_, List.mem_cons_self, hresolves _ (.inr ⟨_, rfl⟩)⟩⟩
  | release => exact ⟨hno, fun _ => .inl rfl⟩
  | reject | configure | acquire | hit | miss => exact ⟨fun _ => hempty rfl, hno⟩
  | enter | spawnFail | spawn | exit | mark | markFail | remove | abort => exact ⟨hno, hno⟩

/-- An access of a dispatch at which no spawn fails. -/
def Action.Advances : Action → Prop
  | .poll _ o => o.spawnFails = false
  | _ => False

theorem Action.Advances.isPoll {b : Action} (h : b.Advances) : b.IsPoll := by
  cases b with
  | poll t o => trivial
  | _ => exact h.elim

namespace World.Alone

variable {old : List Emission}

/-- A dispatch that is spawned when all others are at rest is alone. -/
theorem deliver (hrest : w.AtRest) (hen : w.dispatcher.registry.Enabled d.agent) :
    World.Alone C w.trace w.tasks.length d { w with tasks := w.tasks ++ [⟨d, .received⟩] } where
  others i task hi hne := by
    rcases getElem?_append_cases hi with ⟨heq, -⟩ | hi
    · exact absurd heq hne
    · exact hrest.returned task (List.mem_of_getElem? hi)
  enabled := hen
  stage := by
    refine ⟨.received, by simp, fun _ => ?_, nofun, nofun, [], rfl, fun _ _ => trivial⟩
    refine Set.eq_empty_iff_forall_notMem.mpr fun k hk => ?_
    have hin : k.2 ∈ w.dispatcher.inFlightIds k.1 := hk
    rw [hrest.inFlight k.1] at hin
    exact absurd hin (Finset.notMem_empty _)

/-- An access of a dispatch can only be one of the dispatch that is alone. -/
theorem step (h : w.Alone C old t d) {b : Action} (hb : b.Advances)
    (hstep : (dispatchSystem C).step w b = some w') : w'.Alone C old t d := by
  cases b with
  | poll u o =>
    obtain ⟨d', s', E', s'', effects, htask, hpoll, rfl⟩ := World.step_poll hstep
    obtain ⟨s, hs, hempty, hresolved, hjob, recent, htrace, hhandling⟩ := h.stage
    obtain rfl : u = t := by
      by_contra hne
      obtain rfl : s' = .finished := h.others u _ htask hne
      cases hpoll
    obtain ⟨rfl, rfl⟩ : d = d' ∧ s = s' := by simpa using hs.symm.trans htask
    obtain ⟨hempty', hresolved'⟩ := hpoll.alone (t := u) hempty
    refine ⟨fun i task hi hne => ?_, ?_, s'', getElem?_set_self_of_mem htask, hempty',
      fun hs'' => ?_, (hpoll.genuine (t := u) hjob).2,
      effects.map (fun effect => ⟨u, d, effect⟩) ++ recent, ?_, fun envelope hd => ?_⟩
    · rcases getElem?_set_cases hi with ⟨heq, -⟩ | ⟨-, hi⟩
      · exact absurd heq hne
      · exact h.others i task hi hne
    · show E'.registry.Enabled d.agent
      rw [hpoll.registry_eq]
      exact h.enabled
    · rcases hresolved' hs'' with hs | ⟨effect, heffect, hres⟩
      · obtain ⟨em, hem, hres⟩ := hresolved hs
        exact ⟨em, List.mem_append_right _ hem, hres⟩
      · exact ⟨_, List.mem_append_left _ (List.mem_map_of_mem heffect), hres⟩
    · show effects.map (fun effect => ⟨u, d, effect⟩) ++ w.trace = _
      rw [htrace, List.append_assoc]
    · exact hpoll.handling hb hd h.enabled hempty hjob (hhandling envelope hd)
  | _ => exact hb.elim

/-- Once it has returned, its message is resolved, and answered if it carries an event. -/
theorem resolved (h : w.Alone C old t d) (hall : ∀ task ∈ w.tasks, task.stage = .finished) :
    (∃ em ∈ w.trace, em.resolves d.agent d.streamSequence = true) ∧
      ∃ recent, w.trace = recent ++ old ∧
        ∀ envelope, d.Carries C envelope → AnsweredBy t d envelope.eventId recent := by
  obtain ⟨s, hs, -, hresolved, -, recent, htrace, hhandling⟩ := h.stage
  obtain rfl : s = .finished := hall _ (List.mem_of_getElem? hs)
  exact ⟨hresolved rfl, recent, htrace, hhandling⟩

end World.Alone

/-! ## The order of the outstanding messages -/

namespace Consumer

variable {c : Consumer}

/-- The outstanding messages were sent in the order of their sequences, so a sequence belongs to one
of them only. -/
structure Ordered (c : Consumer) : Prop where
  sent : ∀ m ∈ c.messages, m.streamSequence ≤ c.lastStream
  unique : ∀ m ∈ c.messages, ∀ m' ∈ c.messages, m.streamSequence = m'.streamSequence → m = m'

theorem Ordered.settle (h : c.Ordered) (seq : ℕ) : (c.settle seq).Ordered where
  sent m hm := h.sent m (mem_messages_settle.mp hm).1
  unique m hm m' hm' := h.unique m (mem_messages_settle.mp hm).1 m' (mem_messages_settle.mp hm').1

/-- A new message is later in the stream than all that are outstanding. -/
theorem Ordered.send (h : c.Ordered) {c' : Consumer} {sending : Sending}
    (hsend : c.send agent sending = some (c', d)) : c'.Ordered := by
  obtain ⟨-, -, -, ⟨hlt, hlast, hmessages⟩ | ⟨-, hlast, hmessages⟩⟩ := send_cases hsend
  · have hnew : ∀ m ∈ c.messages, m.streamSequence ≠ d.message.streamSequence := by
      intro m hm heq
      have hle := h.sent m hm
      have hseq : m.streamSequence = d.streamSequence := heq
      omega
    refine ⟨fun m hm => ?_, fun m hm m' hm' hseq => ?_⟩
    · rw [hmessages] at hm
      rcases List.mem_append.mp hm with hm | hm
      · have hle := h.sent m hm
        omega
      · obtain rfl := List.mem_singleton.mp hm
        exact hlast.ge
    · rw [hmessages] at hm hm'
      rcases List.mem_append.mp hm with hm | hm <;> rcases List.mem_append.mp hm' with hm' | hm'
      · exact h.unique m hm m' hm' hseq
      · rw [List.mem_singleton.mp hm'] at hseq
        exact absurd hseq (hnew m hm)
      · rw [List.mem_singleton.mp hm] at hseq
        exact absurd hseq.symm (hnew m' hm')
      · rw [List.mem_singleton.mp hm, List.mem_singleton.mp hm']
  · exact ⟨hmessages ▸ hlast ▸ h.sent, hmessages ▸ h.unique⟩

/-- The server can send an outstanding message again, which leaves the messages outstanding as they
are. -/
theorem Ordered.exists_send_again (h : c.Ordered) {m : Message} (hm : m ∈ c.messages)
    (agent : AgentId) :
    ∃ c' d, c.send agent (.again m.streamSequence) = some (c', d) ∧ d.agent = agent ∧
      d.message = m ∧ c'.messages = c.messages := by
  obtain ⟨q, hq, rfl⟩ := List.mem_map.mp hm
  obtain ⟨p, hfind⟩ : ∃ p, (c.outstanding.find? fun p =>
      p.message.streamSequence == q.message.streamSequence) = some p :=
    Option.isSome_iff_exists.mp (List.find?_isSome.mpr ⟨q, hq, beq_self_eq_true _⟩)
  have hpq : p.message = q.message := by
    refine h.unique _ (List.mem_map_of_mem (List.mem_of_find?_eq_some hfind)) _ hm ?_
    simpa using List.find?_some hfind
  simp only [Consumer.send, hfind]
  refine ⟨_, _, rfl, rfl, ?_, ?_⟩
  · rw [← hpq]
    rfl
  · simp only [messages, List.map_map]
    refine List.map_congr_left fun r hr => ?_
    simp only [Function.comp_apply]
    split <;> rfl

end Consumer

namespace Daemon

/-- The consumers are in order. -/
def Ordered (D : Daemon) : Prop := ∀ agent c, D.consumers agent = some c → c.Ordered

/-- Every step keeps the consumers in order. -/
theorem Ordered.step (h : D.Ordered) (hstep : (daemonSystem C).step D a = some D') :
    D'.Ordered := by
  intro agent c' hc'
  rcases consumer_of_step hstep agent with heq | ⟨l, sending, c, c₁, d, -, hc, hsend, hnew⟩ |
    ⟨seq, c, -, hc, -, hnew⟩ | ⟨-, config, hnew⟩
  · exact h agent c' (heq ▸ hc')
  · obtain rfl := Option.some_inj.mp (hnew.symm.trans hc')
    exact (h agent c hc).send hsend
  · obtain rfl := Option.some_inj.mp (hnew.symm.trans hc')
    exact (h agent c hc).settle seq
  · obtain rfl := Option.some_inj.mp (hnew.symm.trans hc')
    exact ⟨nofun, nofun⟩

/-- A message that the stream drops is taken off a consumer, which stays in order. -/
theorem Ordered.expire (h : D.Ordered) {c : Consumer} (hc : D.consumers agent = some c) (seq : ℕ) :
    Ordered { D with consumers := Function.update D.consumers agent (some (c.settle seq)) } := by
  intro ag c' hc'
  dsimp only at hc'
  by_cases hag : ag = agent
  · subst hag
    rw [Function.update_self] at hc'
    obtain rfl := Option.some_inj.mp hc'
    exact (h ag c hc).settle seq
  · rw [Function.update_of_ne hag] at hc'
    exact h ag c' hc'

end Daemon

/-! ## The automatic steps -/

/-- A loop that goes on does not touch the registry. -/
theorem Pulls.registry_eq {s s' : LoopStage} (h : Pulls C D agent s D' s') :
    D'.registry = D.registry := by
  cases h with
  | call hworld | spawn hworld => exact Option.some_inj.mp hworld ▸ rfl
  | count hworld =>
    obtain ⟨agent', s, W', s', -, hpoll, rfl⟩ := World.step_pollCall (C := C) hworld
    exact hpoll.registry_eq
  | _ => rfl

namespace Daemon

/-- A pull loop that waits for the answer of `available` waits for a call of its agent. -/
def Called (D : Daemon) : Prop :=
  ∀ (l : ℕ) (p : PullLoop) (c : ℕ), D.loops[l]? = some p → p.stage.call? = some c →
    ∃ s, D.world.calls[c]? = some ⟨p.agent, s⟩

theorem Called.start (registry : Registry) (dedup : DedupStore)
    (consumers : AgentId → Option Consumer) : (start registry dedup consumers).Called := by
  intro l p c hp
  cases hp

/-- A move of a loop keeps the calls that the loops wait for. -/
theorem Called.pull (h : D.Called) {move : LoopMove}
    (hstep : (daemonSystem C).step D (.pull l move) = some D') : D'.Called := by
  obtain ⟨p, D₁, p', hp, htask, rfl⟩ := step_pull hstep
  obtain ⟨hagent, -, ⟨rfl, hstage⟩ | hmove⟩ := pull_of_pullTask htask
  · intro i q c hq hc
    rcases getElem?_set_cases hq with ⟨rfl, rfl⟩ | ⟨-, hq⟩
    · rw [hagent]
      exact h _ p c hp (hstage ▸ hc)
    · exact h i q c hq hc
  rcases pull_cases hmove with ⟨world, -, hworld, rfl, hcounting⟩ |
    ⟨i, world, hs, -, hworld, rfl, hsame⟩ | ⟨d, credit, inbox, world, -, hworld, hw, hloops, hs'⟩ |
    ⟨rfl, hnone, -⟩
  · obtain rfl := Option.some_inj.mp hworld
    intro i q c hq hc
    rcases getElem?_set_cases hq with ⟨rfl, rfl⟩ | ⟨-, hq⟩
    · rw [hcounting] at hc
      obtain rfl := Option.some_inj.mp hc
      exact ⟨.start, by simp [hagent]⟩
    · obtain ⟨s, hs⟩ := h i q c hq hc
      exact ⟨s, getElem?_append_of_some hs⟩
  · obtain ⟨agent, s, E', s', hcall, -, rfl⟩ := World.step_pollCall (C := C) hworld
    have hset : ∀ (q : PullLoop) (c : ℕ), (∃ s, D.world.calls[c]? = some ⟨q.agent, s⟩) →
        ∃ s, (D.world.calls.set i ⟨agent, s'⟩)[c]? = some ⟨q.agent, s⟩ := by
      rintro q c ⟨s₁, hs₁⟩
      by_cases hci : c = i
      · subst hci
        obtain ⟨rfl, -⟩ : agent = q.agent ∧ s = s₁ := by simpa using hcall.symm.trans hs₁
        exact ⟨s', getElem?_set_self_of_mem hcall⟩
      · rw [List.getElem?_set_ne (Ne.symm hci)]
        exact ⟨s₁, hs₁⟩
    intro j q c hq hc
    rcases getElem?_set_cases hq with ⟨rfl, rfl⟩ | ⟨-, hq⟩
    · refine hset _ c ?_
      rw [hagent]
      exact h _ p c hp (hsame ▸ hc)
    · exact hset q c (h j q c hq hc)
  · obtain rfl := Option.some_inj.mp hworld
    intro i q c hq hc
    rw [hw]
    rcases getElem?_set_cases hq with ⟨rfl, rfl⟩ | ⟨-, hq⟩
    · rw [hs'] at hc
      cases hc
    · exact h i q c (hloops ▸ hq) hc
  · intro i q c hq hc
    rcases getElem?_set_cases hq with ⟨rfl, rfl⟩ | ⟨-, hq⟩
    · rw [hnone] at hc
      cases hc
    · exact h i q c hq hc

/-- Every step keeps the calls that the loops wait for. -/
theorem Called.step (h : D.Called) (hstep : (daemonSystem C).step D a = some D') : D'.Called := by
  by_cases hpull : ∃ l move, a = .pull l move
  · obtain ⟨l, move, rfl⟩ := hpull
    exact h.pull hstep
  by_cases hsend : ∃ loop ag sending, a = .send loop ag sending
  · obtain ⟨loop, ag, sending, rfl⟩ := hsend
    obtain ⟨c, c', d, -, -, ⟨-, rfl⟩ | ⟨l, p, stage, -, hp, -, haccept, rfl⟩⟩ := step_send hstep
    · exact h
    · intro i q c hq hc
      rcases getElem?_set_cases hq with ⟨rfl, rfl⟩ | ⟨-, hq⟩
      · rw [LoopStage.call?_accept haccept] at hc
        cases hc
      · exact h i q c hq hc
  by_cases hrestart : ∃ registry now ttl, a = .restart registry now ttl
  · obtain ⟨registry, now, ttl, rfl⟩ := hrestart
    obtain ⟨world, -, rfl⟩ := step_restart hstep
    intro i q c hq
    cases hq
  intro i q c hq hc
  have haside : Aside q.agent D D' := by
    refine .of_step hstep ?_ ?_ ?_
    · exact fun l move heq => hpull ⟨l, move, heq⟩
    · exact fun loop ag sending heq => hsend ⟨loop, ag, sending, heq⟩
    · exact fun registry now ttl heq => hrestart ⟨registry, now, ttl, heq⟩
  rw [haside.calls]
  rcases haside.loops i q hq with hfree | ⟨p, hp, hag, hstage⟩
  · rw [hfree] at hc
    cases hc
  · rw [hag]
    exact h i p c hp (hstage ▸ hc)

/-- The shutdown has neither returned nor does it hold the lock of the set of dispatches. -/
def Unlocked (D : Daemon) : Prop := D.shutdown ≠ some .join ∧ D.shutdown ≠ some .returned

/-- The agent is registered and enabled, its pull loop `l` was not aborted, and dispatches can be
spawned. -/
structure Ready (agent : AgentId) (l : ℕ) (D : Daemon) : Prop where
  sound : D.world.Sound
  called : D.Called
  ordered : D.Ordered
  enabled : D.registry.Enabled agent
  unlocked : D.Unlocked
  live : ∃ p, D.loops[l]? = some p ∧ p.agent = agent ∧ p.aborted = false

/-- An automatic step keeps the agent ready. -/
theorem Ready.step (h : D.Ready agent l) (ha : a.Automatic)
    (hstep : (daemonSystem C).step D a = some D') : D'.Ready agent l := by
  obtain ⟨p, hp, hag, hlive⟩ := h.live
  have hkeeps : D'.registry = D.registry → D'.shutdown = D.shutdown →
      (∃ p', D'.loops[l]? = some p' ∧ p'.agent = p.agent ∧ p'.aborted = p.aborted) →
        D'.Ready agent l := by
    rintro hregistry hshutdown ⟨p', hp', hag', hlive'⟩
    exact ⟨sound_step h.sound hstep, h.called.step hstep, h.ordered.step hstep,
      hregistry ▸ h.enabled, by rw [Unlocked, hshutdown]; exact h.unlocked, p', hp',
      hag'.trans hag, hlive'.trans hlive⟩
  cases a with
  | poll t o =>
    obtain ⟨world, hworld, rfl⟩ := Option.map_eq_some_iff.mp hstep
    obtain ⟨d, s, E', s', effects, -, hpoll, rfl⟩ := World.step_poll hworld
    exact hkeeps hpoll.registry_eq rfl ⟨p, hp, rfl, rfl⟩
  | pull i move =>
    obtain ⟨q, D₁, q', hq, htask, rfl⟩ := step_pull hstep
    obtain ⟨hagent, haborted, hmove⟩ := pullTask_cases htask
    have hloops : D₁.loops = D.loops := by
      rcases hmove with ⟨rfl, -⟩ | hpulls
      · rfl
      · exact hpulls.relay_eq.2.1
    refine hkeeps ?_ ?_ ?_
    · rcases hmove with ⟨rfl, -⟩ | hpulls
      · rfl
      · exact hpulls.registry_eq
    · rcases hmove with ⟨rfl, -⟩ | hpulls
      · rfl
      · exact hpulls.relay_eq.2.2.2.2
    · by_cases hi : l = i
      · subst hi
        obtain rfl : p = q := Option.some_inj.mp (hp.symm.trans hq)
        exact ⟨q', getElem?_set_self_of_mem (hloops ▸ hp), hagent, haborted⟩
      · refine ⟨p, ?_, rfl, rfl⟩
        rw [List.getElem?_set_ne (Ne.symm hi), hloops]
        exact hp
  | send loop ag sending =>
    obtain ⟨c, c', d, -, -, ⟨-, rfl⟩ | ⟨i, q, stage, -, hq, -, -, rfl⟩⟩ := step_send hstep
    · exact hkeeps rfl rfl ⟨p, hp, rfl, rfl⟩
    · refine hkeeps rfl rfl ?_
      by_cases hi : l = i
      · subst hi
        obtain rfl : p = q := Option.some_inj.mp (hp.symm.trans hq)
        exact ⟨_, getElem?_set_self_of_mem hp, rfl, rfl⟩
      · exact ⟨p, (List.getElem?_set_ne (Ne.symm hi)).trans hp, rfl, rfl⟩
  | settle ag seq =>
    obtain ⟨c, -, -, rfl⟩ := step_settle hstep
    exact hkeeps rfl rfl ⟨p, hp, rfl, rfl⟩
  | _ => exact ha.elim

end Daemon

/-! ## Bringing the loop to its next request -/

/-- How many accesses a call of `available` makes before it returns. -/
def CallStage.left : CallStage → ℕ
  | .start => 3
  | .configured _ => 2
  | .counting _ => 1
  | .done _ => 0

/-- A call of `available` that has not returned can make its next access. -/
theorem exists_pollAvailable (E : Dispatcher) (agent : AgentId) {s : CallStage} (h : s.left ≠ 0) :
    ∃ E' s', E.pollAvailable agent s = some (E', s') ∧ s'.left < s.left := by
  cases s with
  | start =>
    simp only [Dispatcher.pollAvailable]
    split
    · split
      · exact ⟨_, _, rfl, by simp [CallStage.left]⟩
      · exact ⟨_, _, rfl, by simp [CallStage.left]⟩
    · exact ⟨_, _, rfl, by simp [CallStage.left]⟩
  | configured config => exact ⟨_, _, rfl, by simp [CallStage.left]⟩
  | counting permits => exact ⟨_, _, rfl, by simp [CallStage.left]⟩
  | done slots => exact absurd rfl h

/-- How many accesses a loop that is being polled makes at most, if its requests fail, before it
asks for the free slots. -/
def LoopStage.untilFree (calls : List Call) : LoopStage → ℕ
  | .free => 0
  | .asleep | .receiving .. => 1
  | .requesting _ | .spawning .. => 2
  | .counting c => 3 + (calls[c]?).elim 0 fun call => call.stage.left

namespace Daemon

/-- A run of automatic steps. -/
abbrev RunsOn (C : DispatcherConfig) (D D' : Daemon) : Prop :=
  (daemonSystem C).Run (fun _ a => a.Automatic) D D'

theorem runsOn_pull {move : LoopMove} (h : (daemonSystem C).step D (.pull l move) = some D') :
    D.RunsOn C D' :=
  Run.head (a := .pull l move) trivial h .refl

/-- A loop with a message in its hand spawns the dispatch, when the lock is free. -/
theorem pull_spawning {credit : ℕ} {inbox : List Delivery} (h : D.shutdown ≠ some .join) :
    D.pull C agent (.spawning d credit inbox) .advance =
      some ({ D with
          world := { D.world with tasks := D.world.tasks ++ [⟨d, .received⟩] }
          dispatchTasks := D.dispatchTasks ++ [D.world.tasks.length] },
        .receiving credit inbox) := by
  simp only [pull, if_neg h]
  rfl

/-- An access of a loop that is being polled. -/
theorem Ready.move (h : D.Ready agent l) {p : PullLoop} (hp : D.loops[l]? = some p)
    (hpolling : p.polling = true) {move : LoopMove} (hmove : move = .advance ∨ move = .fail)
    (s' : LoopStage) (hpull : D.pull C p.agent p.stage move = some (D₁, s')) :
    ∃ D', (daemonSystem C).step D (.pull l move) = some D' ∧ D'.Ready agent l ∧
      D'.loops[l]? = some { p with stage := s' } ∧ D'.world = D₁.world ∧
      D'.consumers = D.consumers := by
  have htask : D.pullTask C p move = some (D₁, { p with stage := s' }) := by
    rcases hmove with rfl | rfl <;> simp [pullTask, hpolling, hpull]
  have hstep : (daemonSystem C).step D (.pull l move) =
      some { D₁ with loops := D₁.loops.set l { p with stage := s' } } := by
    simp [daemonSystem, Daemon.step, hp, htask]
  obtain ⟨-, hloops, -, hconsumers, -⟩ := (pulls_of_pull hpull).relay_eq
  refine ⟨_, hstep, h.step (a := .pull l move) trivial hstep, ?_, rfl, hconsumers⟩
  exact getElem?_set_self_of_mem (hloops ▸ hp)

/-- An access of the call that a loop waits for. -/
theorem Ready.pollCall (h : D.Ready agent l) {c : ℕ} {s s' : CallStage} {E : Dispatcher}
    (hp : D.loops[l]? = some ⟨agent, .counting c, true, false⟩)
    (hcall : D.world.calls[c]? = some ⟨agent, s⟩)
    (hpoll : D.world.dispatcher.pollAvailable agent s = some (E, s')) :
    ∃ D', (daemonSystem C).step D (.pull l .advance) = some D' ∧ D'.Ready agent l ∧
      D'.loops[l]? = some ⟨agent, .counting c, true, false⟩ ∧
      D'.world = { D.world with dispatcher := E, calls := D.world.calls.set c ⟨agent, s'⟩ } ∧
      D'.consumers = D.consumers := by
  have hworld : World.step C D.world (.pollCall c) =
      some { D.world with dispatcher := E, calls := D.world.calls.set c ⟨agent, s'⟩ } := by
    simp [World.step, hcall, hpoll]
  have hpull : D.pull C agent (.counting c) .advance = some ({ D with world :=
      { D.world with dispatcher := E, calls := D.world.calls.set c ⟨agent, s'⟩ } },
        .counting c) := by
    obtain _ | _ | _ | _ := s
    · simp [pull, hcall, hworld]
    · simp [pull, hcall, hworld]
    · simp [pull, hcall, hworld]
    · cases hpoll
  exact h.move hp rfl (.inl rfl) _ hpull

/-- A loop that is being polled can make an access that brings it closer to where it asks for the
free slots. -/
theorem Ready.exists_closer (h : D.Ready agent l) {s : LoopStage}
    (hp : D.loops[l]? = some ⟨agent, s, true, false⟩) (hs : s.untilFree D.world.calls ≠ 0) :
    ∃ move D' s', (daemonSystem C).step D (.pull l move) = some D' ∧ D'.Ready agent l ∧
      D'.consumers = D.consumers ∧ D'.loops[l]? = some ⟨agent, s', true, false⟩ ∧
      s'.untilFree D'.world.calls < s.untilFree D.world.calls := by
  -- an access of the loop that leads to the stage `s'`, with the calls as they are then
  have hmove : ∀ {move : LoopMove} (D₁ : Daemon) (s' : LoopStage),
      (move = .advance ∨ move = .fail) → D.pull C agent s move = some (D₁, s') →
        s'.untilFree D₁.world.calls < s.untilFree D.world.calls →
          ∃ move D' s', (daemonSystem C).step D (.pull l move) = some D' ∧ D'.Ready agent l ∧
            D'.consumers = D.consumers ∧ D'.loops[l]? = some ⟨agent, s', true, false⟩ ∧
            s'.untilFree D'.world.calls < s.untilFree D.world.calls := by
    intro move D₁ s' hmove hpull hlt
    obtain ⟨D', hstep, hready, hp', hworld, hsame⟩ := h.move hp rfl hmove s' hpull
    exact ⟨move, D', s', hstep, hready, hsame, hp', hworld ▸ hlt⟩
  cases s with
  | free => exact absurd rfl hs
  | asleep => exact hmove _ .free (.inl rfl) rfl Nat.one_pos
  | requesting slots => exact hmove _ .asleep (.inr rfl) rfl Nat.one_lt_two
  | receiving credit inbox =>
    refine hmove D .free (.inr rfl) ?_ Nat.one_pos
    cases inbox <;> rfl
  | spawning d credit inbox =>
    exact hmove _ _ (.inl rfl) (pull_spawning h.unlocked.1) Nat.one_lt_two
  | counting c =>
    obtain ⟨cs, hcall⟩ := h.called l _ c hp rfl
    have hrank : (LoopStage.counting c).untilFree D.world.calls = 3 + cs.left := by
      simp [LoopStage.untilFree, hcall]
    by_cases hleft : cs.left = 0
    · obtain ⟨slots, rfl⟩ : ∃ slots, cs = .done slots := by
        cases cs with
        | done slots => exact ⟨slots, rfl⟩
        | _ => cases hleft
      have hpull : D.pull C agent (.counting c) .advance =
          some (D, if slots = 0 then .asleep else .requesting slots) := by
        simp only [pull, hcall]
      refine hmove _ _ (.inl rfl) hpull ?_
      rw [hrank]
      split <;> simp only [LoopStage.untilFree] <;> omega
    · obtain ⟨E, s', hpoll, hlt⟩ := exists_pollAvailable D.world.dispatcher agent hleft
      obtain ⟨D', hstep, hready, hp', hworld, hsame⟩ := h.pollCall hp hcall hpoll
      have hself : D'.world.calls[c]? = some ⟨agent, s'⟩ := by
        rw [hworld]
        exact getElem?_set_self_of_mem hcall
      refine ⟨.advance, D', .counting c, hstep, hready, hsame, hp', ?_⟩
      rw [hrank]
      simpa [LoopStage.untilFree, hself] using hlt

/-- The loop can be brought to where it asks for the free slots. -/
theorem Ready.exists_free (h : D.Ready agent l) :
    ∃ D', D.RunsOn C D' ∧ D'.Ready agent l ∧ D'.consumers = D.consumers ∧
      D'.loops[l]? = some ⟨agent, .free, true, false⟩ := by
  -- the rank counts that a loop that is not being polled is resumed first
  let I : ℕ → Daemon → Prop := fun n x => x.Ready agent l ∧ x.consumers = D.consumers ∧
    ∃ s polling, x.loops[l]? = some ⟨agent, s, polling, false⟩ ∧
      s.untilFree x.world.calls + (if polling then 0 else 1) = n
  have hstep : ∀ n x, I (n + 1) x → ∃ a y m, DaemonAction.Automatic a ∧
      (daemonSystem C).step x a = some y ∧ m ≤ n ∧ I m y := by
    rintro n x ⟨hready, hconsumers, s, polling, hp, hn⟩
    cases polling with
    | false =>
      have hresume : (daemonSystem C).step x (.pull l .resume) =
          some { x with loops := x.loops.set l ⟨agent, s, true, false⟩ } := by
        simp [daemonSystem, Daemon.step, hp, pullTask]
      refine ⟨.pull l .resume, _, n, trivial, hresume, le_rfl,
        hready.step (a := .pull l .resume) trivial hresume, hconsumers, s, true,
        getElem?_set_self_of_mem hp, ?_⟩
      simpa using hn
    | true =>
      rw [if_pos rfl, Nat.add_zero] at hn
      obtain ⟨move, y, s', hy, hready', hsame, hp', hlt⟩ :=
        hready.exists_closer (C := C) hp (by omega)
      have hle : s'.untilFree y.world.calls ≤ n := by omega
      exact ⟨.pull l move, y, _, trivial, hy, hle, hready', hsame.trans hconsumers, s', true, hp',
        rfl⟩
  obtain ⟨p, hp, hag, hlive⟩ := h.live
  obtain ⟨pAgent, s, polling, aborted⟩ := p
  obtain ⟨rfl, rfl⟩ : pAgent = agent ∧ aborted = false := ⟨hag, hlive⟩
  obtain ⟨D', hrun, hready, hconsumers, s', polling', hp', hzero⟩ :=
    exists_run_of_rank (I := I) hstep ⟨h, rfl, s, polling, hp, rfl⟩
  refine ⟨D', hrun, hready, hconsumers, ?_⟩
  obtain ⟨hfree, hpolling⟩ := Nat.add_eq_zero_iff.mp hzero
  cases s' with
  | free =>
    cases polling' with
    | true => exact hp'
    | false => cases hpolling
  | counting c => exact absurd hfree (by simp [LoopStage.untilFree])
  | _ => cases hfree

/-- When all dispatches have returned, the loop finds a free slot, and then its next request allows
a message. -/
theorem Ready.exists_request (h : D.Ready agent l)
    (hall : ∀ task ∈ D.world.tasks, task.stage = .finished)
    (hp : D.loops[l]? = some ⟨agent, .free, true, false⟩) :
    ∃ D' k, D.RunsOn C D' ∧ D'.Ready agent l ∧ D'.consumers = D.consumers ∧
      D'.world.tasks = D.world.tasks ∧
      D'.loops[l]? = some ⟨agent, .receiving (k + 1) [], true, false⟩ := by
  obtain ⟨config, hget, hen⟩ := h.enabled
  -- the call of `available`
  obtain ⟨D₁, hstep₁, h₁, hp₁, hworld₁, hcons₁⟩ :=
    h.move (C := C) hp rfl (.inl rfl) (.counting D.world.calls.length) rfl
  have hcall₁ : D₁.world.calls[D.world.calls.length]? = some ⟨agent, .start⟩ := by
    simp [hworld₁]
  have hpoll₁ : D₁.world.dispatcher.pollAvailable agent .start =
      some (D₁.world.dispatcher, .configured config) := by
    have hget₁ : D₁.world.dispatcher.registry.get agent = some config := by
      rw [hworld₁]
      exact hget
    simp [Dispatcher.pollAvailable, hget₁, hen]
  obtain ⟨D₂, hstep₂, h₂, hp₂, hworld₂, hcons₂⟩ := h₁.pollCall (C := C) hp₁ hcall₁ hpoll₁
  have hcall₂ : D₂.world.calls[D.world.calls.length]? = some ⟨agent, .configured config⟩ := by
    rw [hworld₂]
    exact getElem?_set_self_of_mem hcall₁
  obtain ⟨D₃, hstep₃, h₃, hp₃, hworld₃, hcons₃⟩ := h₂.pollCall (C := C) hp₂ hcall₂ rfl
  set permits := (D₂.world.dispatcher.ensureState agent config.maxConcurrency).2
  have hcall₃ : D₃.world.calls[D.world.calls.length]? = some ⟨agent, .counting permits⟩ := by
    rw [hworld₃]
    exact getElem?_set_self_of_mem hcall₂
  have hperm : D₃.world.dispatcher.permitsOf agent = some permits := by
    rw [hworld₃]
    exact Dispatcher.permitsOf_ensureState ..
  have htasks₃ : D₃.world.tasks = D.world.tasks := by
    rw [hworld₃, hworld₂, hworld₁]
  have hslots := h₃.sound.availablePermits_pos (htasks₃ ▸ hall) hperm
  obtain ⟨D₄, hstep₄, h₄, hp₄, hworld₄, hcons₄⟩ := h₃.pollCall (C := C) hp₃ hcall₃ rfl
  obtain ⟨k, hk⟩ := Nat.exists_eq_succ_of_ne_zero hslots.ne'
  have hcall₄ : D₄.world.calls[D.world.calls.length]? = some ⟨agent, .done (k + 1)⟩ := by
    rw [hworld₄]
    refine (getElem?_set_self_of_mem hcall₃).trans ?_
    rw [hk]
  -- the request
  have hpull₄ : D₄.pull C agent (.counting D.world.calls.length) .advance =
      some (D₄, .requesting (k + 1)) := by
    simp [pull, hcall₄]
  obtain ⟨D₅, hstep₅, h₅, hp₅, hworld₅, hcons₅⟩ := h₄.move (C := C) hp₄ rfl (.inl rfl) _ hpull₄
  obtain ⟨D₆, hstep₆, h₆, hp₆, hworld₆, hcons₆⟩ :=
    h₅.move (C := C) hp₅ rfl (.inl rfl) (.receiving (k + 1) []) rfl
  refine ⟨D₆, k, ?_, h₆, ?_, ?_, hp₆⟩
  · exact (runsOn_pull hstep₁).trans <| (runsOn_pull hstep₂).trans <|
      (runsOn_pull hstep₃).trans <| (runsOn_pull hstep₄).trans <| (runsOn_pull hstep₅).trans <|
      runsOn_pull hstep₆
  · rw [hcons₆, hcons₅, hcons₄, hcons₃, hcons₂, hcons₁]
  · rw [hworld₆, hworld₅, hworld₄]
    exact htasks₃

/-! ## Settling a message -/

/-- The accesses of the dispatches are automatic steps of the daemon, if no spawn fails. -/
theorem runsOn_polls (h : (dispatchSystem C).Run (fun _ b => b.Advances) D.world w) :
    D.RunsOn C { D with world := w } := by
  induction h with
  | refl => exact .refl
  | @tail v v' b _ hb hstep ih =>
    cases b with
    | poll t o =>
      have hworld : World.step C v (.poll t o) = some v' := hstep
      refine .tail (a := .poll t o) ih hb ?_
      simp [daemonSystem, Daemon.step, hworld]
    | _ => exact hb.elim

/-- The dispatches can be run until all of them have returned, and what every access keeps on the
way is true then. -/
theorem Ready.exists_atRest (h : D.Ready agent l) {I : World → Prop} (hI : I D.world)
    (hstep : ∀ v b v', I v → b.Advances → (dispatchSystem C).step v b = some v' → I v') :
    ∃ v, D.RunsOn C { D with world := v } ∧ Ready agent l { D with world := v } ∧ I v ∧
      v.AtRest := by
  obtain ⟨v, hpolls, -, hv, hrest⟩ :=
    h.sound.exists_atRest (P := Action.Advances) (fun _ hb => hb.isPoll) (fun _ => rfl) hI
      fun v b v' _ hv hb hvv' => hstep v b v' hv hb hvv'
  have hruns := runsOn_polls hpolls
  exact ⟨v, hruns, hruns.invariant h fun x a y hx ha hxy => hx.step ha hxy, hv, hrest⟩

/-- The server can send an outstanding message to a loop whose request allows one, and the loop
dispatches it. -/
theorem Ready.exists_dispatch (h : D.Ready agent l) {c : Consumer} {m : Message} {k : ℕ}
    (hall : ∀ task ∈ D.world.tasks, task.stage = .finished)
    (hp : D.loops[l]? = some ⟨agent, .receiving (k + 1) [], true, false⟩)
    (hc : D.consumers agent = some c) (hm : m ∈ c.messages) :
    ∃ D' c' d, D.RunsOn C D' ∧ D'.Ready agent l ∧ D'.consumers agent = some c' ∧
      c'.messages = c.messages ∧ d.agent = agent ∧ d.message = m ∧
      D'.world.Alone C D.world.trace D.world.tasks.length d := by
  obtain ⟨c', d, hsend, hdagent, hmessage, hmessages⟩ :=
    (h.ordered agent c hc).exists_send_again hm agent
  let D₁ : Daemon := { D with
    consumers := Function.update D.consumers agent (some c')
    loops := D.loops.set l ⟨agent, .receiving k [d], true, false⟩ }
  have hstep₁ : (daemonSystem C).step D (.send (some l) agent (.again m.streamSequence)) =
      some D₁ := by
    simp [daemonSystem, Daemon.step, hc, hsend, hp, LoopStage.accept, D₁]
  have h₁ : D₁.Ready agent l :=
    h.step (a := .send (some l) agent (.again m.streamSequence)) trivial hstep₁
  have hp₁ : D₁.loops[l]? = some ⟨agent, .receiving k [d], true, false⟩ :=
    getElem?_set_self_of_mem hp
  obtain ⟨D₂, hstep₂, h₂, hp₂, hworld₂, hcons₂⟩ :=
    h₁.move (C := C) hp₁ rfl (.inl rfl) (.spawning d k []) rfl
  obtain ⟨D₃, hstep₃, h₃, -, hworld₃, hcons₃⟩ :=
    h₂.move (C := C) hp₂ rfl (.inl rfl) _ (pull_spawning h₂.unlocked.1)
  refine ⟨D₃, c', d, ?_, h₃, ?_, hmessages, hdagent, hmessage, ?_⟩
  · exact Run.head (a := .send (some l) agent (.again m.streamSequence)) trivial hstep₁ <|
      (runsOn_pull hstep₂).trans (runsOn_pull hstep₃)
  · rw [hcons₃, hcons₂]
    exact Function.update_self ..
  · rw [hworld₃, hworld₂]
    exact .deliver (h.sound.atRest hall) (hdagent ▸ h.enabled)

/-- The history only grows. -/
theorem trace_of_runsOn (h : D.RunsOn C D') :
    ∃ recent, D'.world.trace = recent ++ D.world.trace := by
  induction h with
  | refl => exact ⟨[], rfl⟩
  | tail _ _ hstep ih =>
    obtain ⟨recent, htrace⟩ := ih
    obtain ⟨newer, hnewer, -⟩ := history_of_step hstep
    exact ⟨newer ++ recent, by rw [hnewer, htrace, List.append_assoc]⟩

/-- An outstanding message can be handled and settled, and no other one is touched. -/
theorem Ready.settle_one (h : D.Ready agent l) {c : Consumer} {m : Message}
    (hc : D.consumers agent = some c) (hm : m ∈ c.messages) :
    ∃ D' c' recent, D.RunsOn C D' ∧ D'.Ready agent l ∧ D'.consumers agent = some c' ∧
      (∀ m', m' ∈ c'.messages ↔ m' ∈ c.messages ∧ m'.streamSequence ≠ m.streamSequence) ∧
      D'.world.trace = recent ++ D.world.trace ∧ m.Answered C agent recent := by
  -- the loop asks for the free slots, when all dispatches have returned
  obtain ⟨D₁, hruns₁, h₁, hcons₁, hp₁⟩ := h.exists_free (C := C)
  obtain ⟨v, hruns₂, h₂, -, hrest⟩ := h₁.exists_atRest (C := C) (I := fun _ => True) trivial
    fun _ _ _ _ _ _ => trivial
  obtain ⟨D₃, k, hruns₃, h₃, hcons₃, htasks₃, hp₃⟩ := h₂.exists_request (C := C) hrest.returned hp₁
  have hc₃ : D₃.consumers agent = some c := by
    rw [hcons₃]
    exact (congrFun hcons₁ agent).trans hc
  obtain ⟨older, holder⟩ := trace_of_runsOn ((hruns₁.trans hruns₂).trans hruns₃)
  -- a copy of the message is dispatched, and nothing else is under way
  obtain ⟨D₄, c', d, hruns₄, h₄, hc₄, hmessages, hdagent, hmessage, halone⟩ :=
    h₃.exists_dispatch (C := C) (htasks₃ ▸ hrest.returned) hp₃ hc₃ hm
  obtain ⟨u, hruns₅, h₅, halone', hrest'⟩ := h₄.exists_atRest (C := C) halone
    fun _ _ _ hv hb hstep => hv.step hb hstep
  obtain ⟨⟨em, hem, hres⟩, recent, hrecent, hanswered⟩ := halone'.resolved hrest'.returned
  have hseq : d.streamSequence = m.streamSequence := congrArg Message.streamSequence hmessage
  rw [hdagent, hseq] at hres
  -- its ack or term arrives
  let D₅ : Daemon := { D₄ with world := u }
  let D₆ : Daemon := { D₅ with
    consumers := Function.update D₅.consumers agent (some (c'.settle m.streamSequence)) }
  have hstep₆ : (daemonSystem C).step D₅ (.settle agent m.streamSequence) = some D₆ := by
    have hany : (u.trace.any fun em => em.resolves agent m.streamSequence) = true :=
      List.any_eq_true.mpr ⟨em, hem, hres⟩
    simp [daemonSystem, Daemon.step, D₅, D₆, hc₄, hany]
  refine ⟨D₆, c'.settle m.streamSequence, recent ++ older, ?_, ?_, Function.update_self ..,
    fun m' => ?_, ?_, ?_⟩
  · exact hruns₁.trans <| hruns₂.trans <| hruns₃.trans <| hruns₄.trans <| hruns₅.trans <|
      Run.head (a := .settle agent m.streamSequence) trivial hstep₆ .refl
  · exact h₅.step (a := .settle agent m.streamSequence) trivial hstep₆
  · rw [Consumer.mem_messages_settle, hmessages]
  · show u.trace = _
    rw [hrecent, holder, List.append_assoc]
  · rintro envelope ⟨d', hagent', hmessage', hcarries⟩
    have hd : d.Carries C envelope :=
      hcarries.congr (hdagent.trans hagent'.symm) (hmessage.trans hmessage'.symm)
    exact ⟨_, d, hdagent, hmessage, (hanswered envelope hd).append [] older⟩

/-- The agent is registered and enabled, one of its pull loops was not aborted, and the shutdown has
neither returned nor does it hold the lock of the set of dispatches.  Then, whatever happened
before, every outstanding message of the agent can still be handled and settled, by nothing but
accesses of the dispatches at which no spawn fails, accesses of the pull loops, resends of
outstanding messages, and acks and terms that arrive.  Those messages that carry an event for the
agent are acknowledged on the way, after their handler has run to its end or a record of the event
was found. -/
theorem backlog_can_be_settled {registry : Registry} {dedup : DedupStore}
    {consumers : AgentId → Option Consumer} {p : PullLoop} {c : Consumer}
    (hordered : ∀ agent c, consumers agent = some c → c.Ordered)
    (hrun : (streamSystem C).Run (fun _ _ => True) (.start registry dedup consumers) D)
    (hen : D.registry.Enabled agent) (hp : D.loops[l]? = some p) (hag : p.agent = agent)
    (hlive : p.aborted = false) (hlock : D.Unlocked) (hc : D.consumers agent = some c) :
    ∃ D' c' recent, (daemonSystem C).Run (fun _ a => a.Automatic) D D' ∧
      D'.consumers agent = some c' ∧ c'.messages = [] ∧
      D'.world.trace = recent ++ D.world.trace ∧
      ∀ m ∈ c.messages, m.Answered C agent recent := by
  obtain ⟨hsound, hcalled, hordered⟩ : D.world.Sound ∧ D.Called ∧ D.Ordered := by
    refine hrun.invariant (I := fun x => x.world.Sound ∧ x.Called ∧ x.Ordered)
      ⟨.start registry dedup, .start registry dedup consumers, hordered⟩ ?_
    rintro x b y ⟨hsound, hcalled, hordered⟩ - hstep
    rcases streamSystem_cases hstep with ⟨a, rfl, hact⟩ | ⟨agent, seq, c, rfl, hc, rfl⟩
    · exact ⟨sound_step hsound hact, hcalled.step hact, hordered.step hact⟩
    · exact ⟨hsound, hcalled, hordered.expire hc seq⟩
  have hready : D.Ready agent l := ⟨hsound, hcalled, hordered, hen, hlock, p, hp, hag, hlive⟩
  clear hrun hen hp hlock hsound hcalled hordered
  -- one message after the other
  induction hn : c.messages.toFinset.card using Nat.strong_induction_on generalizing D c with
  | _ n ih =>
    cases hmessages : c.messages with
    | nil => exact ⟨D, c, [], .refl, hc, hmessages, rfl, fun m hm => by cases hm⟩
    | cons m rest =>
      have hm : m ∈ c.messages := hmessages ▸ List.mem_cons_self
      obtain ⟨D₁, c₁, recent₁, hruns₁, h₁, hc₁, hiff, htrace₁, hanswers⟩ :=
        hready.settle_one (C := C) hc hm
      have hlt : c₁.messages.toFinset.card < n := by
        rw [← hn]
        refine Finset.card_lt_card
          (Finset.ssubset_iff_subset_ne.mpr ⟨fun m' hm' => ?_, fun heq => ?_⟩)
        · exact List.mem_toFinset.mpr ((hiff m').mp (List.mem_toFinset.mp hm')).1
        · have hm₁ : m ∈ c₁.messages.toFinset := heq ▸ List.mem_toFinset.mpr hm
          exact ((hiff m).mp (List.mem_toFinset.mp hm₁)).2 rfl
      obtain ⟨D', c', recent', hruns', hc', hempty, htrace', hall⟩ := ih _ hlt hc₁ h₁ rfl
      refine ⟨D', c', recent' ++ recent₁, hruns₁.trans hruns', hc', hempty, ?_, ?_⟩
      · rw [htrace', htrace₁, List.append_assoc]
      intro m' hm' envelope hcarries
      by_cases heq : m'.streamSequence = m.streamSequence
      · obtain rfl := (hready.ordered agent c hc).unique m' (hmessages ▸ hm') m hm heq
        obtain ⟨t, d, hag', hd, hanswered⟩ := hanswers envelope hcarries
        exact ⟨t, d, hag', hd, by simpa using hanswered.append recent' []⟩
      · obtain ⟨t, d, hag', hd, hanswered⟩ :=
          hall m' ((hiff m').mpr ⟨hmessages ▸ hm', heq⟩) envelope hcarries
        exact ⟨t, d, hag', hd, by simpa using hanswered.append [] recent₁⟩

end Daemon

/-- The first message is pulled twice.  The handler of one copy is running, and the dispatch of the
other one waits for its permit. -/
def Sample.redeliverWhileRunning : List DaemonAction :=
  pullFirst ++ pullNext (.again 1) ++ dispatches 0 6 ++ dispatches 1 2

theorem Daemon.backlog_can_be_settled_redeliverWhileRunning :
    ∃ D D' c' recent, (streamSystem Sample.dispatcherConfig).Run (fun _ _ => True)
        (.start (Sample.registry Sample.config) .empty fun _ => none) D ∧
      (∀ c ∈ D.consumers Sample.agent, c.messages = [Sample.message]) ∧
      (daemonSystem Sample.dispatcherConfig).Run (fun _ a => a.Automatic) D D' ∧
      D'.consumers Sample.agent = some c' ∧ c'.messages = [] ∧
      D'.world.trace = recent ++ D.world.trace ∧
      ∃ t d, d.message = Sample.message ∧ AnsweredBy t d "e" recent := by
  obtain ⟨D, hrun, hend⟩ := exists_run_of_exec (streamSystem Sample.dispatcherConfig)
    (fun _ _ => True) (.start (Sample.registry Sample.config) .empty fun _ => none)
    (Sample.redeliverWhileRunning.map .act)
    (fun D => decide (D.registry.Enabled Sample.agent ∧ D.shutdown = none ∧
      D.loopInfo 0 = some (Sample.agent, false) ∧ (D.consumers Sample.agent).isSome = true ∧
      ∀ c ∈ D.consumers Sample.agent, c.messages = [Sample.message])) (by decide +kernel)
  obtain ⟨hen, hshutdown, hloop, hsome, hmessages⟩ := of_decide_eq_true hend
  obtain ⟨p, hp, hinfo⟩ := Option.map_eq_some_iff.mp hloop
  obtain ⟨hag, hlive⟩ := Prod.mk.inj hinfo
  obtain ⟨c, hc⟩ := Option.isSome_iff_exists.mp hsome
  have hlock : D.Unlocked := by simp [Unlocked, hshutdown]
  have hcarries : ((Sample.delivery "e").envelope? Sample.dispatcherConfig).any
      (fun envelope => envelope.eventId == "e") = true := by decide +kernel
  obtain ⟨envelope, henvelope, hevent⟩ := (Option.any_eq_true _ _).mp hcarries
  obtain ⟨D', c', recent, hruns, hc', hempty, htrace, hall⟩ :=
    Daemon.backlog_can_be_settled (fun agent c hc => by cases hc) hrun hen hp hag hlive hlock hc
  obtain ⟨t, d, -, hd, hanswered⟩ := hall Sample.message (by simp [hmessages c hc]) envelope
    ⟨Sample.delivery "e", rfl, rfl, Delivery.carries_iff.mpr henvelope⟩
  rw [beq_iff_eq.mp hevent] at hanswered
  exact ⟨D, D', c', recent, hrun, hmessages, hruns, hc', hempty, htrace, t, d, hd, hanswered⟩

end Agentd
