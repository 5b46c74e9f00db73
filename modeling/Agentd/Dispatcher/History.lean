import Agentd.Dispatcher.Steps

/-!
# What a history of the dispatcher shows

No event is acknowledged unrun.  An ack comes from one of two places: after the handler ran, or
after a lookup that found the event completed.  The second one leads back to a row of the store,
which may have been written by another process of the daemon; so the rows are tied to the history,
which survives crashes, and not to the tasks, which do not.

`Witnessed` is the invariant.  It holds on every run from an empty store, with failing lookups and
marks, purges, registry changes and crashes.

The last section is about terms: a delivery that carries an event of its agent is terminated only
after a failed spawn or after a registration check that found the agent missing or disabled.
-/

namespace Agentd

open TransitionSystem TaskPool History

variable {C : DispatcherConfig} {w w' : World} {D' : Dispatcher} {t : ℕ} {d : Delivery}
  {o : Outcome} {s s' : Stage} {effects : List Effect} {k : EventKey}
  {past : List Emission}

/-- The event whose handler the emission says has exited. -/
def Emission.exited (em : Emission) : Option EventKey :=
  match em.effect with
  | .exited event _ => some (em.delivery.agent, event)
  | _ => none

/-- The event whose completion the emission says was recorded. -/
def Emission.recorded (em : Emission) : Option EventKey :=
  match em.effect with
  | .marked event true => some (em.delivery.agent, event)
  | _ => none

/-- The event the emission acknowledges. -/
def Emission.acked (em : Emission) : Option EventKey :=
  match em.effect with
  | .acked event => some (em.delivery.agent, event)
  | _ => none

/-- A handler for the event was started. -/
def Started (k : EventKey) (past : List Emission) : Prop := ∃ em ∈ past, em.started = some k

/-- The dispatch `t` of the delivery `d` started a handler for the event. -/
def StartedBy (t : ℕ) (d : Delivery) (k : EventKey) (past : List Emission) : Prop :=
  ∃ em ∈ past, em.task = t ∧ em.delivery = d ∧ em.started = some k

/-- The dispatch `t` of the delivery `d` started a handler for the event, and the handler exited
later. -/
def RanBy (t : ℕ) (d : Delivery) (k : EventKey) (past : List Emission) : Prop :=
  ∃ exit start, List.Sublist [exit, start] past ∧ exit.task = t ∧ exit.delivery = d ∧
    exit.exited = some k ∧ start.task = t ∧ start.delivery = d ∧ start.started = some k

theorem Started.append (h : Started k past) (newer : List Emission) :
    Started k (newer ++ past) := by
  obtain ⟨em, hem, hk⟩ := h
  exact ⟨em, List.mem_append_right _ hem, hk⟩

theorem StartedBy.append (h : StartedBy t d k past) (newer : List Emission) :
    StartedBy t d k (newer ++ past) := by
  obtain ⟨em, hem, hk⟩ := h
  exact ⟨em, List.mem_append_right _ hem, hk⟩

theorem RanBy.append (h : RanBy t d k past) (newer : List Emission) :
    RanBy t d k (newer ++ past) := by
  obtain ⟨exit, start, hsub, hk⟩ := h
  exact ⟨exit, start, hsub.trans (List.sublist_append_right _ _), hk⟩

/-- A handler that ran was started. -/
theorem RanBy.started (h : RanBy t d k past) : Started k past := by
  obtain ⟨exit, start, hsub, -, -, -, -, -, hk⟩ := h
  exact ⟨start, hsub.subset (by simp), hk⟩

/-- What the past of an emission must contain: before a recorded completion the run of the
handler, before an ack some start of it. -/
def Justified (em : Emission) (past : List Emission) : Prop :=
  (∀ k, em.recorded = some k → RanBy em.task em.delivery k past) ∧
    ∀ k, em.acked = some k → Started k past

/-- What the history must contain for a dispatch of the event `k` in the given phase. -/
def Phase.Shows (t : ℕ) (d : Delivery) (k : EventKey) (past : List Emission) : Phase → Prop
  | .wait => StartedBy t d k past
  | .mark => RanBy t d k past
  | .hit | .remove | .ack => Started k past
  | _ => True

/-- What the history must contain for a dispatch. -/
def Task.Shows (t : ℕ) (past : List Emission) (task : Task) : Prop :=
  match task.stage with
  | .slot job _ phase =>
    phase.Shows t task.delivery (task.delivery.agent, job.envelope.eventId) past
  | _ => True

/-- What a dispatch shows stays shown. -/
theorem Task.Shows.append {task : Task} (h : task.Shows t past) (newer : List Emission) :
    task.Shows t (newer ++ past) := by
  obtain ⟨d, s⟩ := task
  cases s with
  | slot job permits phase =>
    cases phase with
    | wait => exact StartedBy.append h newer
    | mark => exact RanBy.append h newer
    | hit | remove | ack => exact Started.append h newer
    | _ => trivial
  | _ => trivial

/-- The rows of the store, the acks of the history and the dispatches under way are all backed by
handlers that were started. -/
structure Witnessed (w : World) : Prop where
  /-- A row of the store was recorded. -/
  rows : ∀ k : EventKey, w.dispatcher.dedup.isCompleted k.1 k.2 = true →
    ∃ em ∈ w.trace, em.recorded = some k
  /-- Every emission is justified by its past. -/
  every : Every Justified w.trace
  /-- Every dispatch under way is backed by the history. -/
  shown : ∀ (t : ℕ) (task : Task), w.tasks[t]? = some task → task.Shows t w.trace

namespace Witnessed

theorem start (registry : Registry) : Witnessed (.start registry .empty) where
  rows k hk := by simp [World.start] at hk
  every := trivial
  shown t task ht := by simp [World.start] at ht

/-- An event with a row was started. -/
theorem started_of_row (h : Witnessed w)
    (hrow : w.dispatcher.dedup.isCompleted k.1 k.2 = true) : Started k w.trace := by
  obtain ⟨em, hem, hk⟩ := h.rows k hrow
  obtain ⟨past, ⟨newer, hpast⟩, hjust⟩ := h.every.of_mem hem
  rw [← hpast]
  exact (hjust.1 k hk).started.append newer

/-- An access keeps the invariant when its emissions are justified, new rows are recorded, and its
dispatch is backed by the history. -/
theorem commit (h : Witnessed w) {newer : List Emission}
    (hnewer : newer = effects.map fun effect => ⟨t, d, effect⟩)
    (hrows : ∀ k : EventKey, D'.dedup.isCompleted k.1 k.2 = true →
      w.dispatcher.dedup.isCompleted k.1 k.2 = true ∨ ∃ em ∈ newer, em.recorded = some k)
    (hevery : Every Justified (newer ++ w.trace))
    (hshown : (⟨d, s'⟩ : Task).Shows t (newer ++ w.trace)) :
    Witnessed (w.commit t ⟨d, s⟩ D' s' effects) := by
  subst hnewer
  refine ⟨fun k hk => ?_, hevery, fun i task hi => ?_⟩
  · rcases hrows k hk with hold | ⟨em, hem, hk⟩
    · obtain ⟨em, hem, hk⟩ := h.rows k hold
      exact ⟨em, List.mem_append_right _ hem, hk⟩
    · exact ⟨em, List.mem_append_left _ hem, hk⟩
  · rcases getElem?_set_cases hi with ⟨rfl, rfl⟩ | ⟨-, hi⟩
    · exact hshown
    · exact (h.shown i task hi).append _

/-- An access of a dispatch keeps the invariant. -/
theorem poll (h : Witnessed w) (htask : w.tasks[t]? = some ⟨d, s⟩)
    (hpoll : Polls C w.dispatcher d o s D' s' effects) :
    Witnessed (w.commit t ⟨d, s⟩ D' s' effects) := by
  have hshown := h.shown t _ htask
  have hkeep : ∀ k : EventKey, D'.dedup = w.dispatcher.dedup →
      D'.dedup.isCompleted k.1 k.2 = true → w.dispatcher.dedup.isCompleted k.1 k.2 = true ∨
        ∃ em ∈ effects.map fun effect => (⟨t, d, effect⟩ : Emission), em.recorded = some k :=
    fun k heq hk => .inl (heq ▸ hk)
  cases hpoll with
  | reject hrej =>
    refine h.commit rfl (fun k => hkeep k rfl) ⟨?_, h.every⟩ trivial
    cases hrej <;> exact ⟨nofun, nofun⟩
  | @hit job permits hrow =>
    have hstarted : Started (d.agent, job.envelope.eventId) w.trace := h.started_of_row hrow
    exact h.commit rfl (fun k => hkeep k rfl) ⟨⟨nofun, nofun⟩, h.every⟩ (hstarted.append _)
  | ackHit =>
    refine h.commit rfl (fun k => hkeep k rfl) ⟨⟨nofun, fun k hk => ?_⟩, h.every⟩ trivial
    obtain rfl := Option.some_inj.mp hk
    exact hshown
  | spawn hok =>
    refine h.commit rfl (fun k => hkeep k rfl) ⟨⟨nofun, nofun⟩, h.every⟩ ?_
    exact ⟨_, List.mem_cons_self, rfl, rfl, rfl⟩
  | exit =>
    refine h.commit rfl (fun k => hkeep k rfl) ⟨⟨nofun, nofun⟩, h.every⟩ ?_
    obtain ⟨em, hem, htask', hd, hk⟩ := hshown
    exact ⟨_, em, (List.singleton_sublist.mpr hem).cons_cons _, rfl, rfl, rfl, htask', hd, hk⟩
  | @mark job permits hok =>
    have hran : RanBy t d (d.agent, job.envelope.eventId) w.trace := hshown
    refine h.commit rfl (fun k hk => ?_) ⟨⟨fun k hk => ?_, nofun⟩, h.every⟩
      (hran.started.append _)
    · rw [DedupStore.isCompleted_markCompleted, Bool.or_eq_true, decide_eq_true_eq] at hk
      refine hk.imp_right fun heq => ?_
      exact ⟨_, List.mem_cons_self, congrArg some heq⟩
    · obtain rfl := Option.some_inj.mp hk
      exact hran
  | @markFail job permits hfail =>
    have hran : RanBy t d (d.agent, job.envelope.eventId) w.trace := hshown
    exact h.commit rfl (fun k => hkeep k rfl) ⟨⟨nofun, nofun⟩, h.every⟩ (hran.started.append _)
  | remove => exact h.commit rfl (fun k => hkeep k (by simp)) h.every hshown
  | ack =>
    refine h.commit rfl (fun k => hkeep k rfl) ⟨⟨nofun, fun k hk => ?_⟩, h.every⟩ trivial
    obtain rfl := Option.some_inj.mp hk
    exact hshown
  | ensure => exact h.commit rfl (fun k => hkeep k (by simp)) h.every trivial
  | abort => exact h.commit rfl (fun k => hkeep k (by simp)) h.every trivial
  | configure | acquire | miss | enter | release =>
    exact h.commit rfl (fun k => hkeep k rfl) h.every trivial
  | termRejected | drop | spawnFail | term =>
    exact h.commit rfl (fun k => hkeep k rfl) ⟨⟨nofun, nofun⟩, h.every⟩ trivial

/-- Every step keeps the invariant. -/
theorem step (h : Witnessed w) {a : Action} (hstep : (dispatchSystem C).step w a = some w') :
    Witnessed w' := by
  cases a with
  | poll t o =>
    obtain ⟨d, s, D', s', effects, htask, hpoll, rfl⟩ := World.step_poll hstep
    exact h.poll htask hpoll
  | pollCall c =>
    obtain ⟨agent, s, D', s', -, hpoll, rfl⟩ := World.step_pollCall hstep
    have hdedup : D'.dedup = w.dispatcher.dedup := hpoll.dedup_eq
    exact ⟨fun k hk => h.rows k (hdedup ▸ hk), h.every, h.shown⟩
  | deliver d =>
    cases hstep
    refine ⟨h.rows, h.every, fun i task hi => ?_⟩
    rcases getElem?_append_cases hi with ⟨-, rfl⟩ | hi
    · trivial
    · exact h.shown i task hi
  | purge now ttl =>
    cases hstep
    exact ⟨fun k hk => h.rows k (DedupStore.isCompleted_of_purgeExpired hk), h.every, h.shown⟩
  | restart registry now ttl =>
    cases hstep
    refine ⟨fun k hk => h.rows k (DedupStore.isCompleted_of_purgeExpired hk), h.every, ?_⟩
    intro i task hi
    simp at hi
  | _ =>
    cases hstep
    exact ⟨h.rows, h.every, h.shown⟩

end Witnessed

/-- On every run from an empty store, whatever fails and however often the daemon crashes: an
acknowledged event was started before; a row of the store was recorded; and before any record of
completion its dispatch started the handler and saw it exit. -/
theorem acked_and_recorded_were_run {registry : Registry}
    (hrun : (dispatchSystem C).Run (fun _ _ => True) (.start registry .empty) w) :
    (∀ em past k, em :: past <:+ w.trace → em.acked = some k → Started k past) ∧
    (∀ k : EventKey, w.dispatcher.dedup.isCompleted k.1 k.2 = true →
      ∃ em ∈ w.trace, em.recorded = some k) ∧
    (∀ em past k, em :: past <:+ w.trace → em.recorded = some k →
      RanBy em.task em.delivery k past) := by
  have h : Witnessed w :=
    hrun.invariant (Witnessed.start registry) fun _ _ _ h _ hstep => h.step hstep
  refine ⟨?_, h.rows, ?_⟩
  · intro em past k hsuffix hack
    exact (h.every.of_suffix hsuffix).2 k hack
  · intro em past k hsuffix hrec
    exact (h.every.of_suffix hsuffix).1 k hrec

/-- The daemon crashes between the mark and the ack, and the redelivered event is acknowledged by
the next process. -/
def Sample.crashBeforeAck : List Action :=
  [.deliver (delivery "e")] ++ polls 0 8 ++ [.restart (registry config) 0 0,
    .deliver (delivery "e" 1 2)] ++ polls 0 5

theorem acked_and_recorded_were_run_crashBeforeAck :
    ∃ w, (dispatchSystem Sample.dispatcherConfig).Run (fun _ _ => True)
        (.start (Sample.registry Sample.config) .empty) w ∧
      w.trace.any (fun em => em.acked == some (Sample.agent, "e")) = true ∧
      ∀ em past k, em :: past <:+ w.trace → em.acked = some k → Started k past := by
  obtain ⟨w, hrun, hw⟩ := exists_run_of_exec (dispatchSystem Sample.dispatcherConfig)
    (fun _ _ => True) (.start (Sample.registry Sample.config) .empty) Sample.crashBeforeAck
    (fun w => w.trace.any fun em => em.acked == some (Sample.agent, "e")) (by decide +kernel)
  exact ⟨w, hrun, hw, (acked_and_recorded_were_run hrun).1⟩

/-! ## Terms -/

/-- The dispatch `t` of the delivery `d` failed to spawn its handler, or found the agent missing or
disabled. -/
def TurnedAway (t : ℕ) (d : Delivery) (past : List Emission) : Prop :=
  ∃ em ∈ past, em.task = t ∧ em.delivery = d ∧
    ((∃ event, em.effect = .spawnFailed event) ∨ em.effect = .unregistered ∨
      em.effect = .disabled)

theorem TurnedAway.append (h : TurnedAway t d past) (newer : List Emission) :
    TurnedAway t d (newer ++ past) := by
  obtain ⟨em, hem, hk⟩ := h
  exact ⟨em, List.mem_append_right _ hem, hk⟩

/-- A term of a delivery that carries an event comes after its dispatch was turned away. -/
def TermExplained (C : DispatcherConfig) (em : Emission) (past : List Emission) : Prop :=
  ∀ envelope, em.effect = .termed → em.delivery.Carries C envelope →
    TurnedAway em.task em.delivery past

/-- The stages on the way to a term. -/
def Stage.terminating : Stage → Bool
  | .rejected | .slot _ _ .abort | .slot _ _ .term => true
  | _ => false

/-- Terms, and dispatches on the way to one, were turned away if they carry an event. -/
structure TermsExplained (C : DispatcherConfig) (w : World) : Prop where
  /-- The terms of the history. -/
  every : Every (TermExplained C) w.trace
  /-- The terms to come. -/
  coming : ∀ (t : ℕ) (d : Delivery) (s : Stage), w.tasks[t]? = some ⟨d, s⟩ →
    s.terminating = true → ∀ envelope, d.Carries C envelope → TurnedAway t d w.trace

namespace TermsExplained

theorem start (registry : Registry) (dedup : DedupStore) :
    TermsExplained C (.start registry dedup) where
  every := trivial
  coming t d s ht := by simp [World.start] at ht

/-- An access keeps the invariant when the terms it emits are explained, and the term it leads to
is. -/
theorem commit (h : TermsExplained C w) (htask : w.tasks[t]? = some ⟨d, s⟩)
    {newer : List Emission} (hnewer : newer = effects.map fun effect => ⟨t, d, effect⟩)
    (hevery : Every (TermExplained C) (newer ++ w.trace))
    (hcoming : s'.terminating = true → s.terminating = true ∨
      ∀ envelope, d.Carries C envelope → TurnedAway t d (newer ++ w.trace)) :
    TermsExplained C (w.commit t ⟨d, s⟩ D' s' effects) := by
  subst hnewer
  refine ⟨hevery, fun i d' s'' hi hterm envelope hd => ?_⟩
  rcases getElem?_set_cases hi with ⟨rfl, heq⟩ | ⟨-, hi⟩
  · cases heq
    rcases hcoming hterm with hbefore | hnow
    · exact (h.coming _ d s htask hbefore envelope hd).append _
    · exact hnow envelope hd
  · exact (h.coming i d' s'' hi hterm envelope hd).append _

/-- An access of a dispatch keeps the invariant. -/
theorem poll (h : TermsExplained C w) (htask : w.tasks[t]? = some ⟨d, s⟩)
    (hpoll : Polls C w.dispatcher d o s D' s' effects) :
    TermsExplained C (w.commit t ⟨d, s⟩ D' s' effects) := by
  cases hpoll with
  | reject hrej =>
    cases hrej with
    | invalid hno =>
      refine h.commit htask rfl ⟨nofun, h.every⟩ fun _ => .inr fun envelope hd => ?_
      exact absurd hd (hno envelope)
    | unregistered =>
      refine h.commit htask rfl ⟨nofun, h.every⟩ fun _ => .inr fun envelope hd => ?_
      exact ⟨_, List.mem_cons_self, rfl, rfl, .inr (.inl rfl)⟩
    | disabled =>
      refine h.commit htask rfl ⟨nofun, h.every⟩ fun _ => .inr fun envelope hd => ?_
      exact ⟨_, List.mem_cons_self, rfl, rfl, .inr (.inr rfl)⟩
  | termRejected =>
    refine h.commit htask rfl ⟨fun envelope _ hd => ?_, h.every⟩ nofun
    exact h.coming t d _ htask rfl envelope hd
  | spawnFail =>
    refine h.commit htask rfl ⟨nofun, h.every⟩ fun _ => .inr fun envelope hd => ?_
    exact ⟨_, List.mem_cons_self, rfl, rfl, .inl ⟨_, rfl⟩⟩
  | abort => exact h.commit htask rfl h.every fun _ => .inl rfl
  | term =>
    refine h.commit htask rfl ⟨fun envelope _ hd => ?_, h.every⟩ nofun
    exact h.coming t d _ htask rfl envelope hd
  | configure | ensure | acquire | miss | enter | remove | release =>
    exact h.commit htask rfl h.every nofun
  | hit | ackHit | drop | spawn | exit | mark | markFail | ack =>
    exact h.commit htask rfl ⟨nofun, h.every⟩ nofun

/-- Every step keeps the invariant. -/
theorem step (h : TermsExplained C w) {a : Action}
    (hstep : (dispatchSystem C).step w a = some w') : TermsExplained C w' := by
  cases a with
  | poll t o =>
    obtain ⟨d, s, D', s', effects, htask, hpoll, rfl⟩ := World.step_poll hstep
    exact h.poll htask hpoll
  | pollCall c =>
    obtain ⟨agent, s, D', s', -, -, rfl⟩ := World.step_pollCall hstep
    exact ⟨h.every, h.coming⟩
  | deliver d =>
    cases hstep
    refine ⟨h.every, fun i d' s hi hterm => ?_⟩
    rcases getElem?_append_cases hi with ⟨-, heq⟩ | hi
    · cases heq
      cases hterm
    · exact h.coming i d' s hi hterm
  | restart registry now ttl =>
    cases hstep
    refine ⟨h.every, fun i d' s hi => ?_⟩
    simp at hi
  | _ =>
    cases hstep
    exact ⟨h.every, h.coming⟩

end TermsExplained

/-- The lines about a missing or a disabled agent tell the state of the registry at that moment. -/
theorem World.registry_of_emitted {a : Action} {em : Emission}
    (hstep : (dispatchSystem C).step w a = some w') (htrace : w'.trace = em :: w.trace) :
    (em.effect = .unregistered → w.dispatcher.registry.get em.delivery.agent = none) ∧
    (em.effect = .disabled → ∃ config,
      w.dispatcher.registry.get em.delivery.agent = some config ∧ config.enabled = false) := by
  have hne : w'.trace ≠ w.trace := by
    rw [htrace]
    exact List.cons_ne_self _ _
  cases a with
  | poll t o =>
    obtain ⟨d, s, D', s', effects, htask, hpoll, rfl⟩ := World.step_poll hstep
    cases hpoll with
    | reject hrej =>
      obtain ⟨rfl, -⟩ := List.cons.inj htrace
      cases hrej with
      | invalid => exact ⟨nofun, nofun⟩
      | unregistered hd hget => exact ⟨fun _ => hget, nofun⟩
      | disabled hd hget hdis => exact ⟨nofun, fun _ => ⟨_, hget, hdis⟩⟩
    | termRejected | hit | ackHit | drop | spawn | spawnFail | exit | mark | markFail | ack
    | term =>
      obtain ⟨rfl, -⟩ := List.cons.inj htrace
      exact ⟨nofun, nofun⟩
    | _ => exact absurd rfl hne
  | pollCall c =>
    obtain ⟨agent', s, D', s', -, hpoll, rfl⟩ := World.step_pollCall hstep
    exact absurd rfl hne
  | _ =>
    cases hstep
    exact absurd rfl hne

end Agentd
