import Agentd.Dispatcher.History

/-!
# What an emission says about its delivery

An emission carries the delivery of its dispatch.  Whatever it says about an event is said about the
event which that delivery carries, and a handler is spawned with the bytes of that delivery
(`Genuine`).  An event is acknowledged only after a handler for it was started and has exited, in
this process or in one before it (`RanFirst`); here the rows of the store carry the argument over a
crash, as in `Witnessed`.
-/

namespace Agentd

open TransitionSystem TaskPool History

variable {C : DispatcherConfig} {w w' : World} {D' : Dispatcher} {t : ℕ} {d : Delivery}
  {o : Outcome} {s s' : Stage} {effects : List Effect} {k : EventKey} {past : List Emission}

/-- A step is an access of a dispatch, or it emits nothing and the only dispatches it makes have
done nothing yet. -/
theorem World.step_cases {a : Action} (hstep : (dispatchSystem C).step w a = some w') :
    (∃ t o d s D' s' effects, a = .poll t o ∧ w.tasks[t]? = some ⟨d, s⟩ ∧
      Polls C w.dispatcher d o s D' s' effects ∧ w' = w.commit t ⟨d, s⟩ D' s' effects) ∨
    (w'.trace = w.trace ∧ ∀ (i : ℕ) (task : Task), w'.tasks[i]? = some task →
      w.tasks[i]? = some task ∨ task.stage = .received) := by
  cases a with
  | poll t o =>
    obtain ⟨d, s, D', s', effects, htask, hpoll, rfl⟩ := World.step_poll hstep
    exact .inl ⟨t, o, d, s, D', s', effects, rfl, htask, hpoll, rfl⟩
  | pollCall c =>
    obtain ⟨agent, s, D', s', -, -, rfl⟩ := World.step_pollCall hstep
    exact .inr ⟨rfl, fun i task hi => .inl hi⟩
  | deliver d =>
    obtain rfl := Option.some_inj.mp hstep
    refine .inr ⟨rfl, fun i task hi => ?_⟩
    rcases getElem?_append_cases hi with ⟨-, rfl⟩ | hi
    · exact .inr rfl
    · exact .inl hi
  | restart registry now ttl =>
    obtain rfl := Option.some_inj.mp hstep
    exact .inr ⟨rfl, fun i task hi => by simp at hi⟩
  | call | setRegistry | applyChanges | purge =>
    obtain rfl := Option.some_inj.mp hstep
    exact .inr ⟨rfl, fun i task hi => .inl hi⟩

/-! ## Emissions are about the event of their delivery -/

/-- The event that the effect is about, if it names one. -/
def Effect.event? : Effect → Option String
  | .dedupHit event | .duplicateDropped event | .spawned event _ | .spawnFailed event
  | .exited event _ | .marked event _ | .acked event => some event
  | .invalidEvent _ | .unregistered | .disabled | .termed => none

/-- The emission is about the event that its delivery carries, and a handler gets the bytes of the
delivery. -/
structure Genuine (C : DispatcherConfig) (em : Emission) : Prop where
  event : ∀ event, em.effect.event? = some event →
    ∃ envelope, em.delivery.Carries C envelope ∧ envelope.eventId = event
  command : ∀ event command, em.effect = .spawned event command → ∃ envelope config,
    em.delivery.Carries C envelope ∧ command = .forEvent config envelope em.delivery

/-- What the dispatch has read, once it passed the gates. -/
def Stage.job? : Stage → Option Job
  | .configured job | .waiting job _ | .slot job _ _ => some job
  | _ => none

/-- The emissions are genuine, and every dispatch under way is about the event of its delivery. -/
structure World.Genuine (C : DispatcherConfig) (w : World) : Prop where
  trace : ∀ em ∈ w.trace, Agentd.Genuine C em
  tasks : ∀ task ∈ w.tasks, ∀ job, task.stage.job? = some job →
    task.delivery.Carries C job.envelope

/-- An access of a dispatch is about the event of its delivery, and so is what it emits. -/
theorem Polls.genuine {D : Dispatcher} (hpoll : Polls C D d o s D' s' effects)
    (hs : ∀ job, s.job? = some job → d.Carries C job.envelope) :
    (∀ effect ∈ effects, Genuine C ⟨t, d, effect⟩) ∧
      ∀ job, s'.job? = some job → d.Carries C job.envelope := by
  have hnone : ∀ effect : Effect, effect.event? = none → Genuine C ⟨t, d, effect⟩ := by
    intro effect hevent
    refine ⟨fun event heq => ?_, fun event command heq => ?_⟩
    · rw [hevent] at heq
      cases heq
    · obtain rfl : effect = .spawned event command := heq
      cases hevent
  have habout : ∀ (effect : Effect) (job : Job), s.job? = some job →
      effect.event? = some job.envelope.eventId →
      (∀ event command, effect ≠ .spawned event command) →
        Genuine C ⟨t, d, effect⟩ := by
    intro effect job hjob hevent hnot
    refine ⟨fun event heq => ?_, fun event command heq => absurd heq (hnot event command)⟩
    exact ⟨job.envelope, hs job hjob, Option.some_inj.mp (hevent.symm.trans heq)⟩
  cases hpoll with
  | reject h =>
    refine ⟨fun effect heffect => ?_, nofun⟩
    obtain rfl := List.mem_singleton.mp heffect
    refine hnone _ ?_
    obtain _ | _ | _ := h <;> rfl
  | configure hd =>
    refine ⟨nofun, fun job hjob => ?_⟩
    obtain rfl := Option.some_inj.mp hjob
    exact hd
  | ensure | acquire | miss | enter | remove | abort => exact ⟨nofun, hs⟩
  | release => exact ⟨nofun, nofun⟩
  | termRejected =>
    refine ⟨fun effect heffect => ?_, nofun⟩
    obtain rfl := List.mem_singleton.mp heffect
    exact hnone _ rfl
  | term =>
    refine ⟨fun effect heffect => ?_, hs⟩
    obtain rfl := List.mem_singleton.mp heffect
    exact hnone _ rfl
  | @spawn job =>
    refine ⟨fun effect heffect => ?_, hs⟩
    obtain rfl := List.mem_singleton.mp heffect
    refine ⟨fun event heq => ⟨job.envelope, hs job rfl, Option.some_inj.mp heq⟩, ?_⟩
    intro event command heq
    exact ⟨job.envelope, job.config, hs job rfl, (Effect.spawned.inj heq).2.symm⟩
  | @hit job | @ackHit job | @drop job | @spawnFail job | @exit job | @mark job | @markFail job
  | @ack job =>
    refine ⟨fun effect heffect => ?_, hs⟩
    obtain rfl := List.mem_singleton.mp heffect
    exact habout _ job rfl rfl nofun

namespace World.Genuine

theorem start (registry : Registry) (dedup : DedupStore) :
    (World.start registry dedup).Genuine C where
  trace em hem := by cases hem
  tasks task ht := by cases ht

/-- Every step emits only what is genuine. -/
theorem step (h : w.Genuine C) {a : Action} (hstep : (dispatchSystem C).step w a = some w') :
    w'.Genuine C := by
  rcases World.step_cases hstep with ⟨t, o, d, s, D', s', effects, -, htask, hpoll, rfl⟩ |
    ⟨htrace, htasks⟩
  · have hs := h.tasks _ (List.mem_of_getElem? htask)
    obtain ⟨heffects, hs'⟩ := hpoll.genuine (t := t) hs
    refine ⟨fun em hem => ?_, fun task ht => ?_⟩
    · rcases List.mem_append.mp hem with hem | hem
      · obtain ⟨effect, heffect, rfl⟩ := List.mem_map.mp hem
        exact heffects effect heffect
      · exact h.trace em hem
    · rcases List.mem_or_eq_of_mem_set ht with ht | rfl
      · exact h.tasks task ht
      · exact hs'
  · refine ⟨htrace ▸ h.trace, fun task ht => ?_⟩
    obtain ⟨i, hi⟩ := List.mem_iff_getElem?.mp ht
    rcases htasks i task hi with hi | hnew
    · exact h.tasks task (List.mem_of_getElem? hi)
    · simp [hnew, Stage.job?]

end World.Genuine

/-! ## What is acknowledged has run -/

/-- A handler for the event was started, and a handler for it has exited later. -/
def Ran (k : EventKey) (past : List Emission) : Prop :=
  ∃ exit start, List.Sublist [exit, start] past ∧ exit.exited = some k ∧ start.started = some k

theorem Ran.append (h : Ran k past) (newer : List Emission) : Ran k (newer ++ past) := by
  obtain ⟨exit, start, hsub, hk⟩ := h
  exact ⟨exit, start, hsub.trans (List.sublist_append_right _ _), hk⟩

theorem RanBy.ran (h : RanBy t d k past) : Ran k past := by
  obtain ⟨exit, start, hsub, -, -, hexit, -, -, hstart⟩ := h
  exact ⟨exit, start, hsub, hexit, hstart⟩

/-- The phases of a dispatch that is on its way to an ack. -/
def Phase.acknowledging : Phase → Bool
  | .hit | .remove | .ack => true
  | _ => false

/-- The events acknowledged, and those about to be, ran before. -/
structure RanFirst (w : World) : Prop where
  every : Every (fun em past => ∀ k, em.acked = some k → Ran k past) w.trace
  coming : ∀ task ∈ w.tasks, ∀ k, task.keyIn Phase.acknowledging = some k → Ran k w.trace

/-- An event with a row ran. -/
theorem Witnessed.ran_of_row (h : Witnessed w)
    (hrow : w.dispatcher.dedup.isCompleted k.1 k.2 = true) : Ran k w.trace := by
  obtain ⟨em, hem, hk⟩ := h.rows k hrow
  obtain ⟨past, ⟨newer, hpast⟩, hjust⟩ := h.every.of_mem hem
  rw [← hpast]
  exact (hjust.1 k hk).ran.append newer

namespace RanFirst

theorem start (registry : Registry) (dedup : DedupStore) : RanFirst (.start registry dedup) where
  every := trivial
  coming task ht := by cases ht

/-- An access keeps the invariant when it acknowledges only what ran, and goes on to an ack only of
what ran. -/
theorem commit (h : RanFirst w)
    (hacked : ∀ effect ∈ effects, ∀ k, Emission.acked ⟨t, d, effect⟩ = some k → Ran k w.trace)
    (hcoming : ∀ k, (⟨d, s'⟩ : Task).keyIn Phase.acknowledging = some k → Ran k w.trace) :
    RanFirst (w.commit t ⟨d, s⟩ D' s' effects) := by
  refine ⟨?_, fun task ht k hk => ?_⟩
  · change Every _ (effects.map (fun effect => ⟨t, d, effect⟩) ++ w.trace)
    induction effects with
    | nil => exact h.every
    | cons effect effects ih =>
      refine ⟨fun k hk => ?_, ih fun effect' h' => hacked effect' (List.mem_cons_of_mem _ h')⟩
      exact (hacked effect List.mem_cons_self k hk).append _
  · rcases List.mem_or_eq_of_mem_set ht with ht | rfl
    · exact (h.coming task ht k hk).append _
    · exact (hcoming k hk).append _

/-- An access of a dispatch keeps the invariant. -/
theorem poll (h : RanFirst w) (hw : Witnessed w) (htask : w.tasks[t]? = some ⟨d, s⟩)
    (hpoll : Polls C w.dispatcher d o s D' s' effects) :
    RanFirst (w.commit t ⟨d, s⟩ D' s' effects) := by
  have hcoming := h.coming _ (List.mem_of_getElem? htask)
  have hquiet : ∀ {effect : Effect}, (∀ event, effect ≠ .acked event) →
      ∀ e ∈ [effect], ∀ k, Emission.acked ⟨t, d, e⟩ = some k → Ran k w.trace := by
    intro effect hnot e he k hk
    obtain rfl := List.mem_singleton.mp he
    unfold Emission.acked at hk
    split at hk
    · rename_i event heq
      exact absurd heq (hnot event)
    · cases hk
  have hack : ∀ {job : Job} {permits : ℕ} {phase : Phase}, phase.acknowledging = true →
      s = .slot job permits phase → ∀ e ∈ [Effect.acked job.envelope.eventId],
        ∀ k, Emission.acked ⟨t, d, e⟩ = some k → Ran k w.trace := by
    intro job permits phase hphase hs e he k hk
    obtain rfl := List.mem_singleton.mp he
    subst hs
    refine hcoming k ?_
    simp only [Task.keyIn, hphase, if_true]
    exact hk
  have hnone : ∀ k : EventKey, none = some k → Ran k w.trace :=
    fun k hk => absurd hk (Option.some_ne_none k).symm
  cases hpoll with
  | reject hrej =>
    refine h.commit (hquiet fun _ heq => ?_) hnone
    cases hrej <;> cases heq
  | termRejected | drop | spawn | spawnFail | exit | term =>
    exact h.commit (hquiet fun _ heq => by cases heq) hnone
  | hit hrow =>
    refine h.commit (hquiet fun _ heq => by cases heq) fun k hk => ?_
    obtain rfl := Option.some_inj.mp hk
    exact hw.ran_of_row hrow
  | mark | markFail =>
    refine h.commit (hquiet fun _ heq => by cases heq) fun k hk => ?_
    obtain rfl := Option.some_inj.mp hk
    have hran : RanBy t d _ w.trace := hw.shown t _ htask
    exact hran.ran
  | ackHit => exact h.commit (hack rfl rfl) hnone
  | ack => exact h.commit (hack rfl rfl) hnone
  | remove => exact h.commit (List.forall_mem_nil _) hcoming
  | configure | ensure | acquire | miss | enter | abort | release =>
    exact h.commit (List.forall_mem_nil _) hnone

/-- Every step keeps the invariant. -/
theorem step (h : RanFirst w) (hw : Witnessed w) {a : Action}
    (hstep : (dispatchSystem C).step w a = some w') : RanFirst w' := by
  rcases World.step_cases hstep with ⟨t, o, d, s, D', s', effects, -, htask, hpoll, rfl⟩ |
    ⟨htrace, htasks⟩
  · exact h.poll hw htask hpoll
  · refine ⟨htrace ▸ h.every, fun task ht k hk => ?_⟩
    rw [htrace]
    obtain ⟨i, hi⟩ := List.mem_iff_getElem?.mp ht
    rcases htasks i task hi with hi | hnew
    · exact h.coming task (List.mem_of_getElem? hi) k hk
    · simp [Task.keyIn, hnew] at hk

end RanFirst

end Agentd
