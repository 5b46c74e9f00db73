import Agentd.Dispatcher.InFlight

/-!
# Every delivery is resolved once

What a dispatch does is logged as a list of `Deed`s: the questions it asks, with the answers that it
gets, and the calls it makes.  `Resolution` lists the logs of a dispatch that has returned.  The
answers are those of the dispatcher as it is at the moment of the access, whatever other calls,
changes of the registry and purges have made of it.  A deed that changes the shared state is logged
only if it did so: `Stage.deeds` reads the in-flight ids and the store before and after the access.
No access changes either of them without such a deed (`Polls.unchanged_or_logged`).

`Resolving` is the invariant: it says for each stage what the log of a dispatch at that stage is,
and every access keeps it (`Resolving.poll`).  A dispatch is blocked only while it waits for a
permit, and each of its accesses brings it closer to its end (`Polls.remaining_lt`). -/

namespace Agentd

open TransitionSystem TaskPool

/-- What a dispatch asks or calls. -/
inductive Deed where
  /-- The gates before the slot, and whether the delivery passes. -/
  | gate (passed : Bool)
  /-- The completed store, and its answer, which may be an error. -/
  | lookup (completed : Except Unit Bool)
  /-- The in-flight check, and whether the id was in flight. -/
  | check (present : Bool)
  /-- The id was added to the in-flight ids of the agent. -/
  | insert
  | spawn (ok : Bool)
  /-- The handler is gone, with the status logged. -/
  | exit (status : ℤ)
  /-- The mark attempt.  After one that is `ok` the event is completed. -/
  | mark (ok : Bool)
  /-- The id was taken out of the in-flight ids of the agent. -/
  | remove
  | ack
  | term
  deriving DecidableEq

/-- The logs of a dispatch that has returned. -/
inductive Resolution : List Deed → Prop
  /-- A gate rejected the delivery. -/
  | rejected : Resolution [.gate false, .term]
  /-- The event is completed. -/
  | completed : Resolution [.gate true, .lookup (.ok true), .ack]
  /-- The event is in flight. -/
  | dropped {answer : Except Unit Bool} (h : answer ≠ .ok true) :
      Resolution [.gate true, .lookup answer, .check true]
  /-- The handler could not be spawned. -/
  | unspawned {answer : Except Unit Bool} (h : answer ≠ .ok true) :
      Resolution [.gate true, .lookup answer, .check false, .insert, .spawn false, .remove, .term]
  /-- The handler ran. -/
  | handled {answer : Except Unit Bool} (h : answer ≠ .ok true) (status : ℤ) (marked : Bool) :
      Resolution [.gate true, .lookup answer, .check false, .insert, .spawn true, .exit status,
        .mark marked, .remove, .ack]

/-- The gates before the slot let the delivery pass: it carries an event for its agent, which is
registered and enabled. -/
def Dispatcher.passes (C : DispatcherConfig) (D : Dispatcher) (d : Delivery) : Bool :=
  match d.envelope? C, D.registry.get d.agent with
  | some _, some config => config.enabled
  | _, _ => false

/-- What an access of a dispatch that takes the dispatcher from `D` to `D'` has asked and called,
and the answer it got. -/
def Stage.deeds (C : DispatcherConfig) (D D' : Dispatcher) (d : Delivery) (o : Outcome) :
    Stage → List Deed
  | .received => [.gate (D.passes C d)]
  | .rejected => [.term]
  | .configured _ | .waiting .. | .finished => []
  | .slot job _ .lookup => [.lookup (D.isCompleted o d.agent job.envelope.eventId)]
  | .slot job _ .check =>
    if job.envelope.eventId ∈ D.inFlightIds d.agent then [.check true]
    else if D'.inFlightIds d.agent = insert job.envelope.eventId (D.inFlightIds d.agent) then
      [.check false, .insert]
    else [.check false]
  | .slot _ _ .spawn => [.spawn (!o.spawnFails)]
  | .slot _ _ .wait => [.exit (o.wait.elim (-1) exitStatusOf)]
  | .slot job _ .mark =>
    if o.markFails then [.mark false]
    else if D'.dedup.isCompleted d.agent job.envelope.eventId then [.mark true]
    else []
  | .slot job _ .remove | .slot job _ .abort =>
    if D'.inFlightIds d.agent = (D.inFlightIds d.agent).erase job.envelope.eventId then [.remove]
    else []
  | .slot _ _ .hit | .slot _ _ .ack => [.ack]
  | .slot _ _ .term => [.term]
  | .slot _ _ .release => []

/-- The entries of the log of the dispatch `t`. -/
def World.deeds (C : DispatcherConfig) (t : ℕ) (w : World) : Action → List Deed
  | .poll u o =>
    if u = t then
      (w.tasks[t]?).elim [] fun task => (w.step C (.poll u o)).elim [] fun w' =>
        task.stage.deeds C w.dispatcher w'.dispatcher task.delivery o
    else []
  | _ => []

/-- The deed that an effect shows. -/
def Effect.deed? : Effect → Option Deed
  | .spawned .. => some (.spawn true)
  | .spawnFailed _ => some (.spawn false)
  | .exited _ status => some (.exit status)
  | .marked _ ok => some (.mark ok)
  | .acked _ => some .ack
  | .termed => some .term
  | .invalidEvent _ | .unregistered | .disabled | .dedupHit _ | .duplicateDropped _ => none

/-- The deeds that have an effect outside of the dispatcher. -/
def Deed.shows : Deed → Bool
  | .spawn _ | .exit _ | .mark _ | .ack | .term => true
  | .gate _ | .lookup _ | .check _ | .insert | .remove => false

/-- The deeds that the dispatch `t` has shown, oldest first. -/
def shownBy (t : ℕ) (trace : List Emission) : List Deed :=
  trace.reverse.filterMap fun em => if em.task = t then em.effect.deed? else none

/-- How many accesses a dispatch makes at most before it returns. -/
def Stage.remaining : Stage → ℕ
  | .received => 11
  | .configured _ => 10
  | .waiting .. => 9
  | .slot _ _ .lookup => 8
  | .slot _ _ .check => 7
  | .slot _ _ .spawn => 6
  | .slot _ _ .wait => 5
  | .slot _ _ .mark => 4
  | .slot _ _ .remove | .slot _ _ .abort => 3
  | .slot _ _ .ack | .slot _ _ .term | .slot _ _ .hit => 2
  | .slot _ _ .release | .rejected => 1
  | .finished => 0

/-- The log of a dispatch at each stage. -/
inductive Resolving : Stage → List Deed → Prop
  | received : Resolving .received []
  | rejected : Resolving .rejected [.gate false]
  | configured {job : Job} : Resolving (.configured job) [.gate true]
  | waiting {job : Job} {permits : ℕ} : Resolving (.waiting job permits) [.gate true]
  | lookup {job : Job} {permits : ℕ} : Resolving (.slot job permits .lookup) [.gate true]
  | hit {job : Job} {permits : ℕ} :
      Resolving (.slot job permits .hit) [.gate true, .lookup (.ok true)]
  | check {job : Job} {permits : ℕ} {answer : Except Unit Bool} (h : answer ≠ .ok true) :
      Resolving (.slot job permits .check) [.gate true, .lookup answer]
  | spawn {job : Job} {permits : ℕ} {answer : Except Unit Bool} (h : answer ≠ .ok true) :
      Resolving (.slot job permits .spawn) [.gate true, .lookup answer, .check false, .insert]
  | abort {job : Job} {permits : ℕ} {answer : Except Unit Bool} (h : answer ≠ .ok true) :
      Resolving (.slot job permits .abort)
        [.gate true, .lookup answer, .check false, .insert, .spawn false]
  | term {job : Job} {permits : ℕ} {answer : Except Unit Bool} (h : answer ≠ .ok true) :
      Resolving (.slot job permits .term)
        [.gate true, .lookup answer, .check false, .insert, .spawn false, .remove]
  | wait {job : Job} {permits : ℕ} {answer : Except Unit Bool} (h : answer ≠ .ok true) :
      Resolving (.slot job permits .wait)
        [.gate true, .lookup answer, .check false, .insert, .spawn true]
  | mark {job : Job} {permits : ℕ} {answer : Except Unit Bool} (h : answer ≠ .ok true)
      (status : ℤ) : Resolving (.slot job permits .mark)
        [.gate true, .lookup answer, .check false, .insert, .spawn true, .exit status]
  | remove {job : Job} {permits : ℕ} {answer : Except Unit Bool} (h : answer ≠ .ok true)
      (status : ℤ) (marked : Bool) : Resolving (.slot job permits .remove)
        [.gate true, .lookup answer, .check false, .insert, .spawn true, .exit status,
          .mark marked]
  | ack {job : Job} {permits : ℕ} {answer : Except Unit Bool} (h : answer ≠ .ok true)
      (status : ℤ) (marked : Bool) : Resolving (.slot job permits .ack)
        [.gate true, .lookup answer, .check false, .insert, .spawn true, .exit status,
          .mark marked, .remove]
  | release {job : Job} {permits : ℕ} {log : List Deed} (h : Resolution log) :
      Resolving (.slot job permits .release) log
  | finished {log : List Deed} (h : Resolution log) : Resolving .finished log

/-! ## One access -/

variable {C : DispatcherConfig} {D D' : Dispatcher} {d : Delivery} {o : Outcome} {s s' : Stage}
  {effects : List Effect} {log : List Deed}

/-- A delivery that is rejected does not pass. -/
theorem Rejects.passes_eq {effect : Effect} (h : Rejects C D d effect) : D.passes C d = false := by
  unfold Dispatcher.passes
  cases h with
  | invalid hnot =>
    have hnone : d.envelope? C = none :=
      Option.eq_none_iff_forall_not_mem.mpr fun e he => hnot e (Delivery.carries_iff.mpr he)
    rw [hnone]
  | unregistered hd hget => rw [Delivery.carries_iff.mp hd, hget]
  | disabled hd hget hdis =>
    rw [Delivery.carries_iff.mp hd, hget]
    exact hdis

/-- The id that an access inserted is in flight, and the others are as they were. -/
theorem Dispatcher.inFlightIds_insertInFlight {agent : AgentId} {event : String} {permits : ℕ}
    (D : Dispatcher) :
    (D.insertInFlight agent event permits).inFlightIds agent =
      insert event (D.inFlightIds agent) := by
  simp [Dispatcher.insertInFlight, Dispatcher.inFlightIds]

/-- The id that an access removed is not in flight, and the others are as they were. -/
theorem Dispatcher.inFlightIds_removeInFlight {agent : AgentId} {event : String}
    (D : Dispatcher) :
    (D.removeInFlight agent event).inFlightIds agent = (D.inFlightIds agent).erase event := by
  unfold Dispatcher.removeInFlight Dispatcher.inFlightIds
  cases h : D.states agent <;> simp [h]

section Deeds

variable {job : Job} {permits : ℕ}

theorem deeds_drop (h : (d.agent, job.envelope.eventId) ∈ D.inFlight) :
    (Stage.slot job permits .check).deeds C D D' d o = [.check true] :=
  if_pos (show job.envelope.eventId ∈ D.inFlightIds d.agent from h)

theorem deeds_enter (h : (d.agent, job.envelope.eventId) ∉ D.inFlight) :
    (Stage.slot job permits .check).deeds C D
      (D.insertInFlight d.agent job.envelope.eventId permits) d o = [.check false, .insert] :=
  (if_neg (show job.envelope.eventId ∉ D.inFlightIds d.agent from h)).trans
    (if_pos D.inFlightIds_insertInFlight)

theorem deeds_mark (h : o.markFails = false) :
    (Stage.slot job permits .mark).deeds C D
      { D with dedup := D.dedup.markCompleted d.agent job.envelope.eventId o.now } d o =
        [.mark true] := by
  simp [Stage.deeds, h, DedupStore.isCompleted_markCompleted]

theorem deeds_markFail (h : o.markFails = true) :
    (Stage.slot job permits .mark).deeds C D D' d o = [.mark false] :=
  if_pos h

theorem deeds_remove :
    (Stage.slot job permits .remove).deeds C D
      (D.removeInFlight d.agent job.envelope.eventId) d o = [.remove] :=
  if_pos D.inFlightIds_removeInFlight

theorem deeds_abort :
    (Stage.slot job permits .abort).deeds C D
      (D.removeInFlight d.agent job.envelope.eventId) d o = [.remove] :=
  if_pos D.inFlightIds_removeInFlight

end Deeds

/-- An access appends its deeds to the log. -/
theorem Resolving.poll (hlog : Resolving s log)
    (hpoll : D.poll C d o s = some (D', s', effects)) :
    Resolving s' (log ++ s.deeds C D D' d o) := by
  cases polls_of_poll hpoll with
  | reject hrejects =>
    cases hlog
    rw [Stage.deeds, hrejects.passes_eq]
    exact .rejected
  | configure hd hget hen =>
    cases hlog
    have hpasses : D.passes C d = true := by
      rw [Dispatcher.passes, Delivery.carries_iff.mp hd, hget]
      exact hen
    rw [Stage.deeds, hpasses]
    exact .configured
  | termRejected =>
    cases hlog
    exact .finished .rejected
  | ensure =>
    cases hlog
    exact .waiting
  | acquire =>
    cases hlog
    exact .lookup
  | @hit job permits hdone =>
    cases hlog
    have hanswer : D.isCompleted o d.agent job.envelope.eventId = .ok true := by
      unfold Dispatcher.isCompleted
      split
      · rename_i hfails
        simp [Dispatcher.poll, Dispatcher.pollSlot, Dispatcher.isCompleted, hfails] at hpoll
      · rw [hdone]
    rw [Stage.deeds, hanswer]
    exact .hit
  | @miss job permits hmiss =>
    cases hlog
    refine .check fun heq => ?_
    unfold Dispatcher.isCompleted at heq
    split at heq
    · cases heq
    · rename_i hfails
      rw [hmiss.resolve_left hfails] at heq
      cases heq
  | ackHit =>
    cases hlog
    exact .release .completed
  | drop hmem =>
    cases hlog with
    | check hanswer =>
      rw [deeds_drop hmem]
      exact .release (.dropped hanswer)
  | enter hmem =>
    cases hlog with
    | check hanswer =>
      rw [deeds_enter hmem]
      exact .spawn hanswer
  | spawnFail hfail =>
    cases hlog with
    | spawn hanswer =>
      rw [Stage.deeds, hfail]
      exact .abort hanswer
  | spawn hfail =>
    cases hlog with
    | spawn hanswer =>
      rw [Stage.deeds, hfail]
      exact .wait hanswer
  | exit =>
    cases hlog with
    | wait hanswer => exact .mark hanswer _
  | mark hfail =>
    cases hlog with
    | mark hanswer status =>
      rw [deeds_mark hfail]
      exact .remove hanswer status true
  | markFail hfail =>
    cases hlog with
    | mark hanswer status =>
      rw [deeds_markFail hfail]
      exact .remove hanswer status false
  | remove =>
    cases hlog with
    | remove hanswer status marked =>
      rw [deeds_remove]
      exact .ack hanswer status marked
  | ack =>
    cases hlog with
    | ack hanswer status marked => exact .release (.handled hanswer status marked)
  | abort =>
    cases hlog with
    | abort hanswer =>
      rw [deeds_abort]
      exact .term hanswer
  | term =>
    cases hlog with
    | term hanswer => exact .release (.unspawned hanswer)
  | release =>
    cases hlog with
    | release hlog =>
      rw [Stage.deeds, List.append_nil]
      exact .finished hlog

/-- An access shows the deeds that have an effect. -/
theorem Polls.shown (h : Polls C D d o s D' s' effects) :
    effects.reverse.filterMap Effect.deed? = (s.deeds C D D' d o).filter Deed.shows := by
  cases h with
  | reject hrejects => cases hrejects <;> rfl
  | drop hmem => rw [deeds_drop hmem]; rfl
  | enter hmem => rw [deeds_enter hmem]; rfl
  | spawnFail hfail | spawn hfail => rw [Stage.deeds, hfail]; rfl
  | mark hfail => rw [deeds_mark hfail]; rfl
  | markFail hfail => rw [deeds_markFail hfail]; rfl
  | remove => rw [deeds_remove]; rfl
  | abort => rw [deeds_abort]; rfl
  | _ => rfl

/-- Only an access that logs `insert` or `remove` changes what is in flight, and only one that logs
a mark that is `ok` changes the store. -/
theorem Polls.unchanged_or_logged (h : Polls C D d o s D' s' effects) :
    (D'.inFlight = D.inFlight ∨ .insert ∈ s.deeds C D D' d o ∨ .remove ∈ s.deeds C D D' d o) ∧
      (D'.dedup = D.dedup ∨ .mark true ∈ s.deeds C D D' d o) := by
  cases h with
  | ensure => exact ⟨.inl (D.inFlight_ensureState ..), .inl (D.dedup_ensureState ..)⟩
  | enter hmem =>
    rw [deeds_enter hmem]
    exact ⟨.inr (.inl (by simp)), .inl rfl⟩
  | mark hfail =>
    rw [deeds_mark hfail]
    exact ⟨.inl rfl, .inr (by simp)⟩
  | remove =>
    rw [deeds_remove]
    exact ⟨.inr (.inr (by simp)), .inl (D.dedup_removeInFlight ..)⟩
  | abort =>
    rw [deeds_abort]
    exact ⟨.inr (.inr (by simp)), .inl (D.dedup_removeInFlight ..)⟩
  | _ => exact ⟨.inl rfl, .inl rfl⟩

/-- Every access brings a dispatch closer to its end. -/
theorem Polls.remaining_lt (h : Polls C D d o s D' s' effects) : s'.remaining < s.remaining := by
  cases h <;> simp [Stage.remaining]

/-- A dispatch that has not returned can make its next access, whatever its outcome, unless it waits
for a permit and none is free. -/
theorem poll_or_waits (C : DispatcherConfig) (D : Dispatcher) (d : Delivery) (s : Stage) :
    s = .finished ∨ (∀ o, (D.poll C d o s).isSome = true) ∨
      ∃ job permits, s = .waiting job permits ∧ D.availablePermits permits = 0 := by
  cases s with
  | finished => exact .inl rfl
  | waiting job permits =>
    refine .inr ?_
    by_cases hfree : D.availablePermits permits = 0
    · exact .inr ⟨job, permits, rfl, hfree⟩
    · refine .inl fun o => ?_
      unfold Dispatcher.availablePermits at hfree
      cases hsem : D.semaphores[permits]? with
      | none => simp [hsem] at hfree
      | some sem =>
        have hpos : 0 < sem.available := by
          rw [hsem] at hfree
          exact Nat.pos_of_ne_zero hfree
        simp [Dispatcher.poll, Semaphore.tryAcquire, hsem, hpos]
  | _ => exact .inr (.inl fun o => rfl)

/-! ## A whole run -/

variable {w w₀ w' v : World} {t : ℕ}

/-- What an access of the dispatch `t` adds to what is shown. -/
theorem shownBy_commit (d : Delivery) (effects : List Effect) (trace : List Emission) (u : ℕ) :
    shownBy t (effects.map (fun effect => ⟨u, d, effect⟩) ++ trace) =
      shownBy t trace ++ if u = t then effects.reverse.filterMap Effect.deed? else [] := by
  unfold shownBy
  rw [List.reverse_append, List.filterMap_append, ← List.map_reverse, List.filterMap_map]
  by_cases hu : u = t
  · simp [hu]
  · simp [hu]

/-- The dispatch `t` of `d` at some stage, with its log, and what it has shown since the trace was
`trace`. -/
def World.Logs (t : ℕ) (d : Delivery) (trace : List Emission) (x : World × List Deed) : Prop :=
  ∃ stage, x.1.tasks[t]? = some ⟨d, stage⟩ ∧ Resolving stage x.2 ∧
    shownBy t x.1.trace = shownBy t trace ++ x.2.filter Deed.shows

/-- What an access of the dispatch `t` adds to its log. -/
theorem World.deeds_poll {o : Outcome} {task : Task}
    (hstep : (dispatchSystem C).step w (.poll t o) = some w') (htask : w.tasks[t]? = some task) :
    w.deeds C t (.poll t o) = task.stage.deeds C w.dispatcher w'.dispatcher task.delivery o := by
  rw [World.deeds, if_pos rfl, htask, show w.step C (.poll t o) = some w' from hstep]
  rfl

/-- No step loses track of a dispatch, unless the process dies. -/
theorem World.Logs.step {trace : List Emission} {x y : World × List Deed}
    (h : World.Logs t d trace x) {a : Action} (ha : a.OneLifetime)
    (hlogged : ((dispatchSystem C).logging (World.deeds C t)).step x a = some y) :
    World.Logs t d trace y := by
  obtain ⟨w, log⟩ := x
  obtain ⟨w', log'⟩ := y
  obtain ⟨stage, htask, hlog, hshown⟩ := h
  obtain ⟨hstep, rfl⟩ : (dispatchSystem C).step w a = some w' ∧ log' = log ++ w.deeds C t a :=
    step_logging hlogged
  -- what remains when the step does not touch the dispatch
  have hother : w'.tasks[t]? = some ⟨d, stage⟩ → shownBy t w'.trace = shownBy t w.trace →
      w.deeds C t a = [] → World.Logs t d trace (w', log ++ w.deeds C t a) := by
    intro htask' htrace hdeeds
    rw [hdeeds, List.append_nil]
    exact ⟨stage, htask', hlog, htrace.trans hshown⟩
  cases a with
  | deliver d' =>
    cases hstep
    exact hother (getElem?_append_of_some htask) rfl rfl
  | poll u o =>
    obtain ⟨d', s, D', s', effects, htask', hpoll, rfl⟩ := World.poll_of_step hstep
    by_cases hu : u = t
    · subst hu
      obtain ⟨rfl, rfl⟩ : d = d' ∧ stage = s := by
        simpa using htask.symm.trans htask'
      have hdeeds : w.deeds C u (.poll u o) = stage.deeds C w.dispatcher D' d o :=
        World.deeds_poll hstep htask
      rw [hdeeds]
      refine ⟨s', getElem?_set_self_of_mem htask, hlog.poll hpoll, ?_⟩
      show shownBy u (_ ++ w.trace) = _
      rw [shownBy_commit, if_pos rfl, (polls_of_poll hpoll).shown, hshown, List.filter_append,
        List.append_assoc]
    · refine hother ?_ ?_ (if_neg hu)
      · rw [World.commit, List.getElem?_set_ne hu]
        exact htask
      · show shownBy t (_ ++ w.trace) = _
        rw [shownBy_commit, if_neg hu, List.append_nil]
  | pollCall c =>
    obtain ⟨agent, s, D', s', -, -, rfl⟩ := World.step_pollCall hstep
    exact hother htask rfl rfl
  | restart => exact ha.elim
  | call | setRegistry | applyChanges | purge =>
    cases hstep
    exact hother htask rfl rfl

/-- A term was called exactly if a gate rejected the delivery or the spawn failed, an ack exactly if
the event was completed or the handler ran, and neither exactly if the id was in flight. -/
theorem Resolution.resolves (h : Resolution log) :
    (.term ∈ log ↔ .gate false ∈ log ∨ .spawn false ∈ log) ∧
    (.ack ∈ log ↔ .lookup (.ok true) ∈ log ∨ .spawn true ∈ log) ∧
    (.term ∉ log ∧ .ack ∉ log ↔ .check true ∈ log) := by
  cases h with
  | rejected | completed => simp
  | dropped hanswer | unspawned hanswer | handled hanswer => simp [Ne.symm hanswer]

/-- A delivery to any dispatcher, whatever it is like, and any run of it from there without a crash,
with the log of the new dispatch.  Once the dispatch has returned, its log is one of the five
`Resolution`s; a term was called exactly if a gate rejected the delivery or the spawn failed, an ack
exactly if the event was completed or the handler ran, and neither exactly if the id was in flight.
The log and the effects of the dispatch agree.  Until it has returned, it can go on whatever
happens, unless it passed the gates and waits for a permit and none is free.  Each access brings it
closer to its return, and changes what is in flight or the store only if the log says so. -/
theorem resolved_once (hdeliver : (dispatchSystem C).step w (.deliver d) = some w₀)
    (hrun : ((dispatchSystem C).logging (World.deeds C w.tasks.length)).Run
      (fun _ a => a.OneLifetime) (w₀, []) (v, log)) :
    ∃ stage, v.tasks[w.tasks.length]? = some ⟨d, stage⟩ ∧
      (stage = .finished → Resolution log ∧
        (.term ∈ log ↔ .gate false ∈ log ∨ .spawn false ∈ log) ∧
        (.ack ∈ log ↔ .lookup (.ok true) ∈ log ∨ .spawn true ∈ log) ∧
        (.term ∉ log ∧ .ack ∉ log ↔ .check true ∈ log)) ∧
      shownBy w.tasks.length v.trace = shownBy w.tasks.length w.trace ++ log.filter Deed.shows ∧
      (stage = .finished ∨
        (∀ o, ((dispatchSystem C).step v (.poll w.tasks.length o)).isSome = true) ∨
        (log = [.gate true] ∧ ∃ job permits, stage = .waiting job permits ∧
          v.dispatcher.availablePermits permits = 0)) ∧
      ∀ o v', (dispatchSystem C).step v (.poll w.tasks.length o) = some v' →
        (∃ stage', v'.tasks[w.tasks.length]? = some ⟨d, stage'⟩ ∧
          stage'.remaining < stage.remaining) ∧
        (v'.dispatcher.inFlight = v.dispatcher.inFlight ∨
          .insert ∈ v.deeds C w.tasks.length (.poll w.tasks.length o) ∨
          .remove ∈ v.deeds C w.tasks.length (.poll w.tasks.length o)) ∧
        (v'.dispatcher.dedup = v.dispatcher.dedup ∨
          .mark true ∈ v.deeds C w.tasks.length (.poll w.tasks.length o)) := by
  cases hdeliver
  have hstart : World.Logs w.tasks.length d w.trace
      ({ w with tasks := w.tasks ++ [⟨d, .received⟩] }, []) :=
    ⟨.received, by simp, .received, (List.append_nil _).symm⟩
  obtain ⟨stage, htask, hlog, hshown⟩ : World.Logs w.tasks.length d w.trace (v, log) :=
    hrun.invariant hstart fun _ _ _ h ha hstep => h.step ha hstep
  refine ⟨stage, htask, ?_, hshown, ?_, fun o v' hstep => ?_⟩
  · rintro rfl
    cases hlog with
    | finished hresolution => exact ⟨hresolution, hresolution.resolves⟩
  · refine (poll_or_waits C v.dispatcher d stage).imp_right (Or.imp (fun hpoll o => ?_) ?_)
    · obtain ⟨x, hx⟩ := Option.isSome_iff_exists.mp (hpoll o)
      simp [dispatchSystem, World.step, htask, hx]
    · rintro ⟨job, permits, rfl, hfull⟩
      cases hlog
      exact ⟨rfl, job, permits, rfl, hfull⟩
  · obtain ⟨d', s, D', s', effects, htask', hpolls, rfl⟩ := World.step_poll hstep
    obtain ⟨rfl, rfl⟩ : d = d' ∧ stage = s := by
      simpa using htask.symm.trans htask'
    refine ⟨⟨s', getElem?_set_self_of_mem htask, hpolls.remaining_lt⟩, ?_⟩
    rw [World.deeds_poll hstep htask]
    exact hpolls.unchanged_or_logged

namespace Sample

/-- A dispatcher to which nothing has been delivered yet. -/
def idle : World := .start (registry config) .empty

/-- The event `e` has been delivered to it. -/
def delivered : World := { idle with tasks := [⟨delivery "e", .received⟩] }

end Sample

/-- The dispatch of a new event, to its end. -/
theorem resolved_once_handled :
    ∃ v log, ((dispatchSystem Sample.dispatcherConfig).logging
        (World.deeds Sample.dispatcherConfig Sample.idle.tasks.length)).Run
        (fun _ a => a.OneLifetime) (Sample.delivered, []) (v, log) ∧
      .ack ∈ log ∧ Resolution log := by
  obtain ⟨⟨v, log⟩, hrun, hend⟩ := exists_run_of_exec
    ((dispatchSystem Sample.dispatcherConfig).logging
      (World.deeds Sample.dispatcherConfig Sample.idle.tasks.length)) (fun _ a => a.OneLifetime)
    (Sample.delivered, []) (Sample.polls 0 11)
    (fun x => decide (.ack ∈ x.2) &&
      ((x.1.tasks[Sample.idle.tasks.length]?).elim false fun task => task.stage.isFinished))
    (by decide +kernel)
  simp only [Bool.and_eq_true, decide_eq_true_eq] at hend
  obtain ⟨hack, hfinished⟩ := hend
  obtain ⟨stage, htask, hresolved, -⟩ := resolved_once (d := Sample.delivery "e") rfl hrun
  rw [htask, Option.elim_some] at hfinished
  have hstage : stage = .finished := by
    cases stage <;> first | rfl | cases hfinished
  exact ⟨v, log, hrun, hack, (hresolved hstage).1⟩

end Agentd
