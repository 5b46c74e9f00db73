import Agentd.Dispatcher.Steps

/-!
# Fields that are passed through

The dispatcher interprets the version, the event id and the agent id of an envelope; everything else
is for the handler.  Two deliveries that agree on these three are dispatched in lockstep: `Twin`
relates a world to the one in which the bytes of one delivery were replaced, and every step leads
from twins to twins.

The one place where the fields that are passed through come back is the spawn.  The type of the
event becomes an environment variable, and a process cannot be started with a NUL character in one
(`workingSystem`).
-/

namespace Agentd

open TransitionSystem TaskPool

variable {C : DispatcherConfig} {D : Dispatcher} {d : Delivery} {raw : List UInt8}
  {e e' : EventEnvelope} {o : Outcome} {agent : AgentId}

/-! ## Spawning a working handler -/

/-- A value of the environment contains a NUL character. -/
def Command.hasNul (command : Command) : Bool :=
  command.env.any fun entry => entry.2.toList.contains '\x00'

/-- The event id or the type contains a NUL character. -/
def EventEnvelope.hasNul (e : EventEnvelope) : Bool :=
  e.eventId.toList.contains '\x00' || e.eventType.toList.contains '\x00'

/-- No agent id contains a NUL character. -/
theorem AgentId.nul_not_mem (id : AgentId) : '\x00' ∉ id.raw.toList := by
  intro hnul
  rcases char_of_check id.valid hnul with h | h
  · cases h
  · exact absurd h (by decide)

/-- No decimal number contains a NUL character. -/
theorem nul_not_mem_toString (n : ℕ) : '\x00' ∉ (toString n).toList := by
  intro hnul
  rw [show toString n = n.repr from rfl, Nat.toList_repr] at hnul
  have hdigit := Nat.isDigit_of_mem_toDigits (by decide) (by decide) hnul
  exact absurd hdigit (by decide)

/-- Of the environment of a handler, only the event id and the type can contain a NUL character. -/
theorem Command.hasNul_forEvent (config : AgentConfig) (e : EventEnvelope) (d : Delivery) :
    (Command.forEvent config e d).hasNul = e.hasNul := by
  have hagent : d.agent.raw.toList.contains '\x00' = false := by
    simpa using d.agent.nul_not_mem
  have hnumber : ∀ n : ℕ, (toString n).toList.contains '\x00' = false := by
    intro n
    simpa using nul_not_mem_toString n
  simp only [hasNul, forEvent, List.any_cons, List.any_nil, AgentId.asStr, hagent, hnumber,
    Bool.false_or, Bool.or_false, EventEnvelope.hasNul]

/-- The action when the handler of the agent is a working executable: a spawn fails exactly when a
value of the environment contains a NUL character. -/
def World.settleSpawn (agent : AgentId) (w : World) : Action → Action
  | .poll t o =>
    match w.tasks[t]? with
    | some ⟨d, .slot job _ .spawn⟩ =>
      if d.agent = agent then
        .poll t { o with spawnFails := (Command.forEvent job.config job.envelope d).hasNul }
      else .poll t o
    | _ => .poll t o
  | a => a

/-- The dispatcher when the handler of the agent is a working executable. -/
def workingSystem (C : DispatcherConfig) (agent : AgentId) : TransitionSystem World Action where
  step w a := World.step C w (w.settleSpawn agent a)

/-! ## How a delivery ends -/

/-- An effect without what is passed through to the handler. -/
def Effect.outline : Effect → Effect
  | .spawned event command => .spawned event { command with env := [], stdin := [] }
  | effect => effect

/-- What the dispatches did, newest first, without what they passed through. -/
def World.fates (w : World) : List (ℕ × Effect) :=
  w.trace.map fun em => (em.task, em.effect.outline)

/-! ## Twins -/

/-- Stages of two dispatches for the agent that differ in the envelope only; the dispatches that
passed the gates are for the agent of the envelope. -/
inductive Stage.Twin (agent : AgentId) (e e' : EventEnvelope) : Stage → Stage → Prop
  | received : Twin agent e e' .received .received
  | rejected : Twin agent e e' .rejected .rejected
  | configured (h : e.agentId = agent) (config : AgentConfig) :
      Twin agent e e' (.configured ⟨e, config⟩) (.configured ⟨e', config⟩)
  | waiting (h : e.agentId = agent) (config : AgentConfig) (permits : ℕ) :
      Twin agent e e' (.waiting ⟨e, config⟩ permits) (.waiting ⟨e', config⟩ permits)
  | slot (h : e.agentId = agent) (config : AgentConfig) (permits : ℕ) (phase : Phase) :
      Twin agent e e' (.slot ⟨e, config⟩ permits phase) (.slot ⟨e', config⟩ permits phase)
  | finished : Twin agent e e' .finished .finished

/-- The bytes of the delivery and the bytes `raw` are within the limit and parse to `e` and `e'`,
which agree on the event id and the agent id. -/
structure Delivery.Alike (C : DispatcherConfig) (d : Delivery) (raw : List UInt8)
    (e e' : EventEnvelope) : Prop where
  size : d.raw.length ≤ C.maxEventBytes
  size' : raw.length ≤ C.maxEventBytes
  parse : EventEnvelope.parse C.fromSlice d.raw = .ok e
  parse' : EventEnvelope.parse C.fromSlice raw = .ok e'
  eventId : e'.eventId = e.eventId
  agentId : e'.agentId = e.agentId

/-- The two dispatches are the same, or those of the two deliveries. -/
def Task.Twin (d : Delivery) (raw : List UInt8) (e e' : EventEnvelope) (x y : Task) : Prop :=
  y = x ∨ x.delivery = d ∧ y.delivery = { d with raw } ∧ Stage.Twin d.agent e e' x.stage y.stage

/-- The two worlds are the same up to the bytes of one delivery. -/
structure World.Twin (d : Delivery) (raw : List UInt8) (e e' : EventEnvelope) (w v : World) :
    Prop where
  dispatcher : v.dispatcher = w.dispatcher
  calls : v.calls = w.calls
  tasks : List.Forall₂ (Task.Twin d raw e e') w.tasks v.tasks
  fates : v.fates = w.fates

/-- The gates decide alike. -/
theorem Delivery.Alike.gate (h : d.Alike C raw e e') (D : Dispatcher) :
    (D.gate C { d with raw }).2 = (D.gate C d).2 ∧
      Stage.Twin d.agent e e' (D.gate C d).1 (D.gate C { d with raw }).1 := by
  have hsize : ¬d.raw.length > C.maxEventBytes := Nat.not_lt.mpr h.size
  have hsize' : ¬raw.length > C.maxEventBytes := Nat.not_lt.mpr h.size'
  simp only [Dispatcher.gate, if_neg hsize, if_neg hsize', h.parse, h.parse', h.agentId]
  by_cases hag : e.agentId = d.agent
  · simp only [ne_eq, hag, not_true_eq_false, if_false]
    cases D.registry.get d.agent with
    | none => exact ⟨rfl, .rejected⟩
    | some config =>
      cases hen : config.enabled with
      | true =>
        simp only [hen, Bool.not_true, Bool.false_eq_true, if_false]
        exact ⟨trivial, .configured hag config⟩
      | false =>
        simp only [hen, Bool.not_false, if_true]
        exact ⟨trivial, .rejected⟩
  · simp only [ne_eq, hag, not_false_eq_true, if_true]
    exact ⟨trivial, .rejected⟩

/-- A dispatch that holds a permit does alike. -/
theorem Delivery.Alike.pollSlot (h : d.Alike C raw e e') (D : Dispatcher) (o : Outcome)
    (config : AgentConfig) (permits : ℕ) (phase : Phase) :
    (D.pollSlot { d with raw } o ⟨e', config⟩ permits phase).1 =
        (D.pollSlot d o ⟨e, config⟩ permits phase).1 ∧
      (D.pollSlot { d with raw } o ⟨e', config⟩ permits phase).2.1 =
        (D.pollSlot d o ⟨e, config⟩ permits phase).2.1 ∧
      (D.pollSlot { d with raw } o ⟨e', config⟩ permits phase).2.2.map Effect.outline =
        (D.pollSlot d o ⟨e, config⟩ permits phase).2.2.map Effect.outline := by
  cases phase with
  | spawn =>
    refine ⟨?_, ?_, ?_⟩ <;> simp only [Dispatcher.pollSlot, h.eventId] <;>
      cases o.spawnFails <;> rfl
  | _ => refine ⟨?_, ?_, ?_⟩ <;> simp only [Dispatcher.pollSlot, h.eventId]

/-- What an access of one dispatch gives is a twin of what the same access of the other gives. -/
def PollTwin (agent : AgentId) (e e' : EventEnvelope) (x y : Dispatcher × Stage × List Effect) :
    Prop :=
  y.1 = x.1 ∧ Stage.Twin agent e e' x.2.1 y.2.1 ∧
    y.2.2.map Effect.outline = x.2.2.map Effect.outline

/-- The two dispatches make the same access. -/
theorem Delivery.Alike.poll (h : d.Alike C raw e e') (D : Dispatcher) (o : Outcome)
    {s s' : Stage} (hs : Stage.Twin d.agent e e' s s') :
    Option.Rel (PollTwin d.agent e e') (D.poll C d o s) (D.poll C { d with raw } o s') := by
  cases hs with
  | received =>
    obtain ⟨heffects, hstage⟩ := h.gate D
    exact .some ⟨rfl, hstage, congrArg (List.map Effect.outline) heffects⟩
  | rejected => exact .some ⟨rfl, .finished, rfl⟩
  | configured hag config => exact .some ⟨rfl, .waiting hag config _, rfl⟩
  | waiting hag config permits =>
    simp only [Dispatcher.poll]
    cases Semaphore.tryAcquire D.semaphores permits with
    | none => exact .none
    | some heap => exact .some ⟨rfl, .slot hag config permits .lookup, rfl⟩
  | slot hag config permits phase =>
    have hslot := h.pollSlot D o config permits phase
    simp only [Dispatcher.poll]
    generalize D.pollSlot d o ⟨e, config⟩ permits phase = x at hslot
    generalize D.pollSlot { d with raw } o ⟨e', config⟩ permits phase = y at hslot
    obtain ⟨D₁, next, effects⟩ := x
    obtain ⟨D₂, next', effects'⟩ := y
    obtain ⟨rfl, rfl, heffects⟩ := hslot
    refine .some ⟨rfl, ?_, heffects⟩
    cases next' with
    | none => exact .finished
    | some next => exact .slot hag config permits next
  | finished => exact .none

namespace World.Twin

variable {w v : World}

/-- An access of a dispatch that both worlds have. -/
theorem commit (h : World.Twin d raw e e' w v) {t : ℕ} {x y : Task} {D' : Dispatcher}
    {s s' : Stage} {effects effects' : List Effect}
    (htask : Task.Twin d raw e e' { x with stage := s } { y with stage := s' })
    (heffects : effects'.map Effect.outline = effects.map Effect.outline) :
    World.Twin d raw e e' (w.commit t x D' s effects) (v.commit t y D' s' effects') where
  dispatcher := rfl
  calls := h.calls
  tasks := forall₂_set h.tasks htask t
  fates := by
    have houtline : ∀ (z : Task) (l : List Effect),
        (l.map fun effect => (⟨t, z.delivery, effect⟩ : Emission)).map
          (fun em => (em.task, em.effect.outline)) =
        (l.map Effect.outline).map fun effect => (t, effect) := by
      intro z l
      simp
    have hfates := h.fates
    simp only [World.fates, World.commit, List.map_append, houtline, heffects] at hfates ⊢
    rw [hfates]

/-- The spawns of the two worlds are settled alike, when both or neither envelope has a NUL. -/
theorem settleSpawn_eq (h : World.Twin d raw e e' w v)
    (hnul : e.agentId = d.agent → e'.hasNul = e.hasNul) (a : Action) :
    v.settleSpawn agent a = w.settleSpawn agent a := by
  cases a with
  | poll t o =>
    have hrel := forall₂_getElem? h.tasks t
    simp only [World.settleSpawn]
    generalize w.tasks[t]? = x at hrel
    generalize v.tasks[t]? = y at hrel
    cases hrel with
    | none => rfl
    | @some x y hxy =>
      obtain ⟨dx, sx⟩ := x
      obtain ⟨dy, sy⟩ := y
      rcases hxy with heq | ⟨rfl, rfl, hstage⟩
      · rw [heq]
      · cases hstage with
        | slot hag config permits phase =>
          cases phase with
          | spawn => simp only [Command.hasNul_forEvent, hnul hag]
          | _ => rfl
        | _ => rfl
  | _ => rfl

/-- A step leads from twins to twins. -/
theorem step (h : World.Twin d raw e e' w v) (halike : d.Alike C raw e e') (a : Action) :
    Option.Rel (World.Twin d raw e e') (World.step C w a) (World.step C v a) := by
  cases a with
  | poll t o =>
    have hrel := forall₂_getElem? h.tasks t
    simp only [World.step, Option.bind_eq_bind, h.dispatcher]
    generalize w.tasks[t]? = x at hrel
    generalize v.tasks[t]? = y at hrel
    cases hrel with
    | none => exact .none
    | @some x y hxy =>
      obtain ⟨dx, sx⟩ := x
      obtain ⟨dy, sy⟩ := y
      rcases hxy with heq | ⟨rfl, rfl, hstage⟩
      · cases heq
        cases hpoll : w.dispatcher.poll C dx o sx with
        | none => simp only [Option.bind_some, hpoll, Option.bind_none]; exact .none
        | some result =>
          simp only [Option.bind_some, hpoll]
          exact .some (h.commit (.inl rfl) rfl)
      · have hpoll := halike.poll w.dispatcher o hstage
        simp only [Option.bind_some]
        generalize w.dispatcher.poll C dx o sx = p at hpoll
        generalize w.dispatcher.poll C { dx with raw } o sy = q at hpoll
        cases hpoll with
        | none => exact .none
        | @some p q hpq =>
          obtain ⟨D₁, s₁, effects₁⟩ := p
          obtain ⟨D₂, s₂, effects₂⟩ := q
          obtain ⟨rfl, hstage', heffects⟩ := hpq
          exact .some (h.commit (.inr ⟨rfl, rfl, hstage'⟩) heffects)
  | deliver d' =>
    refine .some ⟨h.dispatcher, h.calls, ?_, h.fates⟩
    exact List.rel_append h.tasks (.cons (.inl rfl) .nil)
  | call agent =>
    refine .some ⟨h.dispatcher, ?_, h.tasks, h.fates⟩
    simp only [h.calls]
  | pollCall c =>
    simp only [World.step, Option.bind_eq_bind, h.dispatcher, h.calls]
    cases w.calls[c]? with
    | none => exact .none
    | some call =>
      simp only [Option.bind_some]
      cases w.dispatcher.pollAvailable call.agent call.stage with
      | none => exact .none
      | some result => exact .some ⟨rfl, rfl, h.tasks, h.fates⟩
  | setRegistry registry =>
    refine .some ⟨?_, h.calls, h.tasks, h.fates⟩
    simp only [h.dispatcher]
  | applyChanges changes =>
    refine .some ⟨?_, h.calls, h.tasks, h.fates⟩
    simp only [h.dispatcher]
  | purge now ttl =>
    refine .some ⟨?_, h.calls, h.tasks, h.fates⟩
    simp only [h.dispatcher]
  | restart registry now ttl =>
    refine .some ⟨?_, rfl, .nil, h.fates⟩
    simp only [h.dispatcher]

/-- A run leads from twins to twins. -/
theorem exec (h : World.Twin d raw e e' w v) (halike : d.Alike C raw e e')
    (hnul : e.agentId = d.agent → e'.hasNul = e.hasNul) (agent : AgentId) (as : List Action) :
    Option.Rel (World.Twin d raw e e')
      ((workingSystem C agent).exec (fun _ _ => True) w as)
      ((workingSystem C agent).exec (fun _ _ => True) v as) := by
  induction as generalizing w v with
  | nil => exact .some h
  | cons a as ih =>
    have hstep := h.step halike (w.settleSpawn agent a)
    simp only [TransitionSystem.exec, if_true, workingSystem, h.settleSpawn_eq hnul]
    generalize World.step C w (w.settleSpawn agent a) = x at hstep
    generalize World.step C v (w.settleSpawn agent a) = y at hstep
    cases hstep with
    | none => exact .none
    | some hxy => exact ih hxy

end World.Twin

/-! ## A schedule that comes to the spawn -/

/-- The registry is replaced and the agent loses its state; then the dispatch `t` comes to the
spawn, whatever the store holds. -/
def toSpawn (registry : Registry) (agent : AgentId) (t : ℕ) : List Action :=
  [.setRegistry registry, .applyChanges [.removed agent], .poll t {}, .poll t {}, .poll t {},
    .poll t { lookupFails := true }, .poll t {}, .poll t {}]

/-- A poll of the last dispatch. -/
theorem exec_poll_last {tasks : List Task} {calls : List Call} {trace : List Emission}
    {D' : Dispatcher} {s s' : Stage} {o o' : Outcome} {effects : List Effect} {as : List Action}
    (hsettle : (⟨D, tasks ++ [⟨d, s⟩], calls, trace⟩ : World).settleSpawn agent
      (.poll tasks.length o) = .poll tasks.length o')
    (hpoll : D.poll C d o' s = some (D', s', effects)) :
    (workingSystem C agent).exec (fun _ _ => True) ⟨D, tasks ++ [⟨d, s⟩], calls, trace⟩
        (.poll tasks.length o :: as) =
      (workingSystem C agent).exec (fun _ _ => True)
        ⟨D', tasks ++ [⟨d, s'⟩], calls,
          (effects.map fun effect => ⟨tasks.length, d, effect⟩) ++ trace⟩ as := by
  have hlast : (tasks ++ [⟨d, s⟩])[tasks.length]? = some ⟨d, s⟩ := List.getElem?_concat_length
  simp only [exec, if_true, workingSystem, hsettle, World.step, hlast, Option.bind_eq_bind,
    Option.bind_some, hpoll]
  simp [World.commit]

/-- A poll of a dispatch that is not about to spawn is left as it is. -/
theorem settleSpawn_last {tasks : List Task} {calls : List Call} {trace : List Emission}
    {s : Stage} (hs : ∀ job permits, s ≠ .slot job permits .spawn) (o : Outcome) :
    (⟨D, tasks ++ [⟨d, s⟩], calls, trace⟩ : World).settleSpawn agent (.poll tasks.length o) =
      .poll tasks.length o := by
  have hlast : (tasks ++ [⟨d, s⟩])[tasks.length]? = some ⟨d, s⟩ := List.getElem?_concat_length
  simp only [World.settleSpawn, hlast]
  split
  · rename_i job permits heq
    cases heq
    exact absurd rfl (hs job permits)
  · rfl

/-- A dispatch of a working agent that has no state left comes to the spawn. -/
theorem polls_toSpawn {config : AgentConfig} (hd : d.Carries C e)
    (hget : D.registry.get d.agent = some config) (hen : config.enabled = true)
    (hpos : 0 < config.maxConcurrency.toNat) (hnone : D.states d.agent = none) :
    ∃ D₁ D₂ D₃ p, D.poll C d {} .received = some (D, .configured ⟨e, config⟩, []) ∧
      D.poll C d {} (.configured ⟨e, config⟩) = some (D₁, .waiting ⟨e, config⟩ p, []) ∧
      D₁.poll C d {} (.waiting ⟨e, config⟩ p) = some (D₂, .slot ⟨e, config⟩ p .lookup, []) ∧
      D₂.poll C d { lookupFails := true } (.slot ⟨e, config⟩ p .lookup) =
        some (D₂, .slot ⟨e, config⟩ p .check, []) ∧
      D₂.poll C d {} (.slot ⟨e, config⟩ p .check) =
        some (D₃, .slot ⟨e, config⟩ p .spawn, []) := by
  have hgate : D.poll C d {} .received = some (D, .configured ⟨e, config⟩, []) := by
    have hsize : ¬d.raw.length > C.maxEventBytes := Nat.not_lt.mpr hd.size
    simp [Dispatcher.poll, Dispatcher.gate, hsize, hd.parse, hd.agent, hget, hen]
  have hensure : D.ensureState d.agent config.maxConcurrency =
      ({ D with
          states := Function.update D.states d.agent (some ⟨D.semaphores.length, ∅⟩)
          semaphores := D.semaphores ++ [.new config.maxConcurrency.toNat] },
        D.semaphores.length) := by
    simp [Dispatcher.ensureState, hnone]
  have hsem : (D.semaphores ++ [Semaphore.new config.maxConcurrency.toNat])[D.semaphores.length]? =
      some (.new config.maxConcurrency.toNat) := List.getElem?_concat_length
  obtain ⟨heap, hacq⟩ : ∃ heap, Semaphore.tryAcquire
      (D.semaphores ++ [Semaphore.new config.maxConcurrency.toNat]) D.semaphores.length =
        some heap :=
    ⟨_, Semaphore.tryAcquire_eq_some_iff.mpr ⟨_, hsem, hpos, rfl⟩⟩
  have hcheck : ∀ D₂ : Dispatcher, D₂.states = Function.update D.states d.agent
      (some ⟨D.semaphores.length, ∅⟩) →
      ∃ D₃, D₂.poll C d {} (.slot ⟨e, config⟩ D.semaphores.length .check) =
        some (D₃, .slot ⟨e, config⟩ D.semaphores.length .spawn, []) := by
    intro D₂ hstates
    refine ⟨{ D₂ with
      states :=
        Function.update D₂.states d.agent (some ⟨D.semaphores.length, {e.eventId}⟩) }, ?_⟩
    simp [Dispatcher.poll, Dispatcher.pollSlot, Dispatcher.checkInsert, hstates]
  obtain ⟨D₃, hD₃⟩ := hcheck { D with
    states := Function.update D.states d.agent (some ⟨D.semaphores.length, ∅⟩)
    semaphores := heap } rfl
  refine ⟨{ D with
    states := Function.update D.states d.agent (some ⟨D.semaphores.length, ∅⟩)
    semaphores := D.semaphores ++ [.new config.maxConcurrency.toNat] },
    { D with
      states := Function.update D.states d.agent (some ⟨D.semaphores.length, ∅⟩)
      semaphores := heap }, D₃, D.semaphores.length, hgate, ?_, ?_, rfl, hD₃⟩
  · simp only [Dispatcher.poll, hensure]
  · simp only [Dispatcher.poll, hacq]
    rfl

/-- The schedule ends with the spawn, which fails exactly when the envelope has a NUL. -/
theorem fates_toSpawn {w : World} {registry : Registry} {config : AgentConfig}
    (hd : d.Carries C e) (hget : registry.get d.agent = some config)
    (hen : config.enabled = true) (hpos : 0 < config.maxConcurrency.toNat) :
    ((workingSystem C d.agent).exec (fun _ _ => True) w
        (.deliver d :: toSpawn registry d.agent w.tasks.length)).map World.fates =
      some ((w.tasks.length, if e.hasNul then .spawnFailed e.eventId
        else .spawned e.eventId ⟨config.handler, [], config.workingDirectory, []⟩) :: w.fates) := by
  obtain ⟨D, tasks, calls, trace⟩ := w
  set D' : Dispatcher := ({ D with registry } : Dispatcher).applyChanges [.removed d.agent]
    with hD'
  have hnone : D'.states d.agent = none := by
    simp [hD', Dispatcher.states_applyChanges, Change.agentId]
  have hget' : D'.registry.get d.agent = some config := hget
  have hstart : (workingSystem C d.agent).exec (fun _ _ => True) ⟨D, tasks, calls, trace⟩
      (.deliver d :: toSpawn registry d.agent tasks.length) =
      (workingSystem C d.agent).exec (fun _ _ => True)
        ⟨D', tasks ++ [⟨d, .received⟩], calls, trace⟩
        [.poll tasks.length {}, .poll tasks.length {}, .poll tasks.length {},
          .poll tasks.length { lookupFails := true }, .poll tasks.length {},
          .poll tasks.length {}] := rfl
  obtain ⟨D₁, D₂, D₃, p, hgate, hensure, hacquire, hlookup, hcheck⟩ :=
    polls_toSpawn hd hget' hen hpos hnone
  have hsettle : (⟨D₃, tasks ++ [⟨d, .slot ⟨e, config⟩ p .spawn⟩], calls, trace⟩ :
      World).settleSpawn d.agent (.poll tasks.length {}) =
        .poll tasks.length { spawnFails := e.hasNul } := by
    have hlast : (tasks ++ [(⟨d, .slot ⟨e, config⟩ p .spawn⟩ : Task)])[tasks.length]? =
        some ⟨d, .slot ⟨e, config⟩ p .spawn⟩ := List.getElem?_concat_length
    simp only [World.settleSpawn, hlast, if_true, Command.hasNul_forEvent]
  rw [hstart, exec_poll_last (settleSpawn_last (by simp) _) hgate,
    exec_poll_last (settleSpawn_last (by simp) _) hensure,
    exec_poll_last (settleSpawn_last (by simp) _) hacquire,
    exec_poll_last (settleSpawn_last (by simp) _) hlookup,
    exec_poll_last (settleSpawn_last (by simp) _) hcheck]
  simp only [List.map_nil, List.nil_append]
  cases hnul : e.hasNul with
  | true =>
    rw [hnul] at hsettle
    rw [exec_poll_last (C := C) hsettle rfl]
    rfl
  | false =>
    rw [hnul] at hsettle
    rw [exec_poll_last (C := C) hsettle rfl]
    rfl

/-! ## Opaque fields -/

/-- Replacing the bytes of a delivery by others with the same version, event id and agent id changes
no dispatch, under any schedule, if and only if the envelope is for another agent than the consumer,
or both or neither of the two envelopes have a NUL character in the event id or the type. -/
theorem fates_eq_iff {w : World} (halike : d.Alike C raw e e') :
    (∀ as, ((workingSystem C d.agent).exec (fun _ _ => True) w (.deliver d :: as)).map
        World.fates =
      ((workingSystem C d.agent).exec (fun _ _ => True) w (.deliver { d with raw } :: as)).map
        World.fates) ↔
      e.agentId ≠ d.agent ∨ e'.hasNul = e.hasNul := by
  constructor
  · intro hall
    by_contra hnot
    rw [not_or, not_not] at hnot
    obtain ⟨hag, hnul⟩ := hnot
    have hvalid : ({ Sample.config with agentId := d.agent } : AgentConfig).validate = .ok () := by
      rfl
    have hd : d.Carries C e := ⟨halike.size, halike.parse, hag⟩
    have hd' : ({ d with raw } : Delivery).Carries C e' :=
      ⟨halike.size', halike.parse', halike.agentId.trans hag⟩
    obtain ⟨registry, hget⟩ : ∃ registry : Registry,
        registry.get d.agent = some { Sample.config with agentId := d.agent } :=
      ⟨Registry.empty.insert _ hvalid, Registry.get_insert_self ..⟩
    have hends := hall (toSpawn registry d.agent w.tasks.length)
    have hpos : 0 < Sample.config.maxConcurrency.toNat := by decide
    have hend := fates_toSpawn (w := w) hd hget rfl hpos
    have hend' := fates_toSpawn (w := w) hd' hget rfl hpos
    rw [hend, hend', halike.eventId] at hends
    cases hn : e.hasNul <;> cases hn' : e'.hasNul <;> simp [hn, hn'] at hends hnul
  · intro hcond as
    have hnul : e.agentId = d.agent → e'.hasNul = e.hasNul := fun hag =>
      hcond.resolve_left (not_not.mpr hag)
    have htwin : World.Twin d raw e e' { w with tasks := w.tasks ++ [⟨d, .received⟩] }
        { w with tasks := w.tasks ++ [⟨{ d with raw }, .received⟩] } := by
      refine ⟨rfl, rfl, ?_, rfl⟩
      have hsame : List.Forall₂ (Task.Twin d raw e e') w.tasks w.tasks :=
        List.forall₂_same.mpr fun x _ => .inl rfl
      exact List.rel_append hsame (.cons (.inr ⟨rfl, rfl, .received⟩) .nil)
    have hrun := htwin.exec halike hnul d.agent as
    change Option.map World.fates ((workingSystem C d.agent).exec (fun _ _ => True)
        { w with tasks := w.tasks ++ [⟨d, .received⟩] } as) =
      Option.map World.fates ((workingSystem C d.agent).exec (fun _ _ => True)
        { w with tasks := w.tasks ++ [⟨{ d with raw }, .received⟩] } as)
    generalize (workingSystem C d.agent).exec (fun _ _ => True)
      { w with tasks := w.tasks ++ [⟨d, .received⟩] } as = x at hrun ⊢
    generalize (workingSystem C d.agent).exec (fun _ _ => True)
      { w with tasks := w.tasks ++ [⟨{ d with raw }, .received⟩] } as = y at hrun ⊢
    cases hrun with
    | none => rfl
    | some hends => exact congrArg some hends.fates.symm

namespace Sample

/-- The event `e` with another type, creation time and payload, metadata and an unknown field; the
type is given as it is written in the text. -/
def otherFields (type : String) : String :=
  "\x7b\"version\":1,\"event_id\":\"e\",\"agent_id\":\"a\",\"type\":\"" ++ type ++
    "\",\"created_at\":\"d\",\"payload\":[1],\"metadata\":\x7b\x7d,\"trace\":\"x\"\x7d"

/-- The value of that text, with the type it stands for. -/
def otherFieldsJson (type : String) : Json :=
  .object [("version", .integer 1), ("event_id", .string "e"), ("agent_id", .string "a"),
    ("type", .string type), ("created_at", .string "d"), ("payload", .array [.integer 1]),
    ("metadata", .object []), ("trace", .string "x")]

/-- The text parser, as far as these events need it. -/
def withOtherFields : DispatcherConfig where
  maxEventBytes := 262144
  fromSlice bytes :=
    if bytes == (otherFields "u").toUTF8.data.toList then .ok (otherFieldsJson "u")
    else if bytes == (otherFields "\\u0000").toUTF8.data.toList then .ok (otherFieldsJson "\x00")
    else fromSlice bytes

/-- The event `e`. -/
def envelope : EventEnvelope where
  version := 1
  eventId := "e"
  agentId := Sample.agent
  eventType := "t"
  createdAt := "c"
  payload := .null
  metadata := none

/-- The event `e` with the other fields and the given type. -/
def otherEnvelope (type : String) : EventEnvelope where
  version := 1
  eventId := "e"
  agentId := Sample.agent
  eventType := type
  createdAt := "d"
  payload := .array [.integer 1]
  metadata := some (.object [])

/-- The two texts of the event `e` agree on what the dispatcher interprets. -/
theorem alike_otherFields {written type : String}
    (hsize : (otherFields written).toUTF8.data.toList.length ≤ 262144)
    (hparse : EventEnvelope.parse withOtherFields.fromSlice
      (otherFields written).toUTF8.data.toList = .ok (otherEnvelope type)) :
    (delivery "e").Alike withOtherFields (otherFields written).toUTF8.data.toList envelope
      (otherEnvelope type) where
  size := by decide +kernel
  size' := hsize
  parse := by rfl
  parse' := hparse
  eventId := rfl
  agentId := rfl

end Sample

theorem fates_eq_iff_otherFields :
    ((workingSystem Sample.withOtherFields Sample.agent).exec (fun _ _ => True)
        (.start (Sample.registry Sample.config) .empty)
        (.deliver (Sample.delivery "e") :: Sample.polls 0 10)).map World.fates =
      ((workingSystem Sample.withOtherFields Sample.agent).exec (fun _ _ => True)
        (.start (Sample.registry Sample.config) .empty)
        (.deliver { Sample.delivery "e" with
          raw := (Sample.otherFields "u").toUTF8.data.toList } ::
          Sample.polls 0 10)).map World.fates :=
  (fates_eq_iff (Sample.alike_otherFields (by decide +kernel) rfl)).mpr (.inr (by decide)) _

/-- The event is handled and acknowledged; with a NUL character as its type it is terminated. -/
theorem type_decides_fate :
    (Sample.delivery "e").Alike Sample.withOtherFields
        (Sample.otherFields "\\u0000").toUTF8.data.toList Sample.envelope
        (Sample.otherEnvelope "\x00") ∧
      ((workingSystem Sample.withOtherFields Sample.agent).exec (fun _ _ => True)
          (.start (Sample.registry Sample.config) .empty)
          (.deliver (Sample.delivery "e") :: Sample.polls 0 10)).map World.fates =
        some [(0, .acked "e"), (0, .marked "e" true), (0, .exited "e" 0),
          (0, .spawned "e" ⟨Sample.config.handler, [], Sample.config.workingDirectory, []⟩)] ∧
      ((workingSystem Sample.withOtherFields Sample.agent).exec (fun _ _ => True)
          (.start (Sample.registry Sample.config) .empty)
          (.deliver { Sample.delivery "e" with
            raw := (Sample.otherFields "\\u0000").toUTF8.data.toList } ::
            Sample.polls 0 8)).map World.fates =
        some [(0, .termed), (0, .spawnFailed "e")] := by
  refine ⟨Sample.alike_otherFields (by decide +kernel) rfl, ?_, ?_⟩
  · decide +kernel
  · decide +kernel

end Agentd
