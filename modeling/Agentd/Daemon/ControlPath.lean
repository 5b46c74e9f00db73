import Agentd.Daemon.Reconcile

/-!
# Control operations and reloads on the same edits

An operation that is served to its end, with nothing else happening and no failure, has on the
daemon the effect that `ControlView.perform` describes in one step: the registry changes, the
dispatcher forgets the agents named, and the relay's table has an entry for those whose change
starts a loop.  `RequestStage.finish` is what remains of that effect at every stage of the
operation, and no access changes it (`finish_of_serve`).

With the effects at hand the two ways to edit agents are compared: one operation for each edit, or
one reload that finds the edited files.  A reload only reports what has changed, while an update is
always applied.  They differ on an agent whose configuration is replaced by an equal one, unless
there is nothing to reset (`agrees_iff_asNew`).
-/

namespace Agentd

open TransitionSystem TaskPool

variable {C : DispatcherConfig} {D D' D₁ D₂ : Daemon} {agent : AgentId} {o : ServeOutcome}

/-! ## The effect of an operation -/

/-- What the edits of agents change in a daemon: the dispatcher with its registry, and the agents
that have an entry in the relay's table of pull loops. -/
structure ControlView where
  dispatcher : Dispatcher
  pulled : Set AgentId

/-- The view of a daemon. -/
def Daemon.view (D : Daemon) : ControlView where
  dispatcher := D.world.dispatcher
  pulled := {agent | (D.pulls agent).isSome = true}

/-- The agents in the table when the relay has applied the change. -/
def Change.settle (ch : Change) (r : Registry) (pulled : Set AgentId) : Set AgentId :=
  {agent | (agent = ch.agentId ∧ ch.Launches r) ∨ (agent ≠ ch.agentId ∧ agent ∈ pulled)}

namespace ControlView

variable {V W : ControlView} {changes : List Change}

/-- The relay applies the changes. -/
def relay (V : ControlView) (changes : List Change) : ControlView :=
  { V with
    pulled := changes.foldl (fun pulled ch => ch.settle V.dispatcher.registry pulled) V.pulled }

/-- The dispatcher and the relay apply the changes. -/
def apply (V : ControlView) (changes : List Change) : ControlView :=
  relay { V with dispatcher := V.dispatcher.applyChanges changes } changes

/-- The whole operation. -/
def perform (V : ControlView) (o : ServeOutcome) (op : ControlOp) :
    Except ConfigError ControlView :=
  (op.perform V.dispatcher.registry o).map fun (registry, changes) =>
    apply { V with dispatcher := { V.dispatcher with registry } } changes

end ControlView

/-- The agents in the table when the relay has applied the change, at the given stage of which it
is. -/
def RelayStage.settle (ch : Change) (r : Registry) (pulled : Set AgentId) : RelayStage → Set AgentId
  | .begin => ch.settle r pulled
  | .read => {agent | (agent = ch.agentId ∧ r.Enabled ch.agentId) ∨ agent ∈ pulled}
  | .bind _ | .start | .store _ => insert ch.agentId pulled

/-- An update whose loop is stopped starts one if the registration it reads is enabled. -/
theorem RelayStage.read_settle_sdiff (c : AgentConfig) (r : Registry) (pulled : Set AgentId) :
    RelayStage.read.settle (.updated c) r (pulled \ {(Change.updated c).agentId}) =
      (Change.updated c).settle r pulled := by
  ext agent
  by_cases hag : agent = c.agentId
  · simp [RelayStage.settle, Change.settle, Change.Launches, Change.agentId, hag]
  · simp [RelayStage.settle, Change.settle, Change.agentId, hag]

/-- What remains of the effect of an operation at a stage. -/
def RequestStage.finish (o : ServeOutcome) (V : ControlView) :
    RequestStage → Except ConfigError ControlView
  | .registry op => V.perform o op
  | .dispatcher changes => .ok (V.apply changes)
  | .relay [] _ => .ok V
  | .relay (ch :: rest) s =>
    .ok (ControlView.relay
      { V with pulled := s.settle ch V.dispatcher.registry V.pulled } rest)
  | .returned result => result.map fun _ => V

/-- When the relay begins with changes, all of them remain. -/
@[simp] theorem RequestStage.finish_relay_begin (o : ServeOutcome) (V : ControlView)
    (changes : List Change) :
    (RequestStage.relay changes .begin).finish o V = .ok (V.relay changes) := by
  cases changes with
  | nil => rfl
  | cons ch rest => rfl

namespace Change

variable {ch : Change} {r : Registry} {pulled : Set AgentId}

/-- A change that starts a loop puts its agent into the table. -/
theorem settle_of_launches (h : ch.Launches r) : ch.settle r pulled = insert ch.agentId pulled := by
  ext agent
  by_cases hag : agent = ch.agentId
  · simp [settle, hag, h]
  · simp [settle, hag]

/-- A change that starts none takes its agent out of the table. -/
theorem settle_of_not_launches (h : ¬ch.Launches r) :
    ch.settle r pulled = pulled \ {ch.agentId} := by
  ext agent
  by_cases hag : agent = ch.agentId
  · simp [settle, hag, h]
  · simp [settle, hag]

end Change

namespace Daemon

/-- Stopping the loop of an agent takes the agent out of the table. -/
theorem view_stopPull (D : Daemon) (id : AgentId) :
    (D.stopPull id).view = { D.view with pulled := D.view.pulled \ {id} } := by
  unfold view
  rw [world_stopPull, pulls_stopPull]
  congr 1
  ext agent
  by_cases hag : agent = id
  · simp [hag]
  · simp [hag]

/-- Storing a loop puts its agent into the table. -/
theorem view_storePull (D : Daemon) (id : AgentId) (l : ℕ) :
    (D.storePull id l).view = { D.view with pulled := insert id D.view.pulled } := by
  unfold view
  rw [world_storePull]
  congr 1
  ext agent
  by_cases hag : agent = id
  · simp [storePull, hag]
  · simp [storePull, hag]

end Daemon

/-- An access of an operation changes nothing in what the operation amounts to. -/
theorem RequestStage.finish_of_serve {stage stage' : RequestStage} (hbinds : o.bindFails = false)
    (hserve : D.serve o stage = some (D₁, stage')) :
    stage'.finish o D₁.view = stage.finish o D.view := by
  cases Daemon.serves_of_serve hserve with
  | change hperform => simp [finish, ControlView.perform, Daemon.view, hperform, Except.map]
  | refuse hperform => simp [finish, ControlView.perform, Daemon.view, hperform, Except.map]
  | reset => rw [finish_relay_begin]; rfl
  | finish => rfl
  | @launch ch rest c hch =>
    have hlaunch : ch.Launches D.view.dispatcher.registry := by
      rcases hch with rfl | rfl <;> trivial
    simp only [finish, RelayStage.settle, Change.settle_of_launches hlaunch]
  | @rebind ch rest hstarts =>
    obtain ⟨c, rfl⟩ := Daemon.updated_of_serve hserve
    have hset := RelayStage.read_settle_sdiff c D.view.dispatcher.registry D.view.pulled
    rw [Daemon.view_stopPull]
    simp only [finish, hset]
    rfl
  | @halt ch rest hstops =>
    have hnot : ¬ch.Launches D.view.dispatcher.registry := by
      cases ch <;> simp_all [Change.starts, Change.Launches]
    rw [finish_relay_begin, Daemon.view_stopPull]
    simp only [finish, RelayStage.settle, Change.settle_of_not_launches hnot]
  | @read ch rest c hget =>
    have hen : D.view.dispatcher.registry.Enabled ch.agentId := Daemon.enabled_of_serve hserve
    have hset : RelayStage.read.settle ch D.view.dispatcher.registry D.view.pulled =
        insert ch.agentId D.view.pulled := by
      ext agent
      simp [RelayStage.settle, hen]
    simp only [finish, hset]
    rfl
  | @skip ch rest hdis =>
    have hset : RelayStage.read.settle ch D.view.dispatcher.registry D.view.pulled =
        D.view.pulled := by
      ext agent
      have hnot : ¬D.view.dispatcher.registry.Enabled ch.agentId := hdis
      simp [RelayStage.settle, hnot]
    rw [finish_relay_begin]
    simp only [finish, hset]
  | unbound hfails =>
    rw [hbinds] at hfails
    cases hfails
  | bind => rfl
  | spawn => rfl
  | @store ch rest l =>
    rw [finish_relay_begin, Daemon.view_storePull]
    rfl

/-! ## Operations served one after the other -/

/-- The operations arrive one after the other, and each is served to its end with the outcome `o`
and without an error while nothing else happens. -/
inductive Daemon.Served (C : DispatcherConfig) (o : ServeOutcome) :
    Daemon → List ControlOp → Daemon → Prop
  | nil {D : Daemon} : Served C o D [] D
  | cons {D D₁ D₂ D₃ : Daemon} {op : ControlOp} {ops : List ControlOp}
      (hrequest : (daemonSystem C).step D (.request op) = some D₁)
      (hserve : (daemonSystem C).Run (fun _ a => a = .serve D.requests.length o) D₁ D₂)
      (hdone : D₂.requests[D.requests.length]? = some (.returned (.ok ())))
      (hrest : Served C o D₂ ops D₃) : Served C o D (op :: ops) D₃

namespace Daemon

/-- Serving an operation changes nothing in what it amounts to. -/
theorem finish_of_run {r : ℕ} {stage : RequestStage} (hbinds : o.bindFails = false)
    (hstage : D.requests[r]? = some stage)
    (hrun : (daemonSystem C).Run (fun _ a => a = .serve r o) D D') :
    ∃ stage', D'.requests[r]? = some stage' ∧ stage'.finish o D'.view = stage.finish o D.view := by
  refine hrun.invariant
    (I := fun x => ∃ s, x.requests[r]? = some s ∧ s.finish o x.view = stage.finish o D.view)
    ⟨stage, hstage, rfl⟩ ?_
  rintro x a y ⟨s, hs, hfinish⟩ rfl hstep
  obtain ⟨s₀, x₁, s', hs₀, hserve, rfl⟩ := step_serve hstep
  obtain rfl : s = s₀ := Option.some_inj.mp (hs.symm.trans hs₀)
  have hsame := RequestStage.finish_of_serve hbinds hserve
  refine ⟨s', ?_, hsame.trans hfinish⟩
  show (x₁.requests.set r s')[r]? = some s'
  rw [(serves_of_serve hserve).frame.1]
  exact getElem?_set_self_of_mem hs

/-- Operations that are served one after the other have their effects one after the other. -/
theorem Served.foldlM_perform (hbinds : o.bindFails = false) {ops : List ControlOp}
    (h : Served C o D ops D') : ops.foldlM (ControlView.perform · o) D.view = .ok D'.view := by
  induction h with
  | nil => rfl
  | @cons D D₁ D₂ D₃ op ops hrequest hserve hdone hrest ih =>
    have hview : D₁.view = D.view ∧ D₁.requests[D.requests.length]? = some (.registry op) := by
      obtain ⟨-, rfl⟩ := step_request hrequest
      exact ⟨rfl, List.getElem?_concat_length⟩
    obtain ⟨stage, hstage, hfinish⟩ := finish_of_run hbinds hview.2 hserve
    obtain rfl : stage = .returned (.ok ()) := Option.some_inj.mp (hstage.symm.trans hdone)
    have hperform : D.view.perform o op = .ok D₂.view := by
      rw [← hview.1]
      exact hfinish.symm
    rw [List.foldlM_cons, hperform]
    exact ih

end Daemon

/-! ## Operations come to their end -/

/-- How far the relay is from the end of its change. -/
def RelayStage.remaining : RelayStage → ℕ
  | .begin => 4
  | .read => 3
  | .bind _ => 2
  | .start => 1
  | .store _ => 0

/-- Every access of the relay brings it closer to the end of its changes. -/
theorem Serves.relay_decreases {changes : List Change} {s : RelayStage} {stage' : RequestStage}
    (h : Serves D o (.relay changes s) D₁ stage') :
    (∃ result, stage' = .returned result) ∨
      ∃ changes' s', stage' = .relay changes' s' ∧
        changes'.length * 5 + s'.remaining < changes.length * 5 + s.remaining := by
  cases h with
  | finish => exact .inl ⟨_, rfl⟩
  | launch | rebind | halt | read | skip | unbound | bind | spawn | store =>
    refine .inr ⟨_, _, rfl, ?_⟩
    simp only [List.length_cons, RelayStage.remaining]
    omega

namespace Daemon

variable {r : ℕ} {stage stage' : RequestStage}

/-- One access in front of accesses that bring an operation to its end. -/
theorem exists_returned_of_serve (hstage : D.requests[r]? = some stage)
    (hserve : D.serve o stage = some (D₁, stage'))
    (hrest : ∃ D' result, (daemonSystem C).Run (fun _ a => a = .serve r o)
        { D₁ with requests := D₁.requests.set r stage' } D' ∧
      D'.requests = (D₁.requests.set r stage').set r (.returned result)) :
    ∃ D' result, (daemonSystem C).Run (fun _ a => a = .serve r o) D D' ∧
      D'.requests = D.requests.set r (.returned result) := by
  obtain ⟨D', result, hrun, hrequests⟩ := hrest
  have hstep : (daemonSystem C).step D (.serve r o) =
      some { D₁ with requests := D₁.requests.set r stage' } := by
    simp [daemonSystem, step, hstage, hserve]
  refine ⟨D', result, .head rfl hstep hrun, ?_⟩
  rw [hrequests, List.set_set, (serves_of_serve hserve).frame.1]

/-- The relay comes to the end of its changes. -/
theorem exists_returned_of_relay {changes : List Change} {s : RelayStage}
    (hstage : D.requests[r]? = some (.relay changes s)) :
    ∃ D' result, (daemonSystem C).Run (fun _ a => a = .serve r o) D D' ∧
      D'.requests = D.requests.set r (.returned result) := by
  induction hn : changes.length * 5 + s.remaining using Nat.strong_induction_on
    generalizing D changes s with
  | _ n ih =>
    obtain ⟨⟨D₁, stage'⟩, hserve⟩ : ∃ x, D.serve o (.relay changes s) = some x := ⟨_, rfl⟩
    have hserves := serves_of_serve hserve
    have hset : (D₁.requests.set r stage')[r]? = some stage' := by
      rw [hserves.frame.1]
      exact getElem?_set_self_of_mem hstage
    apply exists_returned_of_serve hstage hserve
    rcases hserves.relay_decreases with ⟨result, rfl⟩ | ⟨changes', s', rfl, hlt⟩
    · exact ⟨_, result, .refl, (List.set_set ..).symm⟩
    · exact ih _ (hn ▸ hlt) hset rfl

/-- An operation that is served alone comes to its end. -/
theorem exists_returned (hstage : D.requests[r]? = some stage) :
    ∃ D' result, (daemonSystem C).Run (fun _ a => a = .serve r o) D D' ∧
      D'.requests = D.requests.set r (.returned result) := by
  have hdispatcher : ∀ {D : Daemon} {changes : List Change},
      D.requests[r]? = some (.dispatcher changes) →
      ∃ D' result, (daemonSystem C).Run (fun _ a => a = .serve r o) D D' ∧
        D'.requests = D.requests.set r (.returned result) := by
    intro D changes hstage
    exact exists_returned_of_serve hstage rfl
      (exists_returned_of_relay (getElem?_set_self_of_mem hstage))
  cases stage with
  | registry op =>
    obtain ⟨⟨D₁, stage'⟩, hserve⟩ : ∃ x, D.serve o (.registry op) = some x := by
      simp only [serve]
      split <;> exact ⟨_, rfl⟩
    have hserves := serves_of_serve hserve
    have hset : (D₁.requests.set r stage')[r]? = some stage' := by
      rw [hserves.frame.1]
      exact getElem?_set_self_of_mem hstage
    apply exists_returned_of_serve hstage hserve
    cases hserves with
    | change hperform => exact hdispatcher hset
    | refuse hperform => exact ⟨_, _, .refl, (List.set_set ..).symm⟩
  | dispatcher changes => exact hdispatcher hstage
  | relay changes s => exact exists_returned_of_relay hstage
  | returned result =>
    refine ⟨D, result, .refl, ?_⟩
    obtain ⟨hlt, hget⟩ := List.getElem?_eq_some_iff.mp hstage
    rw [← hget, List.set_getElem_self]

/-- Once the startup is done, operations that arrive one after the other are served exactly if none
of them is refused. -/
theorem exists_served_iff (hready : D.ready = true) (hbinds : o.bindFails = false)
    {ops : List ControlOp} : (∃ D', Served C o D ops D') ↔
      ∃ V, ops.foldlM (ControlView.perform · o) D.view = .ok V := by
  constructor
  · rintro ⟨D', hserved⟩
    exact ⟨_, hserved.foldlM_perform hbinds⟩
  · rintro ⟨V, hfold⟩
    induction ops generalizing D with
    | nil => exact ⟨D, .nil⟩
    | cons op ops ih =>
      rw [List.foldlM_cons] at hfold
      cases hperform : D.view.perform o op with
      | error e =>
        rw [hperform] at hfold
        cases hfold
      | ok V₁ =>
        rw [hperform] at hfold
        have hrequest : (daemonSystem C).step D (.request op) =
            some { D with requests := D.requests ++ [.registry op] } := by
          simp [daemonSystem, step, hready]
        have hstage : (D.requests ++ [.registry op])[D.requests.length]? = some (.registry op) :=
          List.getElem?_concat_length
        obtain ⟨D₂, result, hserve, hrequests⟩ := exists_returned (C := C) (o := o)
          (D := { D with requests := D.requests ++ [.registry op] }) hstage
        have hreturned : D₂.requests[D.requests.length]? = some (.returned result) := by
          rw [hrequests]
          exact getElem?_set_self_of_mem hstage
        obtain ⟨stage', hstage', hfinish⟩ := finish_of_run hbinds hstage hserve
        obtain rfl : stage' = .returned result := Option.some_inj.mp (hstage'.symm.trans hreturned)
        -- the operation succeeds, and its effect is the one performed
        have heffect : result.map (fun _ => D₂.view) = .ok V₁ := hfinish.trans hperform
        cases result with
        | error e => cases heffect
        | ok u =>
          obtain rfl : D₂.view = V₁ := Except.ok.inj heffect
          have hready₂ : D₂.ready = true := by
            unfold ready at hready ⊢
            rw [hrequests]
            cases hlist : D.requests with
            | nil =>
              rw [hlist] at hready
              cases hready
            | cons s rest =>
              rw [hlist] at hready
              exact hready
          obtain ⟨D', hserved⟩ := ih hready₂ hfold
          exact ⟨D', .cons hrequest hserve hreturned hserved⟩

end Daemon

/-! ## Changes applied to a view -/

namespace ControlView

variable {V W : ControlView} {changes : List Change}

/-- What a view shows of an agent: its registration, its state, and whether it is in the table. -/
def of (V : ControlView) (agent : AgentId) : Option AgentConfig × Option AgentState × Prop :=
  (V.dispatcher.registry.get agent, V.dispatcher.states agent, agent ∈ V.pulled)

/-- A change decides alone whether its agent is in the table. -/
theorem overwrites_settle (r : Registry) :
    Overwrites (fun pulled ch => Change.settle ch r pulled) (fun pulled agent => agent ∈ pulled)
      Change.agentId (·.Launches r) := by
  refine ⟨fun pulled ch => ?_, fun pulled ch agent hne => ?_⟩
  · simp [Change.settle]
  · simp [Change.settle, hne]

/-- What changes do to an agent that they do not name. -/
theorem of_apply_of_ne (hnone : ∀ ch ∈ changes, ch.agentId ≠ agent) :
    (V.apply changes).of agent = V.of agent := by
  have hmem : agent ∉ changes.map Change.agentId := by
    intro hmem
    obtain ⟨ch, hch, heq⟩ := List.mem_map.mp hmem
    exact hnone ch hch heq
  have hstates : (V.dispatcher.applyChanges changes).states agent = V.dispatcher.states agent := by
    rw [Dispatcher.states_applyChanges, if_neg hmem]
  have hpulled : (agent ∈ (V.apply changes).pulled) = (agent ∈ V.pulled) :=
    (overwrites_settle _).foldl_kept hnone
  show (_, (V.dispatcher.applyChanges changes).states agent, agent ∈ (V.apply changes).pulled) = _
  rw [hstates, hpulled]
  rfl

/-- What changes do to an agent that one of them names. -/
theorem of_apply (hdistinct : changes.Pairwise fun a b => a.agentId ≠ b.agentId) {ch : Change}
    (hch : ch ∈ changes) : (V.apply changes).of ch.agentId =
      (V.dispatcher.registry.get ch.agentId, none, ch.Launches V.dispatcher.registry) := by
  have hstates : (V.dispatcher.applyChanges changes).states ch.agentId = none := by
    rw [Dispatcher.states_applyChanges, if_pos (List.mem_map_of_mem hch)]
  have hpulled : (ch.agentId ∈ (V.apply changes).pulled) = ch.Launches V.dispatcher.registry :=
    (overwrites_settle _).foldl_written hdistinct hch
  show (_, (V.dispatcher.applyChanges changes).states ch.agentId,
    ch.agentId ∈ (V.apply changes).pulled) = _
  rw [hstates, hpulled]
  rfl

end ControlView

/-! ## Edits -/

/-- An edit of one agent. -/
inductive Edit where
  | create (config : AgentConfig)
  | replace (config : AgentConfig)
  | delete (id : AgentId)

namespace Edit

/-- The agent edited. -/
def agentId : Edit → AgentId
  | .create c | .replace c => c.agentId
  | .delete id => id

/-- The registration after the edit. -/
def entry : Edit → Option AgentConfig
  | .create c | .replace c => some c
  | .delete _ => none

/-- The control operation that makes the edit. -/
def op : Edit → ControlOp
  | .create c => .register c
  | .replace c => .update c
  | .delete id => .unregister id

/-- The change that the control operation applies. -/
def change : Edit → Change
  | .create c => .added c
  | .replace c => .updated c
  | .delete id => .removed id

/-- The registration before the edit is of the kind that the control operation asks for. -/
def Fits (e : Edit) (before : Option AgentConfig) : Prop :=
  match e with
  | .create _ => before = none
  | .replace _ | .delete _ => before.isSome = true

/-- The control operation puts the agent into the table. -/
def Launches : Edit → Prop
  | .create _ => True
  | .replace c => c.enabled = true
  | .delete _ => False

@[simp] theorem agentId_change (e : Edit) : e.change.agentId = e.agentId := by
  cases e <;> rfl

end Edit

/-- The registry `fresh` is `r` with the edits made. -/
structure Registry.Edits (r : Registry) (edits : List Edit) (fresh : Registry) : Prop where
  edited : ∀ e ∈ edits, fresh.get e.agentId = e.entry
  others : ∀ agent, (∀ e ∈ edits, e.agentId ≠ agent) → fresh.get agent = r.get agent

/-- The control operation of an edit makes it and applies its change. -/
theorem Edit.perform_eq_ok {e : Edit} {r r' : Registry} {changes : List Change}
    (h : e.op.perform r o = .ok (r', changes)) :
    e.Fits (r.get e.agentId) ∧ changes = [e.change] ∧ r.Edits [e] r' := by
  have hperforms := ControlOp.performs h
  cases e with
  | create c =>
    cases hperforms with
    | register hnew hvalid =>
      refine ⟨hnew, rfl, ?_, ?_⟩
      · intro e he
        obtain rfl := List.mem_singleton.mp he
        exact Registry.get_insert_self r c hvalid
      · intro agent hne
        exact Registry.get_insert_of_ne hvalid (hne _ (List.mem_singleton_self _)).symm
  | replace c =>
    cases hperforms with
    | update hold hvalid =>
      refine ⟨hold, rfl, ?_, ?_⟩
      · intro e he
        obtain rfl := List.mem_singleton.mp he
        exact Registry.get_insert_self r c hvalid
      · intro agent hne
        exact Registry.get_insert_of_ne hvalid (hne _ (List.mem_singleton_self _)).symm
  | delete id =>
    cases hperforms with
    | unregister hold =>
      refine ⟨hold, rfl, ?_, ?_⟩
      · intro e he
        obtain rfl := List.mem_singleton.mp he
        exact Registry.get_erase_self r id
      · intro agent hne
        exact Registry.get_erase_of_ne (hne _ (List.mem_singleton_self _)).symm

/-- The edits fit the view `V`, and `V'` shows them: an edited agent has its new registration, no
state, and an entry in the table as the edit wants; all others are as they were. -/
structure ControlView.Edited (V : ControlView) (edits : List Edit) (V' : ControlView) : Prop where
  semaphores : V'.dispatcher.semaphores = V.dispatcher.semaphores
  edited : ∀ e ∈ edits, e.Fits (V.dispatcher.registry.get e.agentId) ∧
    V'.of e.agentId = (e.entry, none, e.Launches)
  others : ∀ agent, (∀ e ∈ edits, e.agentId ≠ agent) → V'.of agent = V.of agent

namespace ControlView

variable {V V' V₁ V₂ : ControlView} {e : Edit} {edits : List Edit} {fresh : Registry}

/-- The control operation of an edit has its effect on the view. -/
theorem edited_of_perform (h : V.perform o e.op = .ok V') : V.Edited [e] V' := by
  obtain ⟨⟨r', changes⟩, hop, rfl⟩ : ∃ x, e.op.perform V.dispatcher.registry o = .ok x ∧
      apply { V with dispatcher := { V.dispatcher with registry := x.1 } } x.2 = V' := by
    unfold perform at h
    cases hop : e.op.perform V.dispatcher.registry o with
    | error err =>
      rw [hop] at h
      cases h
    | ok x =>
      rw [hop] at h
      exact ⟨x, rfl, Except.ok.inj h⟩
  obtain ⟨hfits, rfl, hedits⟩ := Edit.perform_eq_ok hop
  refine ⟨rfl, ?_, ?_⟩
  · intro e' he'
    obtain rfl := List.mem_singleton.mp he'
    refine ⟨hfits, ?_⟩
    have hentry := hedits.edited e' (List.mem_singleton_self _)
    have hof := of_apply (V := { V with dispatcher := { V.dispatcher with registry := r' } })
      (List.pairwise_singleton (fun a b => a.agentId ≠ b.agentId) e'.change)
      (List.mem_singleton_self _)
    have hlaunch : e'.change.Launches r' = e'.Launches := by
      cases e' with
      | create c => rfl
      | delete id => rfl
      | replace c =>
        have hget : r'.get c.agentId = some c := hentry
        simp [Edit.change, Change.Launches, Edit.Launches, Registry.Enabled, hget]
    rw [Edit.agentId_change] at hof
    rw [hof, ← hentry, ← hlaunch]
  · intro agent hne
    have hother : e.agentId ≠ agent := hne e (List.mem_singleton_self _)
    rw [of_apply_of_ne]
    · show (r'.get agent, _, _) = _
      rw [hedits.others agent hne]
      rfl
    · intro ch hch
      obtain rfl := List.mem_singleton.mp hch
      rw [Edit.agentId_change]
      exact hother

/-- The edits of different agents have their effects side by side. -/
theorem edited_of_foldlM (hdistinct : edits.Pairwise fun a b => a.agentId ≠ b.agentId)
    (h : (edits.map Edit.op).foldlM (perform · o) V = .ok V') : V.Edited edits V' := by
  induction edits generalizing V with
  | nil =>
    obtain rfl : V = V' := Except.ok.inj h
    refine ⟨rfl, ?_, fun _ _ => rfl⟩
    intro e he
    cases he
  | cons e rest ih =>
    obtain ⟨hhead, hrest⟩ := List.pairwise_cons.mp hdistinct
    rw [List.map_cons, List.foldlM_cons] at h
    cases hperform : V.perform o e.op with
    | error err =>
      rw [hperform] at h
      cases h
    | ok V₁ =>
      rw [hperform] at h
      have hone := edited_of_perform hperform
      have hmany := ih hrest h
      have hself : V₁.of e.agentId = (e.entry, none, e.Launches) :=
        (hone.edited e (List.mem_singleton_self _)).2
      have hkeep : ∀ agent, e.agentId ≠ agent → V₁.of agent = V.of agent := by
        intro agent hne
        apply hone.others
        intro e' he'
        rwa [List.mem_singleton.mp he']
      refine ⟨hmany.semaphores.trans hone.semaphores, ?_, ?_⟩
      · intro e' he'
        rcases List.mem_cons.mp he' with rfl | he'
        · refine ⟨(hone.edited e' (List.mem_singleton_self _)).1, ?_⟩
          rw [hmany.others e'.agentId fun e'' he'' => (hhead e'' he'').symm, hself]
        · obtain ⟨hfits, hof⟩ := hmany.edited e' he'
          refine ⟨?_, hof⟩
          have hget :
              V₁.dispatcher.registry.get e'.agentId = V.dispatcher.registry.get e'.agentId :=
            congrArg Prod.fst (hkeep e'.agentId (hhead e' he'))
          rwa [hget] at hfits
      · intro agent hne
        rw [hmany.others agent fun e' he' => hne e' (List.mem_cons_of_mem e he'),
          hkeep agent (hne e List.mem_cons_self)]

/-- What a reload does to an agent. -/
theorem of_reload (hload : o.load = .ok fresh) (h : V.perform o .reload = .ok V') :
    V'.dispatcher.semaphores = V.dispatcher.semaphores ∧
    ∀ agent, V'.of agent =
      match Registry.diffEntry agent (V.dispatcher.registry.get agent) (fresh.get agent) with
      | some ch => (fresh.get agent, none, ch.Launches fresh)
      | none => (fresh.get agent, V.dispatcher.states agent, agent ∈ V.pulled) := by
  obtain rfl : apply { V with dispatcher := { V.dispatcher with registry := fresh } }
      (V.dispatcher.registry.diff fresh) = V' := by
    simpa [perform, ControlOp.perform, Registry.reload, hload, Except.map] using h
  refine ⟨rfl, fun agent => ?_⟩
  cases hentry : Registry.diffEntry agent (V.dispatcher.registry.get agent) (fresh.get agent) with
  | some ch =>
    obtain rfl : ch.agentId = agent := Registry.agentId_of_diffEntry hentry
    exact of_apply (Registry.diff_pairwise _ _) (Registry.mem_diff_iff.mpr hentry)
  | none =>
    refine of_apply_of_ne ?_
    rintro ch hch rfl
    rw [Registry.mem_diff_iff.mp hch] at hentry
    cases hentry

end ControlView

/-! ## The two ways compared -/

/-- The views show the same registry, the same pulled agents, the same in-flight ids and the same
free slots. -/
structure ControlView.Agrees (V W : ControlView) : Prop where
  registry : V.dispatcher.registry = W.dispatcher.registry
  pulled : V.pulled = W.pulled
  inFlight : V.dispatcher.inFlightIds = W.dispatcher.inFlightIds
  available : V.dispatcher.available = W.dispatcher.available

/-- The agent is as a new registration of the configuration would leave it: nothing is in flight,
all slots are free, and it is pulled if it is enabled. -/
structure ControlView.AsNew (V : ControlView) (c : AgentConfig) : Prop where
  idle : V.dispatcher.inFlightIds c.agentId = ∅
  free : c.enabled = true → V.dispatcher.available c.agentId = c.maxConcurrency.toNat
  pulled : c.agentId ∈ V.pulled ↔ c.enabled = true

namespace ControlView

variable {V V₁ V₂ W : ControlView} {edits : List Edit} {fresh : Registry}

/-- The views agree on the agent. -/
structure AgreesOn (V W : ControlView) (agent : AgentId) : Prop where
  registered : V.dispatcher.registry.get agent = W.dispatcher.registry.get agent
  pulled : agent ∈ V.pulled ↔ agent ∈ W.pulled
  inFlight : V.dispatcher.inFlightIds agent = W.dispatcher.inFlightIds agent
  available : V.dispatcher.available agent = W.dispatcher.available agent

theorem agrees_iff : V.Agrees W ↔ ∀ agent, V.AgreesOn W agent := by
  constructor
  · rintro ⟨hregistry, hpulled, hinFlight, havailable⟩ agent
    exact ⟨by rw [hregistry], by rw [hpulled], by rw [hinFlight], by rw [havailable]⟩
  · intro h
    refine ⟨Registry.ext_get fun agent => (h agent).registered,
      Set.ext fun agent => (h agent).pulled, funext fun agent => (h agent).inFlight,
      funext fun agent => (h agent).available⟩

/-- Views with the same semaphores that show the same of an agent agree on it. -/
theorem agreesOn_of_eq (hsem : V.dispatcher.semaphores = W.dispatcher.semaphores)
    (h : V.of agent = W.of agent) : V.AgreesOn W agent := by
  simp only [of, Prod.mk.injEq] at h
  obtain ⟨hget, hstates, hpulled⟩ := h
  refine ⟨hget, iff_of_eq hpulled, ?_, ?_⟩
  · simp only [Dispatcher.inFlightIds, hstates]
  · simp only [Dispatcher.available_eq, Dispatcher.availablePermits, hget, hstates, hsem]

/-- A view that has reset the agent, and one that only has another configuration, equal to the one
before, agree on the agent if there was nothing to reset. -/
theorem agreesOn_iff_asNew {c old : AgentConfig}
    (hold : V.dispatcher.registry.get c.agentId = some old) (heq : old.partialEq c = true)
    (hsem : V₂.dispatcher.semaphores = V.dispatcher.semaphores)
    (h₁ : V₁.of c.agentId = (some c, none, c.enabled = true))
    (h₂ : V₂.of c.agentId = (some c, V.dispatcher.states c.agentId, c.agentId ∈ V.pulled)) :
    V₁.AgreesOn V₂ c.agentId ↔ V.AsNew c := by
  simp only [of, Prod.mk.injEq] at h₁ h₂
  obtain ⟨hget₁, hstates₁, hpulled₁⟩ := h₁
  obtain ⟨hget₂, hstates₂, hpulled₂⟩ := h₂
  obtain ⟨hmax, hflag⟩ := AgentConfig.eq_of_partialEq heq
  have hin₁ : V₁.dispatcher.inFlightIds c.agentId = ∅ := by
    simp [Dispatcher.inFlightIds, hstates₁]
  have hin₂ : V₂.dispatcher.inFlightIds c.agentId = V.dispatcher.inFlightIds c.agentId := by
    simp only [Dispatcher.inFlightIds, hstates₂]
  have hav₁ : V₁.dispatcher.available c.agentId =
      if c.enabled then c.maxConcurrency.toNat else 0 := by
    simp [Dispatcher.available_eq, hget₁, hstates₁]
  have hav₂ : V₂.dispatcher.available c.agentId = V.dispatcher.available c.agentId := by
    simp [Dispatcher.available_eq, Dispatcher.availablePermits, hget₂, hstates₂, hold, hmax, hflag,
      hsem]
  constructor
  · rintro ⟨-, hpulled, hinFlight, havailable⟩
    refine ⟨?_, fun hen => ?_, ?_⟩
    · rw [← hin₂, ← hinFlight, hin₁]
    · rw [← hav₂, ← havailable, hav₁, if_pos hen]
    · rw [← hpulled₂, ← hpulled, hpulled₁]
  · rintro ⟨hidle, hfree, hpulled⟩
    refine ⟨hget₁.trans hget₂.symm, ?_, ?_, ?_⟩
    · rw [hpulled₁, hpulled₂, hpulled]
    · rw [hin₁, hin₂, hidle]
    · rw [hav₁, hav₂]
      cases hen : c.enabled with
      | true =>
        rw [hfree hen]
        rfl
      | false => simp [Dispatcher.available_eq, hold, hflag, hen]

/-- An agent whose configuration is replaced by an equal one is reset by the control operation and
left alone by the reload. -/
theorem of_replaced (hfresh : V.dispatcher.registry.Edits edits fresh)
    (hedited : V.Edited edits V₁) (hload : o.load = .ok fresh)
    (hreload : V.perform o .reload = .ok V₂) {c old : AgentConfig} (hc : .replace c ∈ edits)
    (hold : V.dispatcher.registry.get c.agentId = some old) (heq : old.partialEq c = true) :
    V₁.of c.agentId = (some c, none, c.enabled = true) ∧
      V₂.of c.agentId = (some c, V.dispatcher.states c.agentId, c.agentId ∈ V.pulled) := by
  refine ⟨(hedited.edited _ hc).2, ?_⟩
  have hget : fresh.get c.agentId = some c := hfresh.edited _ hc
  rw [(of_reload hload hreload).2, hold, hget, Registry.diffEntry_eq_none_iff.mpr heq]

/-- For every other agent the control operations and the reload have the same effect. -/
theorem of_eq_of_not_replaced (hfresh : V.dispatcher.registry.Edits edits fresh)
    (hedited : V.Edited edits V₁) (hload : o.load = .ok fresh)
    (hreload : V.perform o .reload = .ok V₂)
    (hnot : ∀ c old, .replace c ∈ edits → c.agentId = agent →
      V.dispatcher.registry.get agent = some old → old.partialEq c = false) :
    V₁.of agent = V₂.of agent := by
  rw [(of_reload hload hreload).2]
  by_cases hsome : ∃ e ∈ edits, e.agentId = agent
  · obtain ⟨e, he, rfl⟩ := hsome
    obtain ⟨hfits, hshown⟩ := hedited.edited e he
    have hnew : fresh.get e.agentId = e.entry := hfresh.edited e he
    rw [hshown, hnew]
    cases e with
    | create c =>
      have hold : V.dispatcher.registry.get (Edit.create c).agentId = none := hfits
      rw [hold]
      rfl
    | delete id =>
      obtain ⟨old, hold⟩ := Option.isSome_iff_exists.mp hfits
      rw [hold]
      rfl
    | replace c =>
      obtain ⟨old, hold⟩ := Option.isSome_iff_exists.mp hfits
      have hne := hnot c old he rfl hold
      cases hentry : Registry.diffEntry (Edit.replace c).agentId (some old) (some c) with
      | none =>
        rw [Registry.diffEntry_eq_none_iff.mp hentry] at hne
        cases hne
      | some ch =>
        have hget : fresh.get c.agentId = some c := hnew
        have hdiff : Registry.diffEntry c.agentId (V.dispatcher.registry.get c.agentId)
            (fresh.get c.agentId) = some ch := by
          rw [hget, show V.dispatcher.registry.get c.agentId = some old from hold]
          exact hentry
        have hlaunch : (c.enabled = true) = ch.Launches fresh := by
          rw [← Registry.launches_diffEntry hdiff]
          · simp [Registry.Enabled, hget]
          · rintro c' rfl
            have hnone := (Registry.entries_of_added hdiff).1
            exact absurd (hold.symm.trans hnone) (by simp)
        simp only [hold, Edit.entry, Edit.Launches, hentry, hlaunch]
  · have hnone : ∀ e ∈ edits, e.agentId ≠ agent := fun e he heq => hsome ⟨e, he, heq⟩
    rw [hedited.others agent hnone, hfresh.others agent hnone, Registry.diffEntry_self]
    rfl

end ControlView

/-- From any state of the daemon, one control operation for each of a set of edits and one reload
that finds the edited files lead to the same registry, pulled agents, in-flight ids and free slots
if and only if every agent whose configuration is replaced by an equal one has no id in flight, all
its slots free, and a pull loop in the table exactly if it is enabled. -/
theorem agrees_iff_asNew {edits : List Edit} {fresh : Registry}
    (hdistinct : edits.Pairwise fun a b => a.agentId ≠ b.agentId)
    (hfresh : D.registry.Edits edits fresh)
    (hcontrol : Daemon.Served C { load := .ok fresh } D (edits.map Edit.op) D₁)
    (hreload : Daemon.Served C { load := .ok fresh } D [.reload] D₂) :
    D₁.view.Agrees D₂.view ↔ ∀ c old, .replace c ∈ edits → D.registry.get c.agentId = some old →
      old.partialEq c = true → D.view.AsNew c := by
  have hedited : D.view.Edited edits D₁.view :=
    ControlView.edited_of_foldlM hdistinct (hcontrol.foldlM_perform rfl)
  have hperform : D.view.perform { load := .ok fresh } .reload = .ok D₂.view := by
    simpa using hreload.foldlM_perform rfl
  have hfresh' : D.view.dispatcher.registry.Edits edits fresh := hfresh
  have hsem := (ControlView.of_reload rfl hperform).1
  rw [ControlView.agrees_iff]
  constructor
  · intro hagrees c old hc hold heq
    obtain ⟨h₁, h₂⟩ := ControlView.of_replaced hfresh' hedited rfl hperform hc hold heq
    exact (ControlView.agreesOn_iff_asNew hold heq hsem h₁ h₂).mp (hagrees c.agentId)
  · intro hnew agent
    by_cases hreplaced : ∃ c old, .replace c ∈ edits ∧ c.agentId = agent ∧
        D.registry.get agent = some old ∧ old.partialEq c = true
    · obtain ⟨c, old, hc, rfl, hold, heq⟩ := hreplaced
      obtain ⟨h₁, h₂⟩ := ControlView.of_replaced hfresh' hedited rfl hperform hc hold heq
      exact (ControlView.agreesOn_iff_asNew hold heq hsem h₁ h₂).mpr (hnew c old hc hold heq)
    · apply ControlView.agreesOn_of_eq (hedited.semaphores.trans hsem.symm)
      apply ControlView.of_eq_of_not_replaced hfresh' hedited rfl hperform
      intro c old hc hag hold
      rw [← Bool.not_eq_true]
      intro heq
      exact hreplaced ⟨c, old, hc, hag, hold, heq⟩

/-- The operation has succeeded. -/
def RequestStage.succeeded : RequestStage → Bool
  | .returned (.ok ()) => true
  | _ => false

namespace Sample

/-- The operation arrives and makes `n` accesses with the outcome `o`. -/
def serveOne (D : Daemon) (o : ServeOutcome) (op : ControlOp) (n : ℕ) : Option Daemon :=
  ((daemonSystem dispatcherConfig).step D (.request op)).bind fun D₁ =>
    (daemonSystem dispatcherConfig).exec (fun _ _ => True) D₁
      (List.replicate n (.serve D.requests.length o))

theorem served_of_serveOne {op : ControlOp} {n : ℕ} (h : serveOne D o op n = some D')
    (hdone : (D'.requests[D.requests.length]?.any RequestStage.succeeded) = true) :
    Daemon.Served dispatcherConfig o D [op] D' := by
  obtain ⟨D₁, hrequest, hserve⟩ := Option.bind_eq_some_iff.mp h
  refine .cons hrequest (run_of_exec_replicate hserve) ?_ .nil
  obtain ⟨stage, hstage, hsucceeded⟩ := (Option.any_eq_true _ _).mp hdone
  cases stage with
  | returned result =>
    cases result with
    | ok u => exact hstage
    | error e => cases hsucceeded
  | _ => cases hsucceeded

/-- The registry of a configuration has no other agent. -/
theorem get_registry_of_ne {c : AgentConfig} (hne : agent ≠ c.agentId) :
    (registry c).get agent = none := by
  unfold registry
  split
  · rw [Registry.get_insert_of_ne _ hne, Registry.get_empty]
  · exact Registry.get_empty agent

/-- The daemon handles an event of the agent. -/
def handleFirst : List DaemonAction := pullFirst ++ dispatches 0 6

/-- While the daemon handles an event, the configuration of the agent is replaced by `c`, through
the control socket and by a reload. -/
theorem exists_replace {c : AgentConfig} {m n : ℕ} {p : Daemon × Daemon × Daemon → Bool}
    (hc : c.agentId = Sample.agent) (hvalid : (registry c).get Sample.agent = some c)
    (h : (((daemonSystem dispatcherConfig).exec (fun _ _ => True)
        (.start (registry config) .empty fun _ => none) handleFirst).bind fun D =>
      (serveOne D { load := .ok (registry c) } (.update c) m).bind fun D₁ =>
        (serveOne D { load := .ok (registry c) } .reload n).map fun D₂ => (D, D₁, D₂)).any
      (fun x => decide (x.1.registry = registry config) &&
        x.2.1.requests[x.1.requests.length]?.any RequestStage.succeeded &&
        x.2.2.requests[x.1.requests.length]?.any RequestStage.succeeded && p x) = true) :
    ∃ D D₁ D₂, (daemonSystem dispatcherConfig).Run (fun _ _ => True)
        (.start (registry config) .empty fun _ => none) D ∧
      D.registry.Edits [.replace c] (registry c) ∧
      Daemon.Served dispatcherConfig { load := .ok (registry c) } D
        ([Edit.replace c].map Edit.op) D₁ ∧
      Daemon.Served dispatcherConfig { load := .ok (registry c) } D [.reload] D₂ ∧
      p (D, D₁, D₂) = true := by
  obtain ⟨x, hx, hp⟩ := (Option.any_eq_true _ _).mp h
  obtain ⟨D, hD, hx⟩ := Option.bind_eq_some_iff.mp hx
  obtain ⟨D₁, hD₁, hx⟩ := Option.bind_eq_some_iff.mp hx
  obtain ⟨D₂, hD₂, rfl⟩ := Option.map_eq_some_iff.mp hx
  simp only [Bool.and_eq_true] at hp
  obtain ⟨⟨⟨hregistry, hdone₁⟩, hdone₂⟩, hp⟩ := hp
  refine ⟨D, D₁, D₂, run_of_exec hD, ?_, served_of_serveOne hD₁ hdone₁,
    served_of_serveOne hD₂ hdone₂, hp⟩
  rw [of_decide_eq_true hregistry]
  refine ⟨fun e he => ?_, fun agent hne => ?_⟩
  · obtain rfl := List.mem_singleton.mp he
    show (registry c).get c.agentId = some c
    rw [hc]
    exact hvalid
  · have hag : agent ≠ c.agentId := (hne _ (List.mem_singleton_self _)).symm
    rw [get_registry_of_ne hag, get_registry_of_ne]
    rw [hc] at hag
    exact hag

end Sample

/-- The handler of an agent is swapped while an event is handled. -/
theorem agrees_iff_asNew_swap :
    ∃ D D₁ D₂, (daemonSystem Sample.dispatcherConfig).Run (fun _ _ => True)
        (.start (Sample.registry Sample.config) .empty fun _ => none) D ∧
      Daemon.Served Sample.dispatcherConfig
        { load := .ok (Sample.registry (Sample.config 1 true)) } D
        [.update (Sample.config 1 true)] D₁ ∧
      Daemon.Served Sample.dispatcherConfig
        { load := .ok (Sample.registry (Sample.config 1 true)) } D [.reload] D₂ ∧
      D.world.dispatcher.inFlightIds Sample.agent = {"e"} ∧ D₁.view.Agrees D₂.view := by
  obtain ⟨D, D₁, D₂, hrun, hfresh, hcontrol, hreload, hp⟩ :=
    Sample.exists_replace (c := Sample.config 1 true) (m := 8) (n := 8)
      (p := fun x => decide (x.1.registry.get Sample.agent = some Sample.config ∧
        x.1.world.dispatcher.inFlightIds Sample.agent = {"e"})) rfl (by decide +kernel)
      (by decide +kernel)
  obtain ⟨hget, hin⟩ := of_decide_eq_true hp
  refine ⟨D, D₁, D₂, hrun, hcontrol, hreload, hin, ?_⟩
  refine (agrees_iff_asNew (List.pairwise_singleton _ _) hfresh hcontrol hreload).mpr ?_
  intro c old hc hold heq
  obtain rfl : c = Sample.config 1 true := by simpa using hc
  obtain rfl : Sample.config = old := Option.some_inj.mp (hget.symm.trans hold)
  exact absurd heq (by decide)

/-- Replacing a configuration by an equal one while an event is handled discards the in-flight id
when it is done through the control socket, and keeps it when it is done by a reload. -/
theorem control_differs_from_reload :
    ¬∀ (C : DispatcherConfig) (registry fresh : Registry) (dedup : DedupStore)
        (consumers : AgentId → Option Consumer) (D D₁ D₂ : Daemon) (edits : List Edit),
      (daemonSystem C).Run (fun _ _ => True) (.start registry dedup consumers) D →
      (edits.Pairwise fun a b => a.agentId ≠ b.agentId) → D.registry.Edits edits fresh →
      Daemon.Served C { load := .ok fresh } D (edits.map Edit.op) D₁ →
      Daemon.Served C { load := .ok fresh } D [.reload] D₂ → D₁.view.Agrees D₂.view := by
  intro h
  obtain ⟨D, D₁, D₂, hrun, hfresh, hcontrol, hreload, hp⟩ :=
    Sample.exists_replace (c := Sample.config) (m := 8) (n := 3)
      (p := fun x => decide (x.2.1.world.dispatcher.inFlightIds Sample.agent = ∅ ∧
        x.2.2.world.dispatcher.inFlightIds Sample.agent = {"e"})) rfl (by decide +kernel)
      (by decide +kernel)
  obtain ⟨hin₁, hin₂⟩ := of_decide_eq_true hp
  have hagrees := h _ _ _ _ _ D D₁ D₂ [.replace Sample.config] hrun (List.pairwise_singleton _ _)
    hfresh hcontrol hreload
  have hsame : D₁.world.dispatcher.inFlightIds Sample.agent =
      D₂.world.dispatcher.inFlightIds Sample.agent := congrFun hagrees.inFlight Sample.agent
  rw [hin₁, hin₂] at hsame
  exact absurd hsame (by decide)

end Agentd
