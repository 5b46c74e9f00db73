import Agentd.Daemon.Registration

/-!
# Convergence of concurrent control operations

A control operation changes the registry at once, under the mutation lock, and applies the changes
to the dispatcher and the relay afterwards, outside that lock and with a wait at every consumer
bind.  So the relay may apply the changes of several operations in another order than the registry
made them.

What brings the pull loops back in line with the registry is that an operation which leaves an agent
enabled reports a change that starts a loop (`perform_enabled`), and that the relay reads the
registration again for an update.  What can go wrong is a `Disabled` or `Removed` that comes late,
for an agent that is enabled again: it stops a loop that nobody starts any more, unless the change
that enabled the agent is still to be applied (`StopsUnwanted`).
-/

namespace Agentd

open TransitionSystem TaskPool

variable {C : DispatcherConfig} {D D' D₁ : Daemon} {agent : AgentId}

/-! ## What is wanted and what is coming -/

/-- The changes a control operation still has to apply to the relay. -/
def RequestStage.pendingChanges : RequestStage → List Change
  | .dispatcher changes | .relay changes _ => changes
  | _ => []

/-- Some operation still has to apply a change that starts a loop for the agent. -/
def StartPending (requests : List RequestStage) (agent : AgentId) : Prop :=
  ∃ stage ∈ requests, ∃ ch ∈ stage.pendingChanges, ch.starts = true ∧ ch.agentId = agent

/-- The agent of a pull loop, and whether the loop was aborted. -/
def Daemon.loopInfo (D : Daemon) (l : ℕ) : Option (AgentId × Bool) :=
  D.loops[l]?.map fun p => (p.agent, p.aborted)

/-- The table of the relay has a pull loop for the agent that was not aborted. -/
def Daemon.Live (D : Daemon) (agent : AgentId) : Prop :=
  ∃ l, D.pulls agent = some l ∧ D.loopInfo l = some (agent, false)

/-- Inserting an entry enables or disables no other agent. -/
theorem Registry.enabled_insert {r : Registry} {c : AgentConfig} {hvalid : c.validate = .ok ()}
    (h : (r.insert c hvalid).Enabled agent) : r.Enabled agent ∨ c.agentId = agent := by
  by_cases hag : agent = c.agentId
  · exact .inr hag.symm
  · obtain ⟨config, hget, hen⟩ := h
    rw [get_insert_of_ne hvalid hag] at hget
    exact .inl ⟨config, hget, hen⟩

/-- A reload that leaves an agent enabled found it enabled or reports a change that starts a loop
for it. -/
theorem Registry.diff_enabled {old new : Registry} (hen : new.Enabled agent) :
    old.Enabled agent ∨ ∃ ch ∈ old.diff new, ch.starts = true ∧ ch.agentId = agent := by
  obtain ⟨b, hb, hben⟩ := hen
  have hag : b.agentId = agent := agentId_of_get hb
  cases hold : old.get agent with
  | none =>
    have hch : diffEntry agent (old.get agent) (new.get agent) = some (.added b) := by
      rw [hold, hb]
      rfl
    exact .inr ⟨.added b, mem_diff.mpr ⟨agent, hch⟩, rfl, hag⟩
  | some a =>
    cases haen : a.enabled with
    | true => exact .inl ⟨a, hold, haen⟩
    | false =>
      have hch : diffEntry agent (old.get agent) (new.get agent) = some (.enabled b) := by
        rw [hold, hb]
        simp [diffEntry, haen, hben]
      exact .inr ⟨.enabled b, mem_diff.mpr ⟨agent, hch⟩, rfl, hag⟩

/-- A registry operation that leaves an agent enabled found it enabled or reports a change that
starts a loop for it. -/
theorem ControlOp.perform_enabled {op : ControlOp} {r r' : Registry} {o : ServeOutcome}
    {changes : List Change} (h : op.perform r o = .ok (r', changes)) (hen : r'.Enabled agent) :
    r.Enabled agent ∨ ∃ ch ∈ changes, ch.starts = true ∧ ch.agentId = agent := by
  cases op.performs h with
  | register hnew hvalid =>
    exact (Registry.enabled_insert hen).imp_right fun hag => ⟨_, List.mem_cons_self, rfl, hag⟩
  | update hold hvalid =>
    exact (Registry.enabled_insert hen).imp_right fun hag => ⟨_, List.mem_cons_self, rfl, hag⟩
  | @unregister id hold =>
    obtain ⟨config, hget, hen⟩ := hen
    by_cases hag : agent = id
    · simp [hag] at hget
    · rw [Registry.get_erase_of_ne hag] at hget
      exact .inl ⟨config, hget, hen⟩
  | reload hload => exact Registry.diff_enabled hen

/-! ## The table of pull loops -/

/-- The loop a control operation has spawned and not stored yet, with its agent. -/
def RequestStage.newLoop : RequestStage → Option (AgentId × ℕ)
  | .relay changes (.store l) => changes.head?.map fun ch => (ch.agentId, l)
  | _ => none

/-- A loop in the table is a loop of its agent that was not aborted; so is a loop that is still to
be stored, and no two operations store the same one. -/
structure Daemon.Tabled (D : Daemon) : Prop where
  live : ∀ agent l, D.pulls agent = some l → D.loopInfo l = some (agent, false)
  fresh : ∀ stage ∈ D.requests, ∀ agent l, stage.newLoop = some (agent, l) →
    D.loopInfo l = some (agent, false) ∧ D.pulls agent ≠ some l
  exclusive : Exclusive RequestStage.newLoop D.requests

/-- A registered and enabled agent has a live pull loop, or a change that starts one is still to be
applied. -/
def Daemon.Wanted (D : Daemon) : Prop :=
  ∀ agent, D.registry.Enabled agent → D.Live agent ∨ StartPending D.requests agent

/-- Updating a loop without touching its agent or its abort is no news for the table. -/
theorem Daemon.loopInfo_set {l : ℕ} {p p' : PullLoop} (hp : D.loops[l]? = some p)
    (hagent : p'.agent = p.agent) (haborted : p'.aborted = p.aborted) (k : ℕ) :
    ((D.loops.set l p')[k]?.map fun p => (p.agent, p.aborted)) = D.loopInfo k := by
  by_cases hk : k = l
  · subst hk
    simp [loopInfo, getElem?_set_self_of_mem hp, hp, hagent, haborted]
  · simp [loopInfo, List.getElem?_set_ne (Ne.symm hk)]

/-- Aborting one loop leaves the others as they are. -/
theorem Daemon.loopInfo_abort_of_ne {l k : ℕ} (hne : k ≠ l) :
    ((D.loops.modify l PullLoop.abort)[k]?.map fun p => (p.agent, p.aborted)) =
      D.loopInfo k := by
  simp [loopInfo, Ne.symm hne]

/-- Stopping the loop of an agent takes it out of the table and leaves the other loops as they
are. -/
theorem Daemon.loopInfo_stopPull {l : ℕ} (hne : D.pulls agent ≠ some l) :
    (D.stopPull agent).loopInfo l = D.loopInfo l := by
  unfold stopPull
  split
  · rename_i l' hl'
    refine loopInfo_abort_of_ne ?_
    rintro rfl
    exact hne hl'
  · rfl

theorem Daemon.pulls_stopPull (D : Daemon) (agent : AgentId) :
    (D.stopPull agent).pulls = Function.update D.pulls agent none := by
  unfold stopPull
  split
  · rfl
  · rename_i hnone
    exact (Function.update_eq_self_iff.mpr hnone.symm).symm

@[simp] theorem Daemon.requests_stopPull (D : Daemon) (agent : AgentId) :
    (D.stopPull agent).requests = D.requests := by
  unfold stopPull
  split <;> rfl

/-- Storing a loop aborts the one it replaces and leaves the others as they are. -/
theorem Daemon.loopInfo_storePull {l k : ℕ} (hne : D.pulls agent ≠ some k) :
    (D.storePull agent l).loopInfo k = D.loopInfo k := by
  cases hold : D.pulls agent with
  | none => simp [storePull, loopInfo, hold]
  | some old =>
    have hk : k ≠ old := by
      rintro rfl
      exact hne hold
    have := loopInfo_abort_of_ne (D := D) hk
    simpa [storePull, loopInfo, hold] using this

namespace Daemon

variable {r : ℕ} {stage stage' : RequestStage} {o : ServeOutcome} {l : ℕ}

/-- No two agents have the same loop in the table. -/
theorem Tabled.pulls_inj (h : D.Tabled) {agent' : AgentId} (ha : D.pulls agent = some l)
    (ha' : D.pulls agent' = some l) : agent = agent' := by
  have hinfo : some (agent, false) = some (agent', false) :=
    (h.live _ _ ha).symm.trans (h.live _ _ ha')
  exact congrArg Prod.fst (Option.some_inj.mp hinfo)

/-- A loop that is still to be stored is not in the table. -/
theorem Tabled.not_mem_pulls (h : D.Tabled) (hs : stage ∈ D.requests)
    (hnew : stage.newLoop = some (agent, l)) (agent' : AgentId) : D.pulls agent' ≠ some l := by
  intro hl
  obtain ⟨hinfo, hne⟩ := h.fresh stage hs agent l hnew
  have heq : some (agent, false) = some (agent', false) := hinfo.symm.trans (h.live _ _ hl)
  obtain rfl : agent = agent' := congrArg Prod.fst (Option.some_inj.mp heq)
  exact hne hl

/-- A loop of the table belongs to an existing loop. -/
theorem Tabled.lt_length (h : D.Tabled) (hl : D.pulls agent = some l) : l < D.loops.length := by
  have hinfo := h.live agent l hl
  obtain ⟨p, hp, -⟩ := Option.map_eq_some_iff.mp hinfo
  exact (List.getElem?_eq_some_iff.mp hp).1

/-- An operation that ends up with no loop to store keeps the table well formed when loops only
leave the table and no loop outside is aborted. -/
theorem Tabled.set (h : D.Tabled) (hreq : D₁.requests = D.requests)
    (hnew : stage'.newLoop = none)
    (hpulls : ∀ agent l, D₁.pulls agent = some l →
      D.pulls agent = some l ∧ D₁.loopInfo l = D.loopInfo l)
    (hinfo : ∀ l, (∀ agent, D.pulls agent ≠ some l) → D₁.loopInfo l = D.loopInfo l) :
    ({ D₁ with requests := D₁.requests.set r stage' } : Daemon).Tabled where
  live agent l hl := by
    obtain ⟨hold, hsame⟩ := hpulls agent l hl
    exact hsame.trans (h.live agent l hold)
  fresh s hs agent l hl := by
    rw [hreq] at hs
    rcases List.mem_or_eq_of_mem_set hs with hs | rfl
    · have hout := h.not_mem_pulls hs hl
      refine ⟨(hinfo l hout).trans (h.fresh s hs agent l hl).1, ?_⟩
      intro hl'
      exact hout agent (hpulls agent l hl').1
    · rw [hnew] at hl
      cases hl
  exclusive := by
    rw [hreq]
    exact h.exclusive.set_give hnew

/-- An access that leaves the table and the loops alone. -/
theorem Tabled.set_keep (h : D.Tabled) (hreq : D₁.requests = D.requests)
    (hnew : stage'.newLoop = none) (hpulls : D₁.pulls = D.pulls)
    (hloops : D₁.loops = D.loops) :
    ({ D₁ with requests := D₁.requests.set r stage' } : Daemon).Tabled := by
  have hinfo : ∀ l, D₁.loopInfo l = D.loopInfo l := by
    intro l
    simp only [loopInfo, hloops]
  refine h.set hreq hnew ?_ fun l _ => hinfo l
  intro agent l hl
  rw [hpulls] at hl
  exact ⟨hl, hinfo l⟩

/-- An access that stops the loop of an agent. -/
theorem Tabled.set_stopPull (h : D.Tabled) (hnew : stage'.newLoop = none) (id : AgentId) :
    ({ D.stopPull id with requests := (D.stopPull id).requests.set r stage' } : Daemon).Tabled := by
  refine h.set (requests_stopPull D id) hnew ?_ fun l hout => loopInfo_stopPull (hout id)
  intro agent l hl
  rw [pulls_stopPull] at hl
  have hne : agent ≠ id := by
    rintro rfl
    simp at hl
  rw [Function.update_of_ne hne] at hl
  refine ⟨hl, loopInfo_stopPull ?_⟩
  intro hid
  exact hne (h.pulls_inj hl hid)

/-- An access that spawns a loop. -/
theorem Tabled.set_spawn (h : D.Tabled) {ch : Change} {rest : List Change} :
    ({ D with
      loops := D.loops ++ [⟨ch.agentId, .free, false, false⟩]
      requests := D.requests.set r (.relay (ch :: rest) (.store D.loops.length)) } :
        Daemon).Tabled where
  live agent l hl := by
    have hinfo := h.live agent l hl
    obtain ⟨p, hp, heq⟩ := Option.map_eq_some_iff.mp hinfo
    simp only [loopInfo, getElem?_append_of_some hp, Option.map_some, heq]
  fresh s hs agent l hl := by
    rcases List.mem_or_eq_of_mem_set hs with hs | rfl
    · obtain ⟨hinfo, hne⟩ := h.fresh s hs agent l hl
      obtain ⟨p, hp, heq⟩ := Option.map_eq_some_iff.mp hinfo
      refine ⟨?_, hne⟩
      simp only [loopInfo, getElem?_append_of_some hp, Option.map_some, heq]
    · obtain ⟨rfl, rfl⟩ : ch.agentId = agent ∧ D.loops.length = l := by
        simpa [RequestStage.newLoop] using hl
      refine ⟨by simp [loopInfo], ?_⟩
      intro hl'
      have hlt := h.lt_length hl'
      omega
  exclusive := by
    refine h.exclusive.set_take rfl ?_
    rintro ⟨i, s, hs, hnew⟩
    obtain ⟨hinfo, -⟩ := h.fresh s (List.mem_of_getElem? hs) _ _ hnew
    simp [loopInfo] at hinfo

/-- An access that stores a loop. -/
theorem Tabled.set_store (h : D.Tabled) {ch : Change} {rest : List Change}
    (hr : D.requests[r]? = some (.relay (ch :: rest) (.store l))) :
    ({ D.storePull ch.agentId l with
      requests := (D.storePull ch.agentId l).requests.set r (.relay rest .begin) } :
        Daemon).Tabled := by
  have hmem := List.mem_of_getElem? hr
  have hout := h.not_mem_pulls hmem rfl
  have hnew : D.loopInfo l = some (ch.agentId, false) := (h.fresh _ hmem _ _ rfl).1
  have hsame : ∀ k, D.pulls ch.agentId ≠ some k →
      (D.storePull ch.agentId l).loopInfo k = D.loopInfo k := fun _ => loopInfo_storePull
  constructor
  · intro agent k hk
    by_cases hag : agent = ch.agentId
    · subst hag
      obtain rfl : l = k := by simpa [storePull] using hk
      exact (hsame l (hout _)).trans hnew
    · have hold : D.pulls agent = some k := by simpa [storePull, hag] using hk
      refine (hsame k ?_).trans (h.live agent k hold)
      intro hid
      exact hag (h.pulls_inj hold hid)
  · intro s hs agent k hk
    obtain ⟨j, hj⟩ := List.mem_iff_getElem?.mp hs
    rcases getElem?_set_cases hj with ⟨-, rfl⟩ | ⟨hjr, hj⟩
    · cases hk
    · have hs' := List.mem_of_getElem? hj
      have hout' := h.not_mem_pulls hs' hk
      refine ⟨(hsame k (hout' _)).trans (h.fresh s hs' agent k hk).1, ?_⟩
      intro hpulls
      by_cases hag : agent = ch.agentId
      · subst hag
        obtain rfl : l = k := by simpa [storePull] using hpulls
        exact hjr (h.exclusive j r s _ _ hj hr hk rfl)
      · refine hout' agent ?_
        simpa [storePull, hag] using hpulls
  · exact h.exclusive.set_give rfl

/-- An access of a control operation keeps the table well formed. -/
theorem Tabled.serve (h : D.Tabled) (hr : D.requests[r]? = some stage)
    (hserve : Serves D o stage D₁ stage') :
    ({ D₁ with requests := D₁.requests.set r stage' } : Daemon).Tabled := by
  cases hserve with
  | rebind | halt => exact h.set_stopPull rfl _
  | spawn => exact h.set_spawn
  | store => exact h.set_store hr
  | _ => exact h.set_keep rfl rfl rfl rfl

/-! ## Wanted agents -/

/-- A loop that is live stays so when the loop of another agent is stopped. -/
theorem Live.stopPull (h : D.Live agent) (htab : D.Tabled) {id : AgentId} (hne : agent ≠ id) :
    (D.stopPull id).Live agent := by
  obtain ⟨l, hl, hinfo⟩ := h
  refine ⟨l, ?_, ?_⟩
  · rw [pulls_stopPull, Function.update_of_ne hne]
    exact hl
  · rw [loopInfo_stopPull fun hid => hne (htab.pulls_inj hl hid)]
    exact hinfo

/-- A loop that is live stays so when a loop of another agent is stored. -/
theorem Live.storePull (h : D.Live agent) (htab : D.Tabled) {id : AgentId} (hne : agent ≠ id) :
    (D.storePull id l).Live agent := by
  obtain ⟨k, hk, hinfo⟩ := h
  refine ⟨k, by simpa [Daemon.storePull, hne] using hk, ?_⟩
  rw [loopInfo_storePull fun hid => hne (htab.pulls_inj hk hid)]
  exact hinfo

/-- A loop that is live stays so when a loop is spawned. -/
theorem Live.append (h : D.Live agent) (p : PullLoop) :
    ({ D with loops := D.loops ++ [p] } : Daemon).Live agent := by
  obtain ⟨l, hl, hinfo⟩ := h
  obtain ⟨p', hp, heq⟩ := Option.map_eq_some_iff.mp hinfo
  exact ⟨l, hl, by simp only [loopInfo, getElem?_append_of_some hp, Option.map_some, heq]⟩

/-- A stored loop that was not aborted is the live loop of its agent. -/
theorem live_storePull (hinfo : D.loopInfo l = some (agent, false))
    (hne : D.pulls agent ≠ some l) : (D.storePull agent l).Live agent := by
  refine ⟨l, by simp [storePull], ?_⟩
  rw [loopInfo_storePull hne]
  exact hinfo

end Daemon

variable {requests : List RequestStage} {r : ℕ} {stage stage' : RequestStage}

/-- A change stays pending when the operation that makes a step keeps its changes for the agent. -/
theorem StartPending.set (h : StartPending requests agent) (hr : requests[r]? = some stage)
    (hkeep : ∀ ch ∈ stage.pendingChanges, ch.starts = true → ch.agentId = agent →
      ch ∈ stage'.pendingChanges) : StartPending (requests.set r stage') agent := by
  obtain ⟨s, hs, ch, hch, hstarts, hag⟩ := h
  obtain ⟨j, hj⟩ := List.mem_iff_getElem?.mp hs
  by_cases hjr : j = r
  · subst hjr
    obtain rfl : stage = s := Option.some_inj.mp (hr.symm.trans hj)
    have hset := List.mem_of_getElem? (getElem?_set_self_of_mem (y := stage') hr)
    exact ⟨stage', hset, ch, hkeep ch hch hstarts hag, hstarts, hag⟩
  · have hj' : (requests.set r stage')[j]? = some s := by
      rw [List.getElem?_set_ne (Ne.symm hjr)]
      exact hj
    exact ⟨s, List.mem_of_getElem? hj', ch, hch, hstarts, hag⟩

/-- A change an operation has now is pending. -/
theorem StartPending.of_set (hr : requests[r]? = some stage) {ch : Change}
    (hch : ch ∈ stage'.pendingChanges) (hstarts : ch.starts = true) :
    StartPending (requests.set r stage') ch.agentId :=
  ⟨stage', List.mem_of_getElem? (getElem?_set_self_of_mem hr), ch, hch, hstarts, rfl⟩

/-- The agent whose loop the relay is about to stop for good. -/
def RequestStage.stops : RequestStage → Option AgentId
  | .relay (ch :: _) .begin => if ch.starts then none else some ch.agentId
  | _ => none

/-- When the relay is about to apply a `Disabled` or `Removed` to an agent that is registered and
enabled, some operation still has to apply a change that starts a loop for the agent. -/
def Daemon.StopsUnwanted (D : Daemon) : DaemonAction → Prop
  | .serve r _ => ∀ stage ∈ D.requests[r]?, ∀ agent ∈ stage.stops,
      D.registry.Enabled agent → StartPending D.requests agent
  | _ => True

/-- No bind of a consumer fails. -/
def DaemonAction.Binds : DaemonAction → Prop
  | .serve _ o => o.bindFails = false
  | _ => True

namespace Daemon

variable {o : ServeOutcome} {l : ℕ}

/-- The agents wanted after an access are provided for when each of them was wanted before and
keeps what it had, or has a live loop or a pending change now. -/
theorem Wanted.set (h : D.Wanted) (hr : D.requests[r]? = some stage)
    (hreq : D₁.requests = D.requests)
    (hstep : ∀ agent, D₁.registry.Enabled agent →
      (D.registry.Enabled agent ∧ (D.Live agent → D₁.Live agent) ∧
        ∀ ch ∈ stage.pendingChanges, ch.starts = true → ch.agentId = agent →
          ch ∈ stage'.pendingChanges) ∨
      D₁.Live agent ∨ StartPending (D.requests.set r stage') agent) :
    ({ D₁ with requests := D₁.requests.set r stage' } : Daemon).Wanted := by
  intro agent hen
  show D₁.Live agent ∨ StartPending (D₁.requests.set r stage') agent
  rw [hreq]
  rcases hstep agent hen with ⟨hen', hlive, hkeep⟩ | hnow
  · rcases h agent hen' with hbefore | hpending
    · exact .inl (hlive hbefore)
    · exact .inr (hpending.set hr hkeep)
  · exact hnow

/-- An access of a control operation keeps the wanted agents provided for. -/
theorem Wanted.serve (h : D.Wanted) (htab : D.Tabled) (hr : D.requests[r]? = some stage)
    (hserve : Serves D o stage D₁ stage') (hbinds : o.bindFails = false)
    (hstops : ∀ agent ∈ stage.stops, D.registry.Enabled agent → StartPending D.requests agent) :
    ({ D₁ with requests := D₁.requests.set r stage' } : Daemon).Wanted := by
  cases hserve with
  | change hperform =>
    refine h.set hr rfl fun agent hen => ?_
    rcases ControlOp.perform_enabled hperform hen with hen' | ⟨ch, hch, hstarts, rfl⟩
    · exact .inl ⟨hen', id, nofun⟩
    · exact .inr (.inr (.of_set hr hch hstarts))
  | @rebind ch rest hstarts =>
    refine h.set hr (requests_stopPull ..) fun agent hen => ?_
    rw [registry, world_stopPull] at hen
    by_cases hag : agent = ch.agentId
    · subst hag
      exact .inr (.inr (.of_set hr List.mem_cons_self hstarts))
    · exact .inl ⟨hen, fun hlive => Live.stopPull hlive htab hag, fun _ hch _ _ => hch⟩
  | @halt ch rest hstops' =>
    refine h.set hr (requests_stopPull ..) fun agent hen => ?_
    rw [registry, world_stopPull] at hen
    have hrest : ∀ ch' ∈ ch :: rest, ch'.starts = true → ch' ∈ rest := by
      intro ch' hch' hstarts
      rcases List.mem_cons.mp hch' with rfl | hch'
      · rw [hstops'] at hstarts
        cases hstarts
      · exact hch'
    by_cases hag : agent = ch.agentId
    · subst hag
      have hpending : StartPending D.requests ch.agentId :=
        hstops _ (by simp [RequestStage.stops, hstops']) hen
      exact .inr (.inr (hpending.set hr fun ch' hch' hstarts _ => hrest ch' hch' hstarts))
    · refine .inl ⟨hen, fun hlive => Live.stopPull hlive htab hag, ?_⟩
      intro ch' hch' hstarts _
      exact hrest ch' hch' hstarts
  | @skip ch rest hdis =>
    refine h.set hr rfl fun agent hen => .inl ⟨hen, id, ?_⟩
    intro ch' hch' _ hag
    rcases List.mem_cons.mp hch' with rfl | hch'
    · rw [hag] at hdis
      exact absurd hen hdis
    · exact hch'
  | unbound hfails =>
    rw [hbinds] at hfails
    cases hfails
  | spawn =>
    exact h.set hr rfl fun agent hen =>
      .inl ⟨hen, fun hlive => Live.append hlive _, fun _ hch _ _ => hch⟩
  | @store ch rest l =>
    refine h.set hr rfl fun agent hen => ?_
    by_cases hag : agent = ch.agentId
    · subst hag
      obtain ⟨hinfo, hne⟩ := htab.fresh _ (List.mem_of_getElem? hr) ch.agentId l rfl
      exact .inr (.inl (live_storePull hinfo hne))
    · refine .inl ⟨hen, fun hlive => Live.storePull hlive htab hag, ?_⟩
      intro ch' hch' _ hag'
      rcases List.mem_cons.mp hch' with rfl | hch'
      · exact absurd hag'.symm hag
      · exact hch'
  | _ => exact h.set hr rfl fun agent hen => .inl ⟨hen, id, fun _ hch _ _ => hch⟩

/-- A step that is no access of a control operation keeps the registered agents, the table and the
loops in it, and adds at most an operation that has done nothing yet. -/
theorem step_other {a : DaemonAction} (hstep : (daemonSystem C).step D a = some D')
    (ha : a.InService) (hserve : ∀ r o, a ≠ .serve r o) :
    (∀ agent, D'.registry.get agent = D.registry.get agent) ∧ D'.pulls = D.pulls ∧
      (∀ l, D'.loopInfo l = D.loopInfo l) ∧
      (D'.requests = D.requests ∨
        ∃ op, a = .request op ∧ D'.requests = D.requests ++ [.registry op]) := by
  have hget : ∀ agent, D'.registry.get agent = D.registry.get agent := by
    intro agent
    rcases step_world hstep with hsame | ⟨b, hb, hworld⟩
    · rw [registry, hsame]
    · refine World.get_of_spares ?_ hworld
      cases a with
      | serve r o => exact absurd rfl (hserve r o)
      | restart => exact ha.elim
      | pull l move =>
        simp only [worldAction] at hb
        split at hb <;> cases hb <;> trivial
      | _ =>
        cases hb
        try trivial
  have hrestart : ∀ registry now ttl, a ≠ .restart registry now ttl := by
    rintro registry now ttl rfl
    exact ha
  have hreq := step_requests hstep hserve hrestart
  have htable : D'.pulls = D.pulls ∧ ∀ l, D'.loopInfo l = D.loopInfo l := by
    cases a with
    | poll t o =>
      obtain ⟨world, -, rfl⟩ := Option.map_eq_some_iff.mp hstep
      exact ⟨rfl, fun _ => rfl⟩
    | pull l move =>
      obtain ⟨p, D₁, p', hp, htask, rfl⟩ := step_pull hstep
      obtain ⟨hagent, haborted, hrun⟩ := pullTask_cases htask
      obtain ⟨hpulls, hloops⟩ : D₁.pulls = D.pulls ∧ D₁.loops = D.loops := by
        rcases hrun with ⟨rfl, -⟩ | hrun
        · exact ⟨rfl, rfl⟩
        · exact ⟨hrun.relay_eq.1, hrun.relay_eq.2.1⟩
      refine ⟨hpulls, fun k => ?_⟩
      have hinfo := loopInfo_set hp hagent haborted k
      rw [← hloops] at hinfo
      exact hinfo
    | send loop agent sending =>
      obtain ⟨c, c', d, -, -, ⟨-, rfl⟩ | ⟨l, p, stage, -, hp, -, -, rfl⟩⟩ := step_send hstep
      · exact ⟨rfl, fun _ => rfl⟩
      · exact ⟨rfl, loopInfo_set hp rfl rfl⟩
    | settle agent seq =>
      obtain ⟨c, -, -, rfl⟩ := step_settle hstep
      exact ⟨rfl, fun _ => rfl⟩
    | request op =>
      obtain ⟨-, rfl⟩ := step_request hstep
      exact ⟨rfl, fun _ => rfl⟩
    | serve r o => exact absurd rfl (hserve r o)
    | shutdown | stop | join | restart => exact ha.elim
  exact ⟨hget, htable.1, htable.2, hreq⟩

/-- The table stays well formed. -/
theorem Tabled.step (h : D.Tabled) {a : DaemonAction} (ha : a.InService)
    (hstep : (daemonSystem C).step D a = some D') : D'.Tabled := by
  by_cases hserve : ∃ r o, a = .serve r o
  · obtain ⟨r, o, rfl⟩ := hserve
    obtain ⟨stage, D₁, stage', hr, hserve, rfl⟩ := step_serve hstep
    exact h.serve hr (serves_of_serve hserve)
  · have hother : ∀ r o, a ≠ .serve r o := fun r o heq => hserve ⟨r, o, heq⟩
    obtain ⟨-, hpulls, hinfo, hreq⟩ := step_other hstep ha hother
    have hfresh : ∀ s ∈ D'.requests, s ∈ D.requests ∨ s.newLoop = none := by
      intro s hs
      rcases hreq with hreq | ⟨op, -, hreq⟩
      · exact .inl (hreq ▸ hs)
      · rw [hreq] at hs
        refine (List.mem_append.mp hs).imp_right fun hs => ?_
        rw [List.mem_singleton.mp hs]
        rfl
    constructor
    · intro agent l hl
      rw [hpulls] at hl
      exact (hinfo l).trans (h.live agent l hl)
    · intro s hs agent l hl
      rcases hfresh s hs with hs | hnone
      · obtain ⟨hlive, hne⟩ := h.fresh s hs agent l hl
        exact ⟨(hinfo l).trans hlive, hpulls ▸ hne⟩
      · rw [hnone] at hl
        cases hl
    · rcases hreq with hreq | ⟨op, -, hreq⟩
      · rw [hreq]
        exact h.exclusive
      · rw [hreq]
        exact h.exclusive.append rfl

/-- The wanted agents stay provided for. -/
theorem Wanted.step (h : D.Wanted) (htab : D.Tabled) {a : DaemonAction} (ha : a.InService)
    (hbinds : a.Binds) (hstops : D.StopsUnwanted a)
    (hstep : (daemonSystem C).step D a = some D') : D'.Wanted := by
  by_cases hserve : ∃ r o, a = .serve r o
  · obtain ⟨r, o, rfl⟩ := hserve
    obtain ⟨stage, D₁, stage', hr, hserve, rfl⟩ := step_serve hstep
    exact h.serve htab hr (serves_of_serve hserve) hbinds (hstops stage hr)
  · have hother : ∀ r o, a ≠ .serve r o := fun r o heq => hserve ⟨r, o, heq⟩
    obtain ⟨hget, hpulls, hinfo, hreq⟩ := step_other hstep ha hother
    intro agent hen
    have hen' : D.registry.Enabled agent := by
      simpa only [Registry.Enabled, hget] using hen
    rcases h agent hen' with ⟨l, hl, hlive⟩ | ⟨s, hs, hpending⟩
    · exact .inl ⟨l, hpulls ▸ hl, (hinfo l).trans hlive⟩
    · refine .inr ⟨s, ?_, hpending⟩
      rcases hreq with hreq | ⟨op, -, hreq⟩
      · exact hreq ▸ hs
      · rw [hreq]
        exact List.mem_append_left _ hs

theorem Tabled.start (registry : Registry) (dedup : DedupStore)
    (consumers : AgentId → Option Consumer) : (start registry dedup consumers).Tabled where
  live agent l hl := by cases hl
  fresh s hs agent l hl := by
    rw [List.mem_singleton.mp hs] at hl
    cases hl
  exclusive := exclusive_nil.append rfl

/-- The startup has a change for every enabled agent. -/
theorem Wanted.start (registry : Registry) (dedup : DedupStore)
    (consumers : AgentId → Option Consumer) : (start registry dedup consumers).Wanted := by
  rintro agent ⟨config, hget, hen⟩
  have hsnapshot : config ∈ registry.snapshot := Registry.mem_snapshot.mpr ⟨agent, hget⟩
  have hadded : Change.added config ∈
      (registry.snapshot.filter AgentConfig.enabled).map Change.added :=
    List.mem_map_of_mem (List.mem_filter.mpr ⟨hsnapshot, hen⟩)
  exact .inr ⟨startup registry, List.mem_singleton_self _, _, hadded, rfl,
    Registry.agentId_of_get hget⟩

end Daemon

/-- In a run without a shutdown, a crash or a failing bind, in which the relay stops the loop of an
enabled agent only while a change that starts one is pending, every registered and enabled agent
has a live pull loop whenever all control operations have returned. -/
theorem live_of_idle {registry : Registry} {dedup : DedupStore}
    {consumers : AgentId → Option Consumer}
    (hrun : (daemonSystem C).Run (fun D a => a.InService ∧ a.Binds ∧ D.StopsUnwanted a)
      (.start registry dedup consumers) D)
    (hidle : D.Idle) (hen : D.registry.Enabled agent) : D.Live agent := by
  have hinv : D.Tabled ∧ D.Wanted := by
    have htab := Daemon.Tabled.start registry dedup consumers
    have hwanted := Daemon.Wanted.start registry dedup consumers
    refine hrun.invariant (I := fun D => D.Tabled ∧ D.Wanted) ⟨htab, hwanted⟩ ?_
    rintro x a y ⟨htab, hwanted⟩ ⟨hservice, hbinds, hstops⟩ hstep
    exact ⟨htab.step hservice hstep, hwanted.step htab hservice hbinds hstops hstep⟩
  rcases hinv.2 agent hen with hlive | ⟨stage, hstage, ch, hch, -, -⟩
  · exact hlive
  · -- an operation that has returned has nothing to apply
    have hreturned := hidle stage hstage
    cases stage with
    | returned result => cases hch
    | _ => cases hreturned

namespace Sample

/-- The agent is unregistered and registered again, and the relay applies the removal when the
registry has the agent back and before it starts the new loop. -/
def unregisterAndRegister : List DaemonAction :=
  serves 0 5 ++ [.request (.unregister Sample.agent), .request (.register config)] ++ serves 1 1 ++
    serves 2 1 ++ serves 1 3 ++ serves 2 6

/-- The agent is unregistered and registered again, and the relay applies the removal after the
registration has returned. -/
def registerBeforeRemoval : List DaemonAction :=
  serves 0 5 ++ [.request (.unregister Sample.agent), .request (.register config)] ++ serves 1 1 ++
    serves 2 7 ++ serves 1 3

end Sample

instance (r : Registry) (agent : AgentId) : Decidable (r.Enabled agent) :=
  inferInstanceAs (Decidable (∃ config ∈ r.get agent, config.enabled = true))

instance (requests : List RequestStage) (agent : AgentId) :
    Decidable (StartPending requests agent) :=
  inferInstanceAs (Decidable (∃ stage ∈ requests, ∃ ch ∈ stage.pendingChanges,
    ch.starts = true ∧ ch.agentId = agent))

instance : DecidablePred DaemonAction.Binds
  | .serve _ o => inferInstanceAs (Decidable (o.bindFails = false))
  | .poll .. | .pull .. | .send .. | .settle .. | .request _ | .shutdown | .stop _ | .join _
  | .restart .. => inferInstanceAs (Decidable True)

instance (D : Daemon) : DecidablePred D.StopsUnwanted
  | .serve r _ => inferInstanceAs (Decidable (∀ stage ∈ D.requests[r]?, ∀ agent ∈ stage.stops,
      D.registry.Enabled agent → StartPending D.requests agent))
  | .poll .. | .pull .. | .send .. | .settle .. | .request _ | .shutdown | .stop _ | .join _
  | .restart .. => inferInstanceAs (Decidable True)

theorem live_of_idle_unregisterAndRegister :
    ∃ D, (daemonSystem Sample.dispatcherConfig).Run
        (fun D a => a.InService ∧ a.Binds ∧ D.StopsUnwanted a)
        (.start (Sample.registry Sample.config) .empty fun _ => none) D ∧
      D.Idle ∧ D.registry.Enabled Sample.agent ∧ D.Live Sample.agent := by
  obtain ⟨D, hrun, hend⟩ := exists_run_of_exec (daemonSystem Sample.dispatcherConfig)
    (fun D a => a.InService ∧ a.Binds ∧ D.StopsUnwanted a)
    (.start (Sample.registry Sample.config) .empty fun _ => none) Sample.unregisterAndRegister
    (fun D => decide (D.Idle ∧ D.registry.Enabled Sample.agent)) (by decide +kernel)
  obtain ⟨hidle, hen⟩ := of_decide_eq_true hend
  exact ⟨D, hrun, hidle, hen, live_of_idle hrun hidle hen⟩

/-- A registered and enabled agent can be left without a pull loop: an `unregister` whose removal
comes to the relay late stops the loop that a `register` finished in the meantime has started. -/
theorem enabled_agent_left_without_loop :
    ¬∀ (C : DispatcherConfig) (registry : Registry) (dedup : DedupStore)
        (consumers : AgentId → Option Consumer) (D : Daemon) (agent : AgentId),
      (daemonSystem C).Run (fun _ a => a.InService ∧ a.Binds) (.start registry dedup consumers) D →
      D.Idle → D.registry.Enabled agent → D.Live agent := by
  intro h
  obtain ⟨D, hrun, hend⟩ := exists_run_of_exec (daemonSystem Sample.dispatcherConfig)
    (fun _ a => a.InService ∧ a.Binds)
    (.start (Sample.registry Sample.config) .empty fun _ => none) Sample.registerBeforeRemoval
    (fun D => decide (D.Idle ∧ D.registry.Enabled Sample.agent ∧ D.pulls Sample.agent = none))
    (by decide +kernel)
  obtain ⟨hidle, hen, hnone⟩ := of_decide_eq_true hend
  obtain ⟨l, hl, -⟩ := h _ _ _ _ D Sample.agent hrun hidle hen
  rw [hnone] at hl
  cases hl

end Agentd
