import Agentd.Daemon.Convergence

/-!
# One operation at a time

What does an operation make of the pull loops when no other one comes in between?  For every change
it applies there is an agent that has a live loop afterwards or none (`Change.Launches`), and the
other agents keep what they had: the operation leads to a set of agents that is known as soon as it
has made its registry step (`LeadsTo`).

After a reload these are the agents it reports a change for that starts a loop, and those that had a
loop and are not in the diff (`Daemon.ReloadTarget`).  An agent whose bind failed and whose file
did not change is in neither set.
-/

namespace Agentd

open TransitionSystem TaskPool

variable {C : DispatcherConfig} {D D' D₁ : Daemon} {agent : AgentId}

/-! ## What becomes of the loops of the agents -/

namespace Daemon

variable {id : AgentId} {l : ℕ}

/-- An agent whose loop is stopped has none. -/
theorem not_live_stopPull (D : Daemon) (id : AgentId) : ¬(D.stopPull id).Live id := by
  rintro ⟨l, hl, -⟩
  rw [pulls_stopPull, Function.update_self] at hl
  cases hl

/-- Stopping a loop does not change which other agents have one. -/
theorem live_stopPull_iff (htab : D.Tabled) (hne : agent ≠ id) :
    (D.stopPull id).Live agent ↔ D.Live agent := by
  constructor
  · rintro ⟨l, hl, -⟩
    rw [pulls_stopPull, Function.update_of_ne hne] at hl
    exact ⟨l, hl, htab.live agent l hl⟩
  · intro hlive
    exact Live.stopPull hlive htab hne

/-- Storing a loop does not change which other agents have one. -/
theorem live_storePull_iff (htab : D.Tabled) (hne : agent ≠ id) :
    (D.storePull id l).Live agent ↔ D.Live agent := by
  constructor
  · rintro ⟨k, hk, -⟩
    have hold : D.pulls agent = some k := by simpa [storePull, hne] using hk
    exact ⟨k, hold, htab.live agent k hold⟩
  · intro hlive
    exact Live.storePull hlive htab hne

/-- Spawning a loop does not change which agents have one. -/
theorem live_append_iff (htab : D.Tabled) (p : PullLoop) :
    ({ D with loops := D.loops ++ [p] } : Daemon).Live agent ↔ D.Live agent := by
  constructor
  · rintro ⟨l, hl, -⟩
    exact ⟨l, hl, htab.live agent l hl⟩
  · intro hlive
    exact Live.append hlive p

end Daemon

/-! ## What an operation leads to -/

/-- The relay starts a pull loop for the change, when it finds the registry `r`. -/
def Change.Launches (r : Registry) : Change → Prop
  | .added _ | .enabled _ => True
  | .updated c => r.Enabled c.agentId
  | .disabled _ | .removed _ => False

/-- The agent whose loop the relay is about to start. -/
def RequestStage.starting : RequestStage → Option AgentId
  | .relay (ch :: _) (.bind _) | .relay (ch :: _) .start | .relay (ch :: _) (.store _) =>
    some ch.agentId
  | _ => none

/-- What the operation still has to do makes `target` the agents with a live loop, if nothing else
interferes. -/
structure RequestStage.LeadsTo (stage : RequestStage) (D : Daemon) (target : AgentId → Prop) :
    Prop where
  distinct : stage.pendingChanges.Pairwise fun a b => a.agentId ≠ b.agentId
  changes : ∀ ch ∈ stage.pendingChanges, (target ch.agentId ↔ ch.Launches D.registry)
  starting : ∀ agent ∈ stage.starting, target agent
  read : ∀ ch rest, stage = .relay (ch :: rest) .read →
    (∃ c, ch = .updated c) ∧ D.pulls ch.agentId = none
  settled : ∀ agent, (∀ ch ∈ stage.pendingChanges, ch.agentId ≠ agent) →
    (D.Live agent ↔ target agent)

/-- The relay reads the registration for an update only. -/
theorem Daemon.updated_of_serve {ch : Change} {rest : List Change} {o : ServeOutcome}
    (h : D.serve o (.relay (ch :: rest) .begin) = some (D₁, .relay (ch :: rest) .read)) :
    ∃ c, ch = .updated c := by
  cases ch with
  | updated c => exact ⟨c, rfl⟩
  | _ => simp [serve, applyRelay] at h

/-- After it has read the registration the relay binds the consumer of an enabled agent only. -/
theorem Daemon.enabled_of_serve {ch : Change} {rest : List Change} {o : ServeOutcome} {n : UInt32}
    (h : D.serve o (.relay (ch :: rest) .read) = some (D₁, .relay (ch :: rest) (.bind n))) :
    D.registry.Enabled ch.agentId := by
  simp only [serve, applyRelay, Option.some.injEq] at h
  split at h
  · rename_i c hget
    split at h
    · rename_i hen
      exact ⟨c, hget, hen⟩
    · cases h
  · cases h

/-- After its registry step an operation leaves the registry alone. -/
theorem Daemon.registry_of_serve {o : ServeOutcome} {stage stage' : RequestStage}
    (hop : ∀ op, stage ≠ .registry op) (h : D.serve o stage = some (D₁, stage')) :
    (∀ op, stage' ≠ .registry op) ∧ D₁.registry = D.registry := by
  cases serves_of_serve h with
  | change => exact absurd rfl (hop _)
  | refuse => exact absurd rfl (hop _)
  | rebind | halt => exact ⟨by simp, by rw [registry, world_stopPull]⟩
  | _ => exact ⟨by simp, rfl⟩

/-- An operation that has returned has nothing to apply. -/
theorem RequestStage.pendingChanges_of_hasReturned {stage : RequestStage}
    (h : stage.hasReturned = true) : stage.pendingChanges = [] := by
  cases stage with
  | returned result => rfl
  | _ => cases h

namespace RequestStage.LeadsTo

variable {target : AgentId → Prop} {ch : Change} {rest : List Change} {s s' : RelayStage}
  {stage stage' : RequestStage} {o : ServeOutcome} {r : ℕ}

/-- An operation that has no change to apply leads to the agents that have a loop. -/
theorem of_nil (hnil : stage.pendingChanges = []) (hlive : ∀ agent, D.Live agent ↔ target agent) :
    stage.LeadsTo D target := by
  have hmem : ∀ ch, ch ∉ stage.pendingChanges := by
    intro ch hch
    rw [hnil] at hch
    cases hch
  refine ⟨?_, ?_, ?_, ?_, fun agent _ => hlive agent⟩
  · rw [hnil]
    exact .nil
  · intro ch hch
    exact absurd hch (hmem ch)
  · intro agent hagent
    cases stage with
    | relay changes s =>
      obtain rfl : changes = [] := hnil
      cases s <;> cases hagent
    | _ => cases hagent
  · rintro ch rest rfl
    exact absurd List.mem_cons_self (hmem ch)

/-- An operation that has made its registry step leads to the agents that the changes start a loop
for and those that have one and are not named. -/
theorem of_dispatcher {changes : List Change}
    (hdistinct : changes.Pairwise fun a b => a.agentId ≠ b.agentId)
    (hchanges : ∀ ch ∈ changes, target ch.agentId ↔ ch.Launches D.registry)
    (hsettled : ∀ agent, (∀ ch ∈ changes, ch.agentId ≠ agent) → (D.Live agent ↔ target agent)) :
    (RequestStage.dispatcher changes).LeadsTo D target where
  distinct := hdistinct
  changes := hchanges
  starting agent hagent := by cases hagent
  read ch rest heq := by cases heq
  settled := hsettled

/-- When there is no change left to apply, the agents with a loop are those it led to. -/
theorem live_iff (h : stage.LeadsTo D target) (hnil : stage.pendingChanges = []) (agent : AgentId) :
    D.Live agent ↔ target agent := by
  refine h.settled agent ?_
  intro ch hch
  rw [hnil] at hch
  cases hch

/-- A step that leaves the registry and the loops of the agents alone. -/
theorem congr (h : stage.LeadsTo D target)
    (hget : ∀ agent, D'.registry.get agent = D.registry.get agent) (hpulls : D'.pulls = D.pulls)
    (hlive : ∀ agent, D'.Live agent ↔ D.Live agent) : stage.LeadsTo D' target where
  distinct := h.distinct
  changes ch hch := by
    rw [h.changes ch hch]
    cases ch <;> simp [Change.Launches, Registry.Enabled, hget]
  starting := h.starting
  read ch rest heq := by
    rw [hpulls]
    exact h.read ch rest heq
  settled agent hnone := (hlive agent).trans (h.settled agent hnone)

/-- The relay goes on with the same change. -/
theorem stay (h : (RequestStage.relay (ch :: rest) s).LeadsTo D target)
    (hworld : D'.world = D.world) (hstart : target ch.agentId)
    (hread : s' ≠ .read) (hother : ∀ agent, agent ≠ ch.agentId → (D'.Live agent ↔ D.Live agent)) :
    (RequestStage.relay (ch :: rest) s').LeadsTo D' target where
  distinct := h.distinct
  changes ch' hch' := by
    rw [Daemon.registry, hworld]
    exact h.changes ch' hch'
  starting agent hagent := by
    cases s' with
    | begin | read => cases hagent
    | bind | start | store =>
      cases hagent
      exact hstart
  read ch' rest' heq := by
    cases heq
    exact absurd rfl hread
  settled agent hnone :=
    (hother agent (hnone ch List.mem_cons_self).symm).trans (h.settled agent hnone)

/-- The relay is done with the change. -/
theorem pop (h : (RequestStage.relay (ch :: rest) s).LeadsTo D target)
    (hworld : D'.world = D.world) (hself : D'.Live ch.agentId ↔ target ch.agentId)
    (hother : ∀ agent, agent ≠ ch.agentId → (D'.Live agent ↔ D.Live agent)) :
    (RequestStage.relay rest .begin).LeadsTo D' target where
  distinct := (List.pairwise_cons.mp h.distinct).2
  changes ch' hch' := by
    rw [Daemon.registry, hworld]
    exact h.changes ch' (List.mem_cons_of_mem ch hch')
  starting agent hagent := by cases rest <;> cases hagent
  read ch' rest' heq := by cases heq
  settled agent hnone := by
    by_cases hag : agent = ch.agentId
    · rw [hag]
      exact hself
    · refine (hother agent hag).trans (h.settled agent ?_)
      intro ch' hch'
      rcases List.mem_cons.mp hch' with rfl | hch'
      · exact Ne.symm hag
      · exact hnone ch' hch'

/-- An access of the operation after its registry step leads on to the same agents. -/
theorem serve (h : stage.LeadsTo D target) (htab : D.Tabled) (hr : D.requests[r]? = some stage)
    (hop : ∀ op, stage ≠ .registry op) (hserve : D.serve o stage = some (D₁, stage'))
    (hbinds : o.bindFails = false) : stage'.LeadsTo D₁ target := by
  cases Daemon.serves_of_serve hserve with
  | change => exact absurd rfl (hop _)
  | refuse => exact absurd rfl (hop _)
  | reset =>
    refine ⟨h.distinct, h.changes, ?_, by simp, h.settled⟩
    intro agent hagent
    rename_i changes
    cases changes <;> cases hagent
  | finish => exact .of_nil rfl (h.live_iff rfl)
  | @launch ch rest c hch =>
    have hlaunch : ch.Launches D.registry := by
      rcases hch with rfl | rfl <;> trivial
    have hstart : target ch.agentId := (h.changes ch List.mem_cons_self).mpr hlaunch
    exact h.stay rfl hstart (by simp) fun _ _ => Iff.rfl
  | @rebind ch rest hstarts =>
    have hupdated := Daemon.updated_of_serve hserve
    refine ⟨h.distinct, ?_, ?_, ?_, ?_⟩
    · rw [Daemon.registry, Daemon.world_stopPull]
      exact h.changes
    · intro agent hagent
      cases hagent
    · intro ch' rest' heq
      cases heq
      refine ⟨hupdated, ?_⟩
      rw [Daemon.pulls_stopPull, Function.update_self]
    · intro agent hnone
      have hne : agent ≠ ch.agentId := (hnone ch List.mem_cons_self).symm
      exact (Daemon.live_stopPull_iff htab hne).trans (h.settled agent hnone)
  | @halt ch rest hstops =>
    have hnot : ¬target ch.agentId := by
      rw [h.changes ch List.mem_cons_self]
      cases ch <;> simp_all [Change.starts, Change.Launches]
    refine h.pop (Daemon.world_stopPull ..) ?_ fun agent hne => Daemon.live_stopPull_iff htab hne
    exact iff_of_false (Daemon.not_live_stopPull D _) hnot
  | @read ch rest c hget =>
    obtain ⟨⟨c', rfl⟩, -⟩ := h.read ch rest rfl
    have hen := Daemon.enabled_of_serve hserve
    have hstart : target (Change.updated c').agentId :=
      (h.changes _ List.mem_cons_self).mpr hen
    exact h.stay rfl hstart (by simp) fun _ _ => Iff.rfl
  | @skip ch rest hdis =>
    obtain ⟨⟨c', rfl⟩, hpulls⟩ := h.read ch rest rfl
    have hnot : ¬target (Change.updated c').agentId := by
      rw [h.changes _ List.mem_cons_self]
      exact hdis
    refine h.pop rfl ?_ fun _ _ => Iff.rfl
    refine iff_of_false ?_ hnot
    rintro ⟨l, hl, -⟩
    rw [hpulls] at hl
    cases hl
  | unbound hfails =>
    rw [hbinds] at hfails
    cases hfails
  | @bind ch rest n =>
    exact h.stay rfl (h.starting _ rfl) (by simp) fun _ _ => Iff.rfl
  | @spawn ch rest =>
    exact h.stay rfl (h.starting _ rfl) (by simp) fun _ _ => Daemon.live_append_iff htab _
  | @store ch rest l =>
    obtain ⟨hinfo, hne⟩ := htab.fresh _ (List.mem_of_getElem? hr) ch.agentId l rfl
    refine h.pop rfl ?_ fun agent hag => Daemon.live_storePull_iff htab hag
    exact iff_of_true (Daemon.live_storePull hinfo hne) (h.starting _ rfl)

end RequestStage.LeadsTo

/-! ## The only operation under way -/

/-- The operation `r` stands at the stage, and all others have returned. -/
structure Daemon.Sole (D : Daemon) (r : ℕ) (stage : RequestStage) : Prop where
  at_stage : D.requests[r]? = some stage
  others : ∀ j s, j ≠ r → D.requests[j]? = some s → s.hasReturned = true

namespace Daemon

variable {r : ℕ} {stage stage' : RequestStage}

/-- When all operations have returned, each of them is the only one that may not have. -/
theorem Idle.sole (h : D.Idle) (hr : D.requests[r]? = some stage) : D.Sole r stage :=
  ⟨hr, fun _ s _ hs => h s (List.mem_of_getElem? hs)⟩

/-- An operation that arrives when all others have returned. -/
theorem Idle.sole_request (h : D.Idle) {op : ControlOp}
    (hstep : (daemonSystem C).step D (.request op) = some D') :
    D'.Sole D.requests.length (.registry op) ∧ D'.world = D.world ∧ D'.pulls = D.pulls ∧
      D'.loops = D.loops := by
  obtain ⟨-, rfl⟩ := step_request hstep
  refine ⟨⟨List.getElem?_concat_length, ?_⟩, rfl, rfl, rfl⟩
  intro j s hj hs
  rcases getElem?_append_cases hs with ⟨hend, -⟩ | hs
  · exact absurd hend hj
  · exact h s (List.mem_of_getElem? hs)

/-- When no further operation arrives, a step is an access of the only operation under way or
leaves the registry and the loops of the agents alone. -/
theorem Sole.step (h : D.Sole r stage) {a : DaemonAction} (ha : a.InService)
    (hreq : ∀ op, a ≠ .request op) (hstep : (daemonSystem C).step D a = some D') :
    (∃ o D₁ stage', a = .serve r o ∧ D.serve o stage = some (D₁, stage') ∧
      D' = { D₁ with requests := D₁.requests.set r stage' } ∧ D'.Sole r stage') ∨
    (D'.Sole r stage ∧ D'.registry = D.registry ∧ D'.pulls = D.pulls ∧
      ∀ agent, D'.Live agent ↔ D.Live agent) := by
  by_cases hserve : ∃ j o, a = .serve j o
  · left
    obtain ⟨j, o, rfl⟩ := hserve
    obtain ⟨s, D₁, stage', hj, hserve, rfl⟩ := step_serve hstep
    by_cases hjr : j = r
    · subst hjr
      obtain rfl : stage = s := Option.some_inj.mp (h.at_stage.symm.trans hj)
      refine ⟨o, D₁, stage', rfl, hserve, rfl, ?_, ?_⟩
      · show (D₁.requests.set j stage')[j]? = some stage'
        rw [(serves_of_serve hserve).frame.1]
        exact getElem?_set_self_of_mem hj
      · intro k s hk hs
        change (D₁.requests.set j stage')[k]? = some s at hs
        rw [(serves_of_serve hserve).frame.1, List.getElem?_set_ne (Ne.symm hk)] at hs
        exact h.others k s hk hs
    · -- an operation that has returned makes no access
      have hreturned := h.others j s hjr hj
      cases s with
      | returned result => cases hserve
      | _ => cases hreturned
  · right
    have hother : ∀ j o, a ≠ .serve j o := fun j o heq => hserve ⟨j, o, heq⟩
    obtain ⟨hget, hpulls, hinfo, hrequests⟩ := step_other hstep ha hother
    have hsame : D'.requests = D.requests := by
      rcases hrequests with hsame | ⟨op, rfl, -⟩
      · exact hsame
      · exact absurd rfl (hreq op)
    refine ⟨⟨hsame ▸ h.at_stage, hsame ▸ h.others⟩, Registry.ext_get hget, hpulls, ?_⟩
    intro agent
    simp only [Live, hpulls, hinfo]

end Daemon

/-! ## One reload -/

namespace Registry

/-- An entry that stays the same contributes nothing to a diff. -/
@[simp] theorem diffEntry_self (id : AgentId) (entry : Option AgentConfig) :
    diffEntry id entry entry = none := by
  cases entry with
  | none => rfl
  | some c => simp [diffEntry]

/-- A diff adds an entry that only the new registry has. -/
theorem entries_of_added {r fresh : Registry} {c : AgentConfig}
    (h : diffEntry agent (r.get agent) (fresh.get agent) = some (.added c)) :
    r.get agent = none ∧ fresh.get agent = some c := by
  cases hold : r.get agent with
  | none =>
    cases hnew : fresh.get agent with
    | none => simp [hold, hnew, diffEntry] at h
    | some b =>
      simp only [hold, hnew, diffEntry, Option.some.injEq, Change.added.injEq] at h
      exact ⟨rfl, congrArg some h⟩
  | some a =>
    cases hnew : fresh.get agent with
    | none => simp [hold, hnew, diffEntry] at h
    | some b =>
      simp only [hold, hnew, diffEntry] at h
      split at h
      · cases hen : b.enabled <;> simp [hen] at h
      · split at h <;> cases h

/-- A reported change starts a loop exactly for an enabled agent, unless it adds a disabled one. -/
theorem launches_diffEntry {old new : Registry} {ch : Change}
    (h : diffEntry agent (old.get agent) (new.get agent) = some ch)
    (hadded : ∀ c, ch = .added c → c.enabled = true) :
    new.Enabled agent ↔ ch.Launches new := by
  have hag := agentId_of_diffEntry h
  cases hnew : new.get agent with
  | none =>
    have hdis : ¬new.Enabled agent := by
      rintro ⟨c, hget, -⟩
      cases hnew.symm.trans hget
    cases hold : old.get agent with
    | none => simp [hold, hnew, diffEntry] at h
    | some a =>
      simp only [hold, hnew, diffEntry, Option.some.injEq] at h
      subst h
      exact iff_of_false hdis id
  | some b =>
    have hen : new.Enabled agent ↔ b.enabled = true := by
      simp [Enabled, hnew]
    cases hold : old.get agent with
    | none =>
      simp only [hold, hnew, diffEntry, Option.some.injEq] at h
      subst h
      exact iff_of_true (hen.mpr (hadded b rfl)) trivial
    | some a =>
      simp only [hold, hnew, diffEntry] at h
      split at h
      · obtain rfl := Option.some_inj.mp h
        rw [hen]
        cases b.enabled <;> simp [Change.Launches]
      · split at h
        · obtain rfl := Option.some_inj.mp h
          simp only [Change.Launches]
          rw [show b.agentId = agent from hag]
        · cases h

/-- An agent that is registered afterwards is reported unless it was registered before with an equal
configuration, which has the same flag. -/
theorem isSome_diffEntry_iff (agent : AgentId) {old : Option AgentConfig} {c : AgentConfig} :
    (diffEntry agent old (some c)).isSome = true ↔
      ∀ a, old = some a → a.partialEq c = false := by
  cases old with
  | none => simp [diffEntry]
  | some a =>
    rw [← Option.not_isNone, Bool.not_eq_true', Option.isNone_eq_false_iff,
      Option.isSome_iff_ne_none, ne_eq, diffEntry_eq_none_iff]
    simp

end Registry

/-- No shutdown; the daemon may crash and start again. -/
def DaemonAction.Unstopped : DaemonAction → Prop
  | .shutdown | .stop _ | .join _ => False
  | _ => True

/-- The daemon goes on in service, no further operation arrives, no bind fails, and the directory
loads as `load`. -/
def DaemonAction.Reloads (load : Except ConfigError Registry) : DaemonAction → Prop
  | .request _ => False
  | .serve _ o => o.bindFails = false ∧ o.load = load
  | a => a.InService

theorem DaemonAction.Reloads.inService {load : Except ConfigError Registry} {a : DaemonAction}
    (h : a.Reloads load) : a.InService := by
  cases a <;> first | exact h | trivial

/-- The table stays well formed, also when the daemon starts again. -/
theorem Daemon.Tabled.step_unstopped (h : D.Tabled) {a : DaemonAction} (ha : a.Unstopped)
    (hstep : (daemonSystem C).step D a = some D') : D'.Tabled := by
  cases a with
  | restart registry now ttl =>
    obtain ⟨world, -, rfl⟩ := Daemon.step_restart hstep
    refine ⟨?_, ?_, exclusive_nil.append rfl⟩
    · intro agent l hl
      cases hl
    · intro s hs agent l hl
      rw [List.mem_singleton.mp hs] at hl
      cases hl
  | shutdown | stop | join => exact ha.elim
  | _ =>
    refine h.step ?_ hstep
    trivial

/-- The agents with a live loop after a reload that finds `fresh`. -/
def Daemon.ReloadTarget (D : Daemon) (fresh : Registry) (agent : AgentId) : Prop :=
  match Registry.diffEntry agent (D.registry.get agent) (fresh.get agent) with
  | some ch => ch.Launches fresh
  | none => D.Live agent

/-- An enabled agent has a live loop afterwards if it had one before or is reported. -/
theorem Daemon.reloadTarget_iff {fresh : Registry} {c : AgentConfig}
    (hget : fresh.get agent = some c) (hen : c.enabled = true) :
    D.ReloadTarget fresh agent ↔
      D.Live agent ∨ ∀ old, D.registry.get agent = some old → old.partialEq c = false := by
  rw [ReloadTarget, ← Registry.isSome_diffEntry_iff agent, ← hget]
  cases hentry : Registry.diffEntry agent (D.registry.get agent) (fresh.get agent) with
  | none => simp
  | some ch =>
    have hlaunch : ch.Launches fresh := by
      by_cases hadded : ∃ c, ch = .added c
      · obtain ⟨c, rfl⟩ := hadded
        trivial
      · refine (Registry.launches_diffEntry hentry ?_).mp ⟨c, hget, hen⟩
        intro c hc
        exact absurd ⟨c, hc⟩ hadded
    exact iff_of_true hlaunch (.inr rfl)

/-- While the reload is the only operation under way: it has not made its registry step yet, or it
leads to its target. -/
def Daemon.Reloading (D : Daemon) (fresh : Registry) (r : ℕ) (D' : Daemon) : Prop :=
  ∃ stage, D'.Sole r stage ∧
    ((stage = .registry .reload ∧ D'.registry = D.registry ∧
        ∀ agent, D'.Live agent ↔ D.Live agent) ∨
      ((∀ op, stage ≠ .registry op) ∧ D'.registry = fresh ∧
        stage.LeadsTo D' (D.ReloadTarget fresh)))

namespace Daemon

variable {load : Except ConfigError Registry} {fresh : Registry} {r : ℕ} {o : ServeOutcome}
  {stage' : RequestStage}

/-- The registry step of a reload sets the target. -/
theorem leadsTo_of_reload (hfresh : load.toOption.getD D.registry = fresh) (hload : o.load = load)
    (hregistry : D'.registry = D.registry) (hlive : ∀ agent, D'.Live agent ↔ D.Live agent)
    (hserve : D'.serve o (.registry .reload) = some (D₁, stage')) :
    (∀ op, stage' ≠ .registry op) ∧ D₁.registry = fresh ∧
      stage'.LeadsTo D₁ (D.ReloadTarget fresh) := by
  simp only [serve, ControlOp.perform, Registry.reload, hload] at hserve
  cases load with
  | error e =>
    cases hserve
    obtain rfl : D.registry = fresh := hfresh
    refine ⟨by simp, hregistry, .of_nil rfl ?_⟩
    intro agent
    simp only [ReloadTarget, Registry.diffEntry_self]
    exact hlive agent
  | ok fresh' =>
    cases hserve
    obtain rfl : fresh' = fresh := hfresh
    refine ⟨by simp, rfl, .of_dispatcher (Registry.diff_pairwise _ _) ?_ ?_⟩
    · intro ch hch
      have hentry := Registry.mem_diff_iff.mp hch
      rw [hregistry] at hentry
      simp only [ReloadTarget, hentry]
    · intro agent hnone
      have hentry : Registry.diffEntry agent (D.registry.get agent) (fresh'.get agent) = none := by
        rw [Option.eq_none_iff_forall_not_mem]
        intro ch hch
        have hmem : ch ∈ D'.registry.diff fresh' := by
          rw [hregistry]
          exact Registry.mem_diff.mpr ⟨agent, hch⟩
        exact hnone ch hmem (Registry.agentId_of_diffEntry hch)
      simp only [ReloadTarget, hentry]
      exact hlive agent

/-- The reload goes on as long as no further operation arrives. -/
theorem Reloading.step (h : D.Reloading fresh r D')
    (hfresh : load.toOption.getD D.registry = fresh) (htab : D'.Tabled) {a : DaemonAction}
    (ha : a.Reloads load) {D'' : Daemon} (hstep : (daemonSystem C).step D' a = some D'') :
    D.Reloading fresh r D'' := by
  obtain ⟨stage, hsole, hcases⟩ := h
  have hreq : ∀ op, a ≠ .request op := by
    rintro op rfl
    exact ha
  rcases hsole.step ha.inService hreq hstep with
    ⟨o, D₁, stage', rfl, hserve, rfl, hsole'⟩ | ⟨hsole', hregistry, hpulls, hlive⟩
  · obtain ⟨hbinds, hload⟩ := ha
    obtain ⟨hop', hregistry', hleads'⟩ : (∀ op, stage' ≠ .registry op) ∧ D₁.registry = fresh ∧
        stage'.LeadsTo D₁ (D.ReloadTarget fresh) := by
      rcases hcases with ⟨rfl, hregistry, hlive⟩ | ⟨hop, hregistry, hleads⟩
      · exact leadsTo_of_reload hfresh hload hregistry hlive hserve
      · have hleads' := hleads.serve htab hsole.at_stage hop hserve hbinds
        obtain ⟨hop', hsame⟩ := registry_of_serve hop hserve
        exact ⟨hop', hsame.trans hregistry, hleads'⟩
    exact ⟨stage', hsole', .inr ⟨hop', hregistry',
      hleads'.congr (fun _ => rfl) rfl fun _ => Iff.rfl⟩⟩
  · refine ⟨stage, hsole', ?_⟩
    rcases hcases with ⟨rfl, hregistry', hlive'⟩ | ⟨hop, hregistry', hleads⟩
    · exact .inl ⟨rfl, hregistry.trans hregistry', fun agent => (hlive agent).trans (hlive' agent)⟩
    · exact .inr ⟨hop, hregistry.trans hregistry',
        hleads.congr (fun agent => by rw [hregistry]) hpulls hlive⟩

end Daemon

/-- After one reload, which finds the registry `fresh` and comes when all operations have returned,
every registered and enabled agent has a live pull loop if and only if each of those that `fresh`
has had one before, or was not registered before with an equal configuration: it was not registered
at all, or its flag or another field was not the same. -/
theorem live_after_reload_iff {registry fresh : Registry} {dedup : DedupStore}
    {consumers : AgentId → Option Consumer} {load : Except ConfigError Registry}
    (hrun : (daemonSystem C).Run (fun _ a => a.Unstopped) (.start registry dedup consumers) D)
    (hidle : D.Idle) (hrequest : (daemonSystem C).step D (.request .reload) = some D₁)
    (hreload : (daemonSystem C).Run (fun _ a => a.Reloads load) D₁ D') (hdone : D'.Idle)
    (hfresh : load.toOption.getD D.registry = fresh) :
    (∀ agent, D'.registry.Enabled agent → D'.Live agent) ↔
      ∀ agent c, fresh.get agent = some c → c.enabled = true → D.Live agent ∨
        ∀ old, D.registry.get agent = some old → old.partialEq c = false := by
  have htab : D.Tabled := hrun.invariant (Daemon.Tabled.start registry dedup consumers)
    fun _ _ _ h ha hstep => h.step_unstopped ha hstep
  have hservice : (DaemonAction.request .reload).InService := trivial
  have htab₁ : D₁.Tabled := htab.step hservice hrequest
  obtain ⟨hsole, hworld, hpulls, hloops⟩ := hidle.sole_request hrequest
  have hstart : D.Reloading fresh D.requests.length D₁ := by
    refine ⟨_, hsole, .inl ⟨rfl, by rw [Daemon.registry, hworld], fun agent => ?_⟩⟩
    simp only [Daemon.Live, Daemon.loopInfo, hpulls, hloops]
  have hinv : D'.Tabled ∧ D.Reloading fresh D.requests.length D' := by
    refine hreload.invariant (I := fun x => x.Tabled ∧ D.Reloading fresh D.requests.length x)
      ⟨htab₁, hstart⟩ ?_
    rintro x a y ⟨htab, hreloading⟩ ha hstep
    exact ⟨htab.step ha.inService hstep, hreloading.step hfresh htab ha hstep⟩
  obtain ⟨stage, hsole', hcases⟩ := hinv.2
  have hreturned := hdone stage (List.mem_of_getElem? hsole'.at_stage)
  rcases hcases with ⟨rfl, -⟩ | ⟨-, hregistry, hleads⟩
  · cases hreturned
  have hlive := hleads.live_iff (RequestStage.pendingChanges_of_hasReturned hreturned)
  rw [hregistry]
  refine forall_congr' fun agent => ⟨fun h c hget hen => ?_, ?_⟩
  · exact (Daemon.reloadTarget_iff hget hen).mp ((hlive agent).mp (h ⟨c, hget, hen⟩))
  · rintro h ⟨c, hget, hen⟩
    exact (hlive agent).mpr ((Daemon.reloadTarget_iff hget hen).mpr (h c hget hen))

instance : DecidablePred DaemonAction.Unstopped
  | .shutdown | .stop _ | .join _ => inferInstanceAs (Decidable False)
  | .poll .. | .pull .. | .send .. | .settle .. | .request _ | .serve .. | .restart .. =>
    inferInstanceAs (Decidable True)

namespace Sample

/-- The daemon starts, and the bind of the agent's consumer fails. -/
def failToBind : List DaemonAction := [.serve 0 {}, .serve 0 { bindFails := true }, .serve 0 {}]

/-- The reload `r`, which loads the configuration, makes `n` accesses. -/
def reloads (r n : ℕ) (config : AgentConfig) : List DaemonAction :=
  List.replicate n (.serve r { load := .ok (registry config) })

/-- A sequence of accesses of reloads that load the configuration. -/
theorem run_reloads {r n : ℕ} {config : AgentConfig}
    (h : (daemonSystem C).exec (fun _ _ => True) D (reloads r n config) = some D') :
    (daemonSystem C).Run (fun _ a => a.Reloads (.ok (registry config))) D D' := by
  refine (run_of_exec_replicate h).mono ?_
  rintro x a rfl
  exact ⟨rfl, rfl⟩

/-- A failed bind at the startup, and a reload that loads the configuration. -/
theorem exists_failToBind_reload {n : ℕ} {c : AgentConfig} {p : Daemon → Bool}
    (h : (((daemonSystem dispatcherConfig).exec (fun _ a => a.Unstopped)
      (.start (registry config) .empty fun _ => none) failToBind).bind fun D =>
        if D.Idle then
          ((daemonSystem dispatcherConfig).step D (.request .reload)).bind fun D₁ =>
            (daemonSystem dispatcherConfig).exec (fun _ _ => True) D₁ (reloads 1 n c)
        else none).any (fun D => decide D.Idle && p D) = true) :
    ∃ D D₁ D', (daemonSystem dispatcherConfig).Run (fun _ a => a.Unstopped)
        (.start (registry config) .empty fun _ => none) D ∧ D.Idle ∧
      (daemonSystem dispatcherConfig).step D (.request .reload) = some D₁ ∧
      (daemonSystem dispatcherConfig).Run (fun _ a => a.Reloads (.ok (registry c))) D₁ D' ∧
      D'.Idle ∧ p D' = true := by
  obtain ⟨D', hend, hp⟩ := (Option.any_eq_true _ _).mp h
  obtain ⟨D, hD, hrest⟩ := Option.bind_eq_some_iff.mp hend
  split at hrest
  · rename_i hidle
    obtain ⟨D₁, hD₁, hreload⟩ := Option.bind_eq_some_iff.mp hrest
    obtain ⟨hdone, hp⟩ := Bool.and_eq_true_iff.mp hp
    exact ⟨D, D₁, D', run_of_exec hD, hidle, hD₁, run_reloads hreload,
      of_decide_eq_true hdone, hp⟩
  · cases hrest

end Sample

/-- The handler of the agent was changed on disk after the failed bind. -/
theorem live_after_reload_iff_changedOnDisk :
    ∃ D D₁ D', (daemonSystem Sample.dispatcherConfig).Run (fun _ a => a.Unstopped)
        (.start (Sample.registry Sample.config) .empty fun _ => none) D ∧ D.Idle ∧
      (daemonSystem Sample.dispatcherConfig).step D (.request .reload) = some D₁ ∧
      (daemonSystem Sample.dispatcherConfig).Run
        (fun _ a => a.Reloads (.ok (Sample.registry (Sample.config 1 true)))) D₁ D' ∧ D'.Idle ∧
      ((∀ agent, D'.registry.Enabled agent → D'.Live agent) ↔
        ∀ agent c, (Sample.registry (Sample.config 1 true)).get agent = some c →
          c.enabled = true → D.Live agent ∨
            ∀ old, D.registry.get agent = some old → old.partialEq c = false) ∧
      (D'.pulls Sample.agent).isSome = true := by
  obtain ⟨D, D₁, D', hrun, hidle, hrequest, hreload, hdone, hlive⟩ :=
    Sample.exists_failToBind_reload (n := 8) (c := Sample.config 1 true)
      (p := fun D => (D.pulls Sample.agent).isSome) (by decide +kernel)
  exact ⟨D, D₁, D', hrun, hidle, hrequest, hreload, hdone,
    live_after_reload_iff hrun hidle hrequest hreload hdone rfl, hlive⟩

/-- A reload does not bring back the pull loop of an agent whose bind failed and whose file is the
same as before. -/
theorem reload_leaves_agent_without_loop :
    ¬∀ (C : DispatcherConfig) (registry fresh : Registry) (dedup : DedupStore)
        (consumers : AgentId → Option Consumer) (D D₁ D' : Daemon),
      (daemonSystem C).Run (fun _ a => a.Unstopped) (.start registry dedup consumers) D →
      D.Idle → (daemonSystem C).step D (.request .reload) = some D₁ →
      (daemonSystem C).Run (fun _ a => a.Reloads (.ok fresh)) D₁ D' → D'.Idle →
      ∀ agent, D'.registry.Enabled agent → D'.Live agent := by
  intro h
  obtain ⟨D, D₁, D', hrun, hidle, hrequest, hreload, hdone, hend⟩ :=
    Sample.exists_failToBind_reload (n := 3) (c := Sample.config)
      (p := fun D => decide (D.registry.Enabled Sample.agent ∧ D.pulls Sample.agent = none))
      (by decide +kernel)
  obtain ⟨hen, hnone⟩ := of_decide_eq_true hend
  obtain ⟨l, hl, -⟩ := h _ _ _ _ _ D D₁ D' hrun hidle hrequest hreload hdone Sample.agent hen
  rw [hnone] at hl
  cases hl

end Agentd
