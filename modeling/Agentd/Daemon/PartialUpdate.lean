import Agentd.Daemon.Steps

/-!
# Partial updates from the command line

`agentdctl update` changes some fields of an agent: it lists the registered agents, merges its flags
into the configuration found and sends the whole of it back as an update.  Both requests are served
by the daemon, and other requests may be served between them.

`Ctl` has two invocations for one agent.  An invocation is overwritten when the other one has listed
the configuration before the update and sends it back after.  With flags for different fields this
is harmless exactly when the configuration listed had the values already (`both_hold_iff`).
-/

namespace Agentd

open TransitionSystem

/-- The flags of `agentdctl update`. -/
structure UpdateFlags where
  handler : Option PathBuf := none
  maxConcurrency : Option UInt32 := none
  cwd : Option PathBuf := none
  enable : Bool := false
  disable : Bool := false
  /-- `conflicts_with`. -/
  conflict : (enable && disable) = false := by decide

namespace UpdateFlags

/-- The flags merged over a configuration. -/
def merge (f : UpdateFlags) (current : AgentConfig) : AgentConfig :=
  { current with
    handler := f.handler.getD current.handler
    maxConcurrency := f.maxConcurrency.getD current.maxConcurrency
    workingDirectory := f.cwd.or current.workingDirectory
    enabled := if f.enable || f.disable then f.enable else current.enabled }

/-- The configuration has the values of the flags. -/
structure Holds (f : UpdateFlags) (c : AgentConfig) : Prop where
  handler : ∀ path ∈ f.handler, c.handler = path
  maxConcurrency : ∀ n ∈ f.maxConcurrency, c.maxConcurrency = n
  cwd : ∀ path ∈ f.cwd, c.workingDirectory = some path
  enable : f.enable = true → c.enabled = true
  disable : f.disable = true → c.enabled = false

/-- No field is set by both. -/
structure Disjoint (f g : UpdateFlags) : Prop where
  handler : f.handler = none ∨ g.handler = none
  maxConcurrency : f.maxConcurrency = none ∨ g.maxConcurrency = none
  cwd : f.cwd = none ∨ g.cwd = none
  enabled : (f.enable || f.disable) = false ∨ (g.enable || g.disable) = false

variable {f g : UpdateFlags} {c : AgentConfig}

@[simp] theorem agentId_merge (f : UpdateFlags) (c : AgentConfig) :
    (f.merge c).agentId = c.agentId := rfl

theorem Disjoint.symm (h : f.Disjoint g) : g.Disjoint f :=
  ⟨h.handler.symm, h.maxConcurrency.symm, h.cwd.symm, h.enabled.symm⟩

/-- A merged configuration has the values of the flags. -/
theorem holds_merge (f : UpdateFlags) (c : AgentConfig) : f.Holds (f.merge c) := by
  constructor
  · intro path hpath
    rw [Option.mem_def] at hpath
    simp [merge, hpath]
  · intro n hn
    rw [Option.mem_def] at hn
    simp [merge, hn]
  · intro path hpath
    rw [Option.mem_def] at hpath
    simp [merge, hpath]
  · intro henable
    simp [merge, henable]
  · intro hdisable
    have hconflict := f.conflict
    rw [hdisable, Bool.and_true] at hconflict
    simp [merge, hdisable, hconflict]

/-- Merging flags for other fields does not matter. -/
theorem holds_merge_iff (h : f.Disjoint g) : f.Holds (g.merge c) ↔ f.Holds c := by
  have hhandler : (∀ path ∈ f.handler, (g.merge c).handler = path) ↔
      ∀ path ∈ f.handler, c.handler = path := by
    rcases h.handler with hnone | hnone <;> simp [merge, hnone]
  have hlimit : (∀ n ∈ f.maxConcurrency, (g.merge c).maxConcurrency = n) ↔
      ∀ n ∈ f.maxConcurrency, c.maxConcurrency = n := by
    rcases h.maxConcurrency with hnone | hnone <;> simp [merge, hnone]
  have hcwd : (∀ path ∈ f.cwd, (g.merge c).workingDirectory = some path) ↔
      ∀ path ∈ f.cwd, c.workingDirectory = some path := by
    rcases h.cwd with hnone | hnone <;> simp [merge, hnone]
  have henabled : (f.enable || f.disable) = true → (g.merge c).enabled = c.enabled := by
    intro hset
    rcases h.enabled with hnone | hnone
    · rw [hset] at hnone
      cases hnone
    · simp [merge, hnone]
  constructor
  · intro hf
    refine ⟨hhandler.mp hf.handler, hlimit.mp hf.maxConcurrency, hcwd.mp hf.cwd, ?_, ?_⟩
    · intro hon
      rw [← henabled (by simp [hon]), hf.enable hon]
    · intro hoff
      rw [← henabled (by simp [hoff]), hf.disable hoff]
  · intro hf
    refine ⟨hhandler.mpr hf.handler, hlimit.mpr hf.maxConcurrency, hcwd.mpr hf.cwd, ?_, ?_⟩
    · intro hon
      rw [henabled (by simp [hon]), hf.enable hon]
    · intro hoff
      rw [henabled (by simp [hoff]), hf.disable hoff]

instance (f : UpdateFlags) (c : AgentConfig) : Decidable (f.Holds c) :=
  decidable_of_iff
    ((∀ path ∈ f.handler, c.handler = path) ∧ (∀ n ∈ f.maxConcurrency, c.maxConcurrency = n) ∧
      (∀ path ∈ f.cwd, c.workingDirectory = some path) ∧ (f.enable = true → c.enabled = true) ∧
      (f.disable = true → c.enabled = false))
    ⟨fun h => ⟨h.1, h.2.1, h.2.2.1, h.2.2.2.1, h.2.2.2.2⟩,
      fun h => ⟨h.handler, h.maxConcurrency, h.cwd, h.enable, h.disable⟩⟩

end UpdateFlags

/-- The agent that the command line looks for in the answer to `List` is the registered one. -/
theorem Registry.find?_snapshot (r : Registry) (agent : AgentId) :
    (r.snapshot.find? fun a => a.agentId.asStr == agent.asStr) = r.get agent := by
  have hid : ∀ c ∈ r.snapshot, c.agentId.asStr = agent.asStr → r.get agent = some c := by
    intro c hmem hsame
    obtain ⟨id, hget⟩ := mem_snapshot.mp hmem
    obtain rfl : c.agentId = id := agentId_of_get hget
    rwa [← AgentId.raw_injective hsame]
  cases hfind : r.snapshot.find? fun a => a.agentId.asStr == agent.asStr with
  | some c =>
    have hsame : c.agentId.asStr = agent.asStr := by simpa using List.find?_some hfind
    exact (hid c (List.mem_of_find?_eq_some hfind) hsame).symm
  | none =>
    cases hget : r.get agent with
    | none => rfl
    | some c =>
      have hmem : c ∈ r.snapshot := mem_snapshot.mpr ⟨agent, hget⟩
      have hnot := List.find?_eq_none.mp hfind c hmem
      simp [agentId_of_get hget] at hnot

/-! ## Two invocations -/

/-- The position of an invocation. -/
inductive UpdateStage where
  /-- Send `List`. -/
  | list
  /-- The agent was found in the answer; send `Update` with the flags merged. -/
  | listed (current : AgentConfig)
  | exited (success : Bool)
  deriving DecidableEq

/-- What the environment decides about a request. -/
structure RpcOutcome where
  /-- The request reaches the daemon. -/
  arrives : Bool := true
  serve : ServeOutcome := {}
  /-- The response is read. -/
  answered : Bool := true

/-- The registry of the daemon, and the two invocations. -/
structure Ctl where
  registry : Registry
  stage : Bool → UpdateStage

namespace Ctl

/-- Both invocations are about to start. -/
def start (registry : Registry) : Ctl := ⟨registry, fun _ => .list⟩

/-- One request of an invocation of `update` with the given id and flags. -/
def request (id : String) (flags : UpdateFlags) (registry : Registry) (o : RpcOutcome) :
    UpdateStage → Option (Registry × UpdateStage)
  | .list =>
    if o.arrives && o.answered then
      match registry.snapshot.find? fun a => a.agentId.asStr == id with
      | some current => some (registry, .listed current)
      | none => some (registry, .exited false)
    else some (registry, .exited false)
  | .listed current =>
    if o.arrives then
      match (ControlOp.update (flags.merge current)).perform registry o.serve with
      | .ok (registry', _) => some (registry', .exited o.answered)
      | .error _ => some (registry, .exited false)
    else some (registry, .exited false)
  | .exited _ => none

/-- The next request of the invocation `i`. -/
def step (id : String) (flags : Bool → UpdateFlags) (w : Ctl) (a : Bool × RpcOutcome) :
    Option Ctl :=
  (request id (flags a.1) w.registry a.2 (w.stage a.1)).map fun (registry, stage) =>
    ⟨registry, Function.update w.stage a.1 stage⟩

/-- Both invocations exited with success. -/
def Succeeded (w : Ctl) : Prop := ∀ i, w.stage i = .exited true

end Ctl

/-- Two invocations for one agent under every interleaving of their requests. -/
def ctlSystem (id : String) (flags : Bool → UpdateFlags) :
    TransitionSystem Ctl (Bool × RpcOutcome) where
  step := Ctl.step id flags

namespace Ctl

variable {w w' : Ctl} {flags : Bool → UpdateFlags} {agent : AgentId} {i : Bool} {o : RpcOutcome}

/-- What a request can do: the invocation fails, or it lists the registered configuration, or the
configuration it listed is registered with its flags merged. -/
theorem step_cases (h : (ctlSystem agent.asStr flags).step w (i, o) = some w') :
    (w'.registry = w.registry ∧ w'.stage = Function.update w.stage i (.exited false)) ∨
    (∃ current, w.stage i = .list ∧ w.registry.get agent = some current ∧
      w'.registry = w.registry ∧ w'.stage = Function.update w.stage i (.listed current)) ∨
    (∃ current success, w.stage i = .listed current ∧
      w'.registry.get current.agentId = some ((flags i).merge current) ∧
      w'.stage = Function.update w.stage i (.exited success)) := by
  obtain ⟨⟨registry, stage⟩, hreq, rfl⟩ := Option.map_eq_some_iff.mp h
  cases hstage : w.stage i with
  | list =>
    simp only [hstage, request, Registry.find?_snapshot] at hreq
    split at hreq
    · split at hreq
      · rename_i current hget
        cases hreq
        exact .inr (.inl ⟨current, rfl, hget, rfl, rfl⟩)
      · cases hreq
        exact .inl ⟨rfl, rfl⟩
    · cases hreq
      exact .inl ⟨rfl, rfl⟩
  | listed current =>
    simp only [hstage, request] at hreq
    split at hreq
    · split at hreq
      · rename_i registry' changes hperform
        cases hreq
        cases ControlOp.performs hperform with
        | update hold hvalid =>
          exact .inr (.inr ⟨current, o.answered, rfl, Registry.get_insert_self _ _ hvalid, rfl⟩)
      · cases hreq
        exact .inl ⟨rfl, rfl⟩
    · cases hreq
      exact .inl ⟨rfl, rfl⟩
  | exited success =>
    simp only [hstage, request] at hreq
    cases hreq

/-- An update is not sent while the other invocation has listed a configuration without its
values. -/
def Carries (flags : Bool → UpdateFlags) (w : Ctl) (a : Bool × RpcOutcome) : Prop :=
  match w.stage a.1, w.stage (!a.1) with
  | .listed _, .listed current => (flags a.1).Holds current
  | _, _ => True

instance (flags : Bool → UpdateFlags) (w : Ctl) (a : Bool × RpcOutcome) :
    Decidable (w.Carries flags a) :=
  match hi : w.stage a.1, hj : w.stage (!a.1) with
  | .listed _, .listed current =>
    decidable_of_iff ((flags a.1).Holds current) (by simp [Carries, hi, hj])
  | .list, _ => .isTrue (by simp [Carries, hi])
  | .exited _, _ => .isTrue (by simp [Carries, hi])
  | .listed _, .list => .isTrue (by simp [Carries, hi, hj])
  | .listed _, .exited _ => .isTrue (by simp [Carries, hi, hj])

/-- The values of an invocation that succeeded are registered, and the other one does not have
listed a configuration without them. -/
structure Kept (agent : AgentId) (flags : Bool → UpdateFlags) (w : Ctl) : Prop where
  listed : ∀ i current, w.stage i = .listed current → current.agentId = agent ∧
    (w.stage (!i) = .exited true → (flags !i).Holds current)
  registered : ∀ i, w.stage i = .exited true → ∃ c, w.registry.get agent = some c ∧
    (flags i).Holds c

theorem Kept.start (agent : AgentId) (flags : Bool → UpdateFlags) (registry : Registry) :
    Kept agent flags (.start registry) where
  listed i current h := by simp [Ctl.start] at h
  registered i h := by simp [Ctl.start] at h

/-- A request of one invocation leaves the other one where it is. -/
theorem update_stage_other (w : Ctl) (i : Bool) (s : UpdateStage) :
    Function.update w.stage i s (!i) = w.stage (!i) :=
  Function.update_of_ne (by cases i <;> decide) _ _

/-- An update that carries keeps the values of both invocations. -/
theorem Kept.step (h : Kept agent flags w) (hdis : (flags i).Disjoint (flags !i))
    (hok : w.Carries flags (i, o)) (hstep : (ctlSystem agent.asStr flags).step w (i, o) = some w') :
    Kept agent flags w' := by
  rcases step_cases hstep with ⟨hregistry, hstage⟩ | ⟨current, hi, hget, hregistry, hstage⟩ |
    ⟨current, success, hi, hget, hstage⟩
  · -- the invocation fails
    constructor
    · intro j current hj
      rw [hstage] at hj ⊢
      rcases Bool.eq_or_eq_not j i with rfl | rfl
      · simp at hj
      · rw [update_stage_other] at hj
        refine ⟨(h.listed _ _ hj).1, fun hexited => ?_⟩
        simp at hexited
    · intro j hj
      rw [hstage] at hj
      rw [hregistry]
      rcases Bool.eq_or_eq_not j i with rfl | rfl
      · simp at hj
      · rw [update_stage_other] at hj
        exact h.registered _ hj
  · -- the registered configuration is listed
    constructor
    · intro j current' hj
      rw [hstage] at hj ⊢
      rcases Bool.eq_or_eq_not j i with rfl | rfl
      · obtain rfl : current = current' := by simpa using hj
        refine ⟨Registry.agentId_of_get hget, fun hexited => ?_⟩
        rw [update_stage_other] at hexited
        obtain ⟨c, hc, hholds⟩ := h.registered _ hexited
        obtain rfl : current = c := Option.some_inj.mp (hget.symm.trans hc)
        exact hholds
      · rw [update_stage_other] at hj
        refine ⟨(h.listed _ _ hj).1, fun hexited => ?_⟩
        simp at hexited
    · intro j hj
      rw [hstage] at hj
      rw [hregistry]
      rcases Bool.eq_or_eq_not j i with rfl | rfl
      · simp at hj
      · rw [update_stage_other] at hj
        exact h.registered _ hj
  · -- the merged configuration is registered
    obtain ⟨hid, hother⟩ := h.listed i current hi
    rw [hid] at hget
    constructor
    · intro j current' hj
      rw [hstage] at hj ⊢
      rcases Bool.eq_or_eq_not j i with rfl | rfl
      · simp at hj
      · rw [update_stage_other] at hj
        refine ⟨(h.listed _ _ hj).1, fun _ => ?_⟩
        simp only [Carries, hi, hj] at hok
        rwa [Bool.not_not]
    · intro j hj
      rw [hstage] at hj
      rcases Bool.eq_or_eq_not j i with rfl | rfl
      · exact ⟨_, hget, UpdateFlags.holds_merge _ _⟩
      · rw [update_stage_other] at hj
        exact ⟨_, hget, (UpdateFlags.holds_merge_iff hdis.symm).mpr (hother hj)⟩

/-- The values of the invocation `i` are lost, or will be when the other one succeeds. -/
structure Lost (agent : AgentId) (flags : Bool → UpdateFlags) (i : Bool) (w : Ctl) : Prop where
  exited : ∃ success, w.stage i = .exited success
  pending : w.stage (!i) ≠ .list
  listed : ∀ current, w.stage (!i) = .listed current → current.agentId = agent ∧
    ¬(flags i).Holds current
  registered : w.stage (!i) = .exited true → ∃ c, w.registry.get agent = some c ∧
    ¬(flags i).Holds c

/-- Nothing brings lost values back. -/
theorem Lost.step (h : Lost agent flags i w) (hdis : (flags i).Disjoint (flags !i)) {j : Bool}
    (hstep : (ctlSystem agent.asStr flags).step w (j, o) = some w') :
    Lost agent flags i w' := by
  obtain ⟨success, hexited⟩ := h.exited
  rcases Bool.eq_or_eq_not j i with rfl | rfl
  · -- an invocation that has exited sends nothing
    obtain ⟨⟨registry, stage⟩, hreq, -⟩ := Option.map_eq_some_iff.mp hstep
    simp only [hexited, request] at hreq
    cases hreq
  have hkeep : ∀ s, Function.update w.stage (!i) s i = w.stage i := by
    intro s
    have := w.update_stage_other (!i) s
    rwa [Bool.not_not] at this
  rcases step_cases hstep with ⟨-, hstage⟩ | ⟨current, hj, -⟩ |
    ⟨current, success', hj, hget, hstage⟩
  · refine ⟨⟨success, hstage ▸ (hkeep _).trans hexited⟩, ?_, ?_, ?_⟩ <;> simp [hstage]
  · exact absurd hj h.pending
  · obtain ⟨hid, hnot⟩ := h.listed current hj
    rw [hid] at hget
    refine ⟨⟨success, hstage ▸ (hkeep _).trans hexited⟩, ?_, ?_, fun _ => ⟨_, hget, ?_⟩⟩
    · simp [hstage]
    · simp [hstage]
    · rwa [UpdateFlags.holds_merge_iff hdis]

/-- An update that does not carry loses the values of the invocation. -/
theorem Lost.of_not_carries (h : Kept agent flags w) (hnot : ¬w.Carries flags (i, o))
    (hstep : (ctlSystem agent.asStr flags).step w (i, o) = some w') : Lost agent flags i w' := by
  unfold Carries at hnot
  split at hnot
  · rename_i mine current hi hj
    have hid := (h.listed _ _ hj).1
    -- the other invocation stays where it is
    have hlost : ∀ success, w'.stage = Function.update w.stage i (.exited success) →
        Lost agent flags i w' := by
      intro success hstage
      refine ⟨⟨success, by simp [hstage]⟩, ?_, ?_, ?_⟩ <;>
        rw [hstage, update_stage_other, show w.stage (!i) = _ from hj]
      · simp
      · intro current' hcurrent
        obtain rfl : current = current' := by simpa using hcurrent
        exact ⟨hid, hnot⟩
      · simp
    rcases step_cases hstep with ⟨-, hstage⟩ | ⟨current', hlist, -⟩ |
      ⟨current', success, -, -, hstage⟩
    · exact hlost false hstage
    · rw [show w.stage i = _ from hi] at hlist
      cases hlist
    · exact hlost success hstage
  · exact absurd trivial hnot

end Ctl

/-- When two invocations set different fields of an agent and both succeed, the registered
configuration has the values of both exactly if no update was sent while the other invocation had
listed a configuration without its values. -/
theorem both_hold_iff {agent : AgentId} {flags : Bool → UpdateFlags} {registry : Registry}
    {w : Ctl} {as : List (Bool × RpcOutcome)} (hdis : (flags false).Disjoint (flags true))
    (hrun : (ctlSystem agent.asStr flags).exec (fun _ _ => True) (.start registry) as = some w)
    (hsucceeded : w.Succeeded) :
    (∃ c, w.registry.get agent = some c ∧ (flags false).Holds c ∧ (flags true).Holds c) ↔
      (ctlSystem agent.asStr flags).exec (Ctl.Carries flags) (.start registry) as = some w := by
  have hdis' : ∀ i, (flags i).Disjoint (flags !i) := by
    intro i
    cases i with
    | false => exact hdis
    | true => exact hdis.symm
  have hkept : ∀ {v}, (ctlSystem agent.asStr flags).Run (Ctl.Carries flags) (.start registry) v →
      Ctl.Kept agent flags v := fun hrun =>
    hrun.invariant (.start agent flags registry) fun _ a _ h hok hstep =>
      h.step (hdis' a.1) hok hstep
  constructor
  · rintro ⟨c, hget, hfalse, htrue⟩
    have hholds : ∀ i, (flags i).Holds c := by
      intro i
      cases i with
      | false => exact hfalse
      | true => exact htrue
    rcases exec_or_violates (Ctl.Carries flags) hrun with
      hall | ⟨v, a, v', hbefore, -, hnot, hstep, hafter⟩
    · exact hall
    · have hlost : Ctl.Lost agent flags a.1 w :=
        hafter.invariant (.of_not_carries (hkept hbefore) hnot hstep) fun _ _ _ h _ hstep =>
          h.step (hdis' _) hstep
      obtain ⟨c', hget', hnotholds⟩ := hlost.registered (hsucceeded _)
      obtain rfl : c = c' := Option.some_inj.mp (hget.symm.trans hget')
      exact absurd (hholds _) hnotholds
  · intro hcarried
    have hfinal := hkept (run_of_exec hcarried)
    obtain ⟨c, hget, hfalse⟩ := hfinal.registered false (hsucceeded false)
    obtain ⟨c', hget', htrue⟩ := hfinal.registered true (hsucceeded true)
    obtain rfl : c = c' := Option.some_inj.mp (hget.symm.trans hget')
    exact ⟨c, hget, hfalse, htrue⟩

namespace Sample

/-- One invocation swaps the handler, the other one raises the limit. -/
def swapAndRaise : Bool → UpdateFlags
  | false => { handler := some (handler true) }
  | true => { maxConcurrency := some 2 }

theorem swapAndRaise_disjoint : (swapAndRaise false).Disjoint (swapAndRaise true) :=
  ⟨.inr rfl, .inl rfl, .inl rfl, .inl rfl⟩

/-- The invocations send their requests in the given order, without a failure. -/
def requests (order : List Bool) : List (Bool × RpcOutcome) := order.map fun i => (i, {})

/-- Where the invocations end. -/
def afterRequests (order : List Bool) : Option Ctl :=
  (ctlSystem agent.asStr swapAndRaise).exec (fun _ _ => True) (.start (registry config))
    (requests order)

end Sample

theorem both_hold_iff_oneAfterTheOther :
    ∃ w, Sample.afterRequests [false, false, true, true] = some w ∧
      ((∃ c, w.registry.get Sample.agent = some c ∧ (Sample.swapAndRaise false).Holds c ∧
          (Sample.swapAndRaise true).Holds c) ↔
        (ctlSystem Sample.agent.asStr Sample.swapAndRaise).exec (Ctl.Carries Sample.swapAndRaise)
          (.start (Sample.registry Sample.config))
          (Sample.requests [false, false, true, true]) = some w) := by
  obtain ⟨w, hw, hexited⟩ := (Option.any_eq_true
    (fun w => w.stage false == .exited true && w.stage true == .exited true) _).mp
    (show (Sample.afterRequests [false, false, true, true]).any _ = true by decide +kernel)
  simp only [Bool.and_eq_true, beq_iff_eq] at hexited
  refine ⟨w, hw, both_hold_iff Sample.swapAndRaise_disjoint hw fun i => ?_⟩
  cases i with
  | false => exact hexited.1
  | true => exact hexited.2

/-- When both invocations list before they update, the second update undoes the first. -/
theorem update_overwritten :
    ¬∀ (agent : AgentId) (flags : Bool → UpdateFlags) (registry : Registry) (c₀ : AgentConfig)
        (w : Ctl) (as : List (Bool × RpcOutcome)), registry.get agent = some c₀ →
      (flags false).Disjoint (flags true) →
      (ctlSystem agent.asStr flags).exec (fun _ _ => True) (.start registry) as = some w →
      w.Succeeded → ∃ c, w.registry.get agent = some c ∧ (flags false).Holds c ∧
        (flags true).Holds c := by
  intro h
  obtain ⟨w, hw, hend⟩ := (Option.any_eq_true
    (fun w => w.stage false == .exited true && w.stage true == .exited true &&
      w.registry.get Sample.agent == some (Sample.config 2)) _).mp
    (show (Sample.afterRequests [false, true, false, true]).any _ = true by decide +kernel)
  simp only [Bool.and_eq_true, beq_iff_eq] at hend
  obtain ⟨⟨hfalse, htrue⟩, hget⟩ := hend
  have hsucceeded : w.Succeeded := by
    intro i
    cases i with
    | false => exact hfalse
    | true => exact htrue
  obtain ⟨c, hc, hswapped, -⟩ := h Sample.agent Sample.swapAndRaise _ Sample.config w _
    (by decide +kernel) Sample.swapAndRaise_disjoint hw hsucceeded
  obtain rfl : Sample.config 2 = c := Option.some_inj.mp (hget.symm.trans hc)
  exact absurd (hswapped.handler _ rfl) (by decide)

end Agentd
