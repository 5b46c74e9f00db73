import Agentd.Daemon.Convergence

/-!
# Every pull loop is accounted for

A pull loop that was not aborted is in the relay's table, or the operation that spawned it has still
to store it there, or a shutdown has taken it out of the table and is about to abort it
(`Accounted`).  No loop is forgotten: what the table, the operations and the shutdown hold between
them are all the loops that may still pull.
-/

namespace Agentd

open TransitionSystem TaskPool

variable {C : DispatcherConfig} {D D' D₁ : Daemon} {agent : AgentId}

/-- Some pull loop of the agent was not aborted. -/
def Daemon.Pulled (D : Daemon) (agent : AgentId) : Prop :=
  ∃ l, D.loopInfo l = some (agent, false)

/-- A loop that was not aborted is in the table, is still to be stored there, or is about to be
aborted by the shutdown. -/
def Daemon.Accounted (D : Daemon) : Prop :=
  ∀ l agent, D.loopInfo l = some (agent, false) →
    D.pulls agent = some l ∨ (agent, l) ∈ Owned RequestStage.newLoop D.requests ∨
      ∃ ls, D.shutdown = some (.abort ls) ∧ l ∈ ls

/-- An operation under way has the handle of the loop: it is about to store it, or the shutdown is
about to abort it. -/
def Daemon.Held (D : Daemon) (agent : AgentId) (l : ℕ) : Prop :=
  (agent, l) ∈ Owned RequestStage.newLoop D.requests ∨
    ∃ ls, D.shutdown = some (.abort ls) ∧ l ∈ ls

/-- A loop of the agent that was not aborted and is not in the table. -/
def Daemon.Stray (D : Daemon) (agent : AgentId) (l : ℕ) : Prop :=
  D.loopInfo l = some (agent, false) ∧ D.pulls agent ≠ some l

namespace Daemon

variable {r : ℕ} {stage stage' : RequestStage} {o : ServeOutcome} {l k : ℕ}

/-- A loop that is not aborted when another one has been was not aborted before. -/
theorem loopInfo_of_abort
    (h : ((D.loops.modify l PullLoop.abort)[k]?.map fun p => (p.agent, p.aborted)) =
      some (agent, false)) : k ≠ l ∧ D.loopInfo k = some (agent, false) := by
  by_cases hk : k = l
  · subst hk
    simp [PullLoop.abort] at h
  · rw [loopInfo_abort_of_ne hk] at h
    exact ⟨hk, h⟩

/-- A loop that is not aborted when the loop of an agent has been stopped is not the one stopped. -/
theorem loopInfo_of_stopPull {id : AgentId} (h : (D.stopPull id).loopInfo l = some (agent, false)) :
    D.pulls id ≠ some l ∧ D.loopInfo l = some (agent, false) := by
  unfold stopPull at h
  split at h
  · rename_i l' hl'
    obtain ⟨hne, hinfo⟩ := loopInfo_of_abort h
    refine ⟨?_, hinfo⟩
    rw [hl']
    simpa using Ne.symm hne
  · rename_i hnone
    exact ⟨by simp [hnone], h⟩

/-- A loop that is not aborted when another one has been stored is not the one replaced. -/
theorem loopInfo_of_storePull {id : AgentId}
    (h : (D.storePull id k).loopInfo l = some (agent, false)) :
    D.pulls id ≠ some l ∧ D.loopInfo l = some (agent, false) := by
  cases hold : D.pulls id with
  | none => exact ⟨by simp, by simpa [storePull, loopInfo, hold] using h⟩
  | some old =>
    have habort : ((D.loops.modify old PullLoop.abort)[l]?.map
        fun p => (p.agent, p.aborted)) = some (agent, false) := by
      simpa [storePull, loopInfo, hold] using h
    obtain ⟨hne, hinfo⟩ := loopInfo_of_abort habort
    exact ⟨by simpa using Ne.symm hne, hinfo⟩

/-- A new loop is the last one. -/
theorem loopInfo_of_append {p : PullLoop}
    (h : ({ D with loops := D.loops ++ [p] } : Daemon).loopInfo l = some (agent, false)) :
    (l = D.loops.length ∧ p.agent = agent) ∨ D.loopInfo l = some (agent, false) := by
  obtain ⟨q, hq, heq⟩ := Option.map_eq_some_iff.mp h
  rcases getElem?_append_cases hq with ⟨hl, rfl⟩ | hq
  · exact .inl ⟨hl, congrArg Prod.fst heq⟩
  · exact .inr (Option.map_eq_some_iff.mpr ⟨q, hq, heq⟩)

/-- Stopping a loop takes none out of the table that is not aborted. -/
theorem stray_of_stopPull {id : AgentId} (h : (D.stopPull id).Stray agent l) :
    D.Stray agent l := by
  obtain ⟨hinfo, hpulls⟩ := h
  obtain ⟨hne, hinfo⟩ := loopInfo_of_stopPull hinfo
  refine ⟨hinfo, fun htable => hpulls ?_⟩
  rw [pulls_stopPull, Function.update_of_ne]
  · exact htable
  · rintro rfl
    exact hne htable

/-- Storing a loop takes none out of the table that is not aborted, and puts it there. -/
theorem stray_of_storePull {id : AgentId} (h : (D.storePull id k).Stray agent l) :
    D.Stray agent l ∧ (id, k) ≠ (agent, l) := by
  obtain ⟨hinfo, hpulls⟩ := h
  obtain ⟨hne, hinfo⟩ := loopInfo_of_storePull hinfo
  refine ⟨⟨hinfo, fun htable => hpulls ?_⟩, ?_⟩
  · have hag : agent ≠ id := by
      rintro rfl
      exact hne htable
    simpa [storePull, hag] using htable
  · rintro heq
    cases heq
    exact hpulls (by simp [storePull])

/-- A loop that has just been spawned is the only one that becomes a stray. -/
theorem stray_of_append {p : PullLoop}
    (h : ({ D with loops := D.loops ++ [p] } : Daemon).Stray agent l) :
    (l = D.loops.length ∧ p.agent = agent) ∨ D.Stray agent l :=
  (loopInfo_of_append h.1).imp_right fun hinfo => ⟨hinfo, h.2⟩

/-- A stray after an access of a control operation that is not left to it was one before, and was
not left to it. -/
theorem stray_of_serves (h : Serves D o stage D₁ stage') (hstray : D₁.Stray agent l)
    (hnew : stage'.newLoop ≠ some (agent, l)) :
    D.Stray agent l ∧ stage.newLoop ≠ some (agent, l) := by
  cases h with
  | rebind | halt => exact ⟨stray_of_stopPull hstray, nofun⟩
  | spawn =>
    rcases stray_of_append hstray with ⟨rfl, rfl⟩ | hstray
    · exact absurd rfl hnew
    · exact ⟨hstray, nofun⟩
  | store =>
    obtain ⟨hstray, hne⟩ := stray_of_storePull hstray
    exact ⟨hstray, fun heq => hne (Option.some_inj.mp heq)⟩
  | @finish s => cases s <;> exact ⟨hstray, nofun⟩
  | _ => exact ⟨hstray, nofun⟩

/-- A drain of the table finds the loops in it. -/
theorem mem_handles (hlive : D.loopInfo l = some (agent, false))
    (htable : D.pulls agent = some l) : l ∈ D.handles := by
  obtain ⟨p, hp, heq⟩ := Option.map_eq_some_iff.mp hlive
  obtain rfl : p.agent = agent := congrArg Prod.fst heq
  refine List.mem_filter.mpr ⟨List.mem_range.mpr (List.getElem?_eq_some_iff.mp hp).1, ?_⟩
  change D.loops[l]? = some p at hp
  simp [hp, htable]

/-- A stray after an access of the shutdown that is not left to it was one before, and was not left
to it. -/
theorem stray_of_stop {pick : ℕ} (h : D.stop pick = some D') (hstray : D'.Stray agent l)
    (hleft : ∀ ls, D'.shutdown = some (.abort ls) → l ∉ ls) :
    D.Stray agent l ∧ ∀ ls, D.shutdown = some (.abort ls) → l ∉ ls := by
  cases stops_of_stop h with
  | drain hdrain =>
    obtain ⟨hinfo, -⟩ := hstray
    have hinfo : D.loopInfo l = some (agent, false) := hinfo
    refine ⟨⟨hinfo, fun htable => hleft _ rfl (mem_handles hinfo htable)⟩, fun ls habort => ?_⟩
    rw [hdrain] at habort
    cases habort
  | @abort handles pick l' hls hl' =>
    obtain ⟨hinfo, hpulls⟩ := hstray
    obtain ⟨hne, hinfo⟩ := loopInfo_of_abort hinfo
    refine ⟨⟨hinfo, hpulls⟩, fun ls' habort hmem => ?_⟩
    rw [hls] at habort
    cases habort
    -- another handle stays in the list
    obtain ⟨i, hi⟩ := List.mem_iff_getElem?.mp hmem
    have hipick : i ≠ pick := by
      rintro rfl
      exact hne (Option.some_inj.mp (hi.symm.trans hl'))
    exact hleft _ rfl (List.mem_eraseIdx_iff_getElem?.mpr ⟨i, hipick, hi⟩)
  | lock hls =>
    refine ⟨hstray, fun ls' habort hmem => ?_⟩
    rw [hls] at habort
    cases habort
    cases hmem
  | finish hjoin =>
    refine ⟨hstray, fun ls' habort => ?_⟩
    rw [hjoin] at habort
    cases habort

/-- The loops are accounted for when the strays are held. -/
theorem accounted_iff : D.Accounted ↔ ∀ agent l, D.Stray agent l → D.Held agent l := by
  constructor
  · intro h agent l hstray
    exact (h l agent hstray.1).resolve_left hstray.2
  · intro h l agent hinfo
    by_cases htable : D.pulls agent = some l
    · exact .inl htable
    · exact .inr (h agent l ⟨hinfo, htable⟩)

/-- An access of a control operation does not touch the shutdown. -/
theorem shutdown_of_serves (h : Serves D o stage D₁ stage') :
    D₁.shutdown = D.shutdown := by
  cases h with
  | rebind | halt =>
    unfold stopPull
    split <;> rfl
  | _ => rfl

/-- In service, the shutdown is not touched. -/
theorem shutdown_of_step {a : DaemonAction} (ha : a.InService)
    (hstep : (daemonSystem C).step D a = some D') : D'.shutdown = D.shutdown := by
  cases a with
  | poll t o =>
    obtain ⟨world, -, rfl⟩ := Option.map_eq_some_iff.mp hstep
    rfl
  | pull l move =>
    obtain ⟨p, D₁, p', -, htask, rfl⟩ := step_pull hstep
    obtain ⟨-, -, ⟨rfl, -⟩ | hpulls⟩ := pullTask_cases htask
    · rfl
    · exact hpulls.relay_eq.2.2.2.2
  | send loop agent sending =>
    obtain ⟨c, c', d, -, -, ⟨-, rfl⟩ | ⟨l, p, stage, -, -, -, -, rfl⟩⟩ := step_send hstep
    · rfl
    · rfl
  | settle agent seq =>
    obtain ⟨c, -, -, rfl⟩ := step_settle hstep
    rfl
  | request op =>
    obtain ⟨-, rfl⟩ := step_request hstep
    rfl
  | serve r o =>
    obtain ⟨stage, D₁, stage', -, hserve, rfl⟩ := step_serve hstep
    show D₁.shutdown = D.shutdown
    exact shutdown_of_serves (serves_of_serve hserve)
  | shutdown | stop | join | restart => exact ha.elim

/-- In service, the steps of the others change neither the strays nor who has them. -/
theorem stray_of_quiet {a : DaemonAction} (ha : a.InService) (hserve : ∀ r o, a ≠ .serve r o)
    (hstep : (daemonSystem C).step D a = some D') (hstray : D'.Stray agent l)
    (hfree : ¬D'.Held agent l) : D.Stray agent l ∧ ¬D.Held agent l := by
  obtain ⟨-, hpulls, hinfo, hrequests⟩ := step_other hstep ha hserve
  have hshutdown := shutdown_of_step ha hstep
  refine ⟨⟨hinfo l ▸ hstray.1, hpulls ▸ hstray.2⟩, ?_⟩
  rintro (howned | habort)
  · refine hfree (.inl ?_)
    rcases hrequests with hsame | ⟨op, -, happend⟩
    · rw [hsame]
      exact howned
    · rw [happend, owned_append]
      · exact howned
      · rfl
  · exact hfree (.inr (hshutdown ▸ habort))

/-- A stray that no operation has after a step was one before, and no operation had it. -/
theorem stray_of_step {a : DaemonAction} (hstep : (daemonSystem C).step D a = some D')
    (hstray : D'.Stray agent l) (hfree : ¬D'.Held agent l) :
    D.Stray agent l ∧ ¬D.Held agent l := by
  cases a with
  | serve r o =>
    obtain ⟨stage, D₁, stage', hr, hserve, rfl⟩ := step_serve hstep
    have hserves := serves_of_serve hserve
    have hframe : D₁.requests = D.requests := hserves.frame.1
    have hmine : (D₁.requests.set r stage')[r]? = some stage' := by
      rw [hframe]
      exact getElem?_set_self_of_mem hr
    have hnew : stage'.newLoop ≠ some (agent, l) := fun heq =>
      hfree (.inl ⟨r, stage', hmine, heq⟩)
    obtain ⟨hbefore, hold⟩ := stray_of_serves hserves hstray hnew
    refine ⟨hbefore, ?_⟩
    rintro (howned | habort)
    · refine hfree (.inl ?_)
      show (agent, l) ∈ Owned RequestStage.newLoop (D₁.requests.set r stage')
      rw [hframe]
      exact mem_owned_set hr howned fun heq => absurd heq hold
    · refine hfree (.inr ?_)
      show ∃ ls, D₁.shutdown = some (.abort ls) ∧ l ∈ ls
      rw [shutdown_of_serves hserves]
      exact habort
  | stop pick =>
    have hrequests := (stop_cases hstep).1
    obtain ⟨hbefore, hleft⟩ := stray_of_stop hstep hstray fun ls habort hmem =>
      hfree (.inr ⟨ls, habort, hmem⟩)
    refine ⟨hbefore, ?_⟩
    rintro (howned | ⟨ls, habort, hmem⟩)
    · exact hfree (.inl (hrequests ▸ howned))
    · exact hleft ls habort hmem
  | shutdown =>
    obtain ⟨hnone, rfl⟩ := Daemon.step_shutdown hstep
    refine ⟨hstray, ?_⟩
    rintro (howned | ⟨ls, habort, -⟩)
    · exact hfree (.inl howned)
    · rw [hnone] at habort
      cases habort
  | join t =>
    obtain ⟨-, rfl⟩ := Daemon.step_join hstep
    exact ⟨hstray, hfree⟩
  | restart registry now ttl =>
    obtain ⟨world, -, rfl⟩ := Daemon.step_restart hstep
    cases hstray.1
  | poll | pull | send | settle | request =>
    refine stray_of_quiet ?_ ?_ hstep hstray hfree
    · trivial
    · intro r o heq
      cases heq

/-- The loops stay accounted for. -/
theorem Accounted.step (h : D.Accounted) {a : DaemonAction}
    (hstep : (daemonSystem C).step D a = some D') : D'.Accounted := by
  rw [accounted_iff] at h ⊢
  intro agent l hstray
  by_contra hfree
  obtain ⟨hbefore, hnot⟩ := stray_of_step hstep hstray hfree
  exact hnot (h agent l hbefore)

theorem Accounted.start (registry : Registry) (dedup : DedupStore)
    (consumers : AgentId → Option Consumer) : (start registry dedup consumers).Accounted := by
  intro l agent hinfo
  cases hinfo

/-- When all operations have returned and nothing is shut down, the agents with a loop that was not
aborted are those with a live loop in the table. -/
theorem pulled_iff_live (h : D.Accounted) (hidle : D.Idle) (hshutdown : D.shutdown = none) :
    D.Pulled agent ↔ D.Live agent := by
  constructor
  · rintro ⟨l, hinfo⟩
    rcases h l agent hinfo with hpulls | ⟨i, stage, hstage, hnew⟩ | ⟨ls, habort, -⟩
    · exact ⟨l, hpulls, hinfo⟩
    · -- an operation that has returned has no loop to store
      have hreturned := hidle stage (List.mem_of_getElem? hstage)
      cases stage with
      | relay => cases hreturned
      | _ => cases hnew
    · rw [hshutdown] at habort
      cases habort
  · rintro ⟨l, -, hinfo⟩
    exact ⟨l, hinfo⟩

end Daemon

end Agentd
