import Agentd.Foundation.TransitionSystem

/-!
# A pool of workers that runs every job once, faults apart

What a dispatcher of jobs is for: a job is started when it is neither active nor known to be done,
and when a worker is free; it exits; its completion is recorded, and from then on it is known to be
done.  A job is acknowledged when it has been handled.  Three faults may get in the way: a
completion is not recorded, a job that is known to be done is forgotten, and an active job is
abandoned.

The pool says nothing about tasks, locks or stores.  Its runs are the traces that a dispatcher is
allowed to have; `Traces.started_le` and `Traces.exited_of_acked` say what follows from being such a
trace: a job is started at most once more than there are faults about it, and an acknowledged job
has exited or was known from the start. -/

/-- The jobs of a pool. -/
structure WorkPool (κ : Type*) where
  /-- Started, and not exited. -/
  running : Finset κ
  /-- Exited, and neither recorded nor given up. -/
  ended : Finset κ
  /-- Known to be done. -/
  known : Finset κ
  /-- Handled at some time. -/
  handled : Finset κ

namespace WorkPool

open TransitionSystem

variable {κ : Type*} [DecidableEq κ] {limit : ℕ} {p p' : WorkPool κ}

/-- What happens to a job. -/
inductive Event (κ : Type*) where
  | started (k : κ)
  | exited (k : κ)
  /-- The completion is recorded. -/
  | recorded (k : κ)
  /-- The completion could not be recorded. -/
  | unrecorded (k : κ)
  | acked (k : κ)
  /-- The job is not known to be done any more. -/
  | forgotten (k : κ)
  /-- The active job is lost. -/
  | abandoned (k : κ)
  deriving DecidableEq

/-- The event is a fault about the job `k`. -/
def Event.faults (k : κ) : Event κ → Bool
  | .unrecorded k' | .forgotten k' | .abandoned k' => k' = k
  | .started _ | .exited _ | .recorded _ | .acked _ => false

/-- A pool that starts with the knowledge that some jobs are done. -/
def idle (known : Finset κ) : WorkPool κ where
  running := ∅
  ended := ∅
  known := known
  handled := known

/-- The jobs that have a worker. -/
def active (p : WorkPool κ) : Finset κ := p.running ∪ p.ended

/-- One event of a pool with `limit` workers. -/
def step (limit : ℕ) (p : WorkPool κ) : Event κ → Option (WorkPool κ)
  | .started k =>
    if k ∉ p.active ∧ k ∉ p.known ∧ p.active.card < limit then
      some { p with running := insert k p.running }
    else none
  | .exited k =>
    if k ∈ p.running then
      some { p with
        running := p.running.erase k
        ended := insert k p.ended
        handled := insert k p.handled }
    else none
  | .recorded k =>
    if k ∈ p.ended then some { p with ended := p.ended.erase k, known := insert k p.known }
    else none
  | .unrecorded k => if k ∈ p.ended then some { p with ended := p.ended.erase k } else none
  | .acked k => if k ∈ p.handled then some p else none
  | .forgotten k => some { p with known := p.known.erase k }
  | .abandoned k => some { p with running := p.running.erase k, ended := p.ended.erase k }

/-- The pool, which logs what happens. -/
def system (κ : Type*) [DecidableEq κ] (limit : ℕ) :
    TransitionSystem (WorkPool κ × List (Event κ)) (Event κ) :=
  TransitionSystem.logging ⟨step limit⟩ fun _ e => [e]

/-- A trace of a pool: the events that lead from `p` to `p'`. -/
def Traces (limit : ℕ) (p : WorkPool κ) (log : List (Event κ)) (p' : WorkPool κ) : Prop :=
  (system κ limit).Run (fun _ _ => True) (p, []) (p', log)

/-! ## What an event can be -/

/-- The events of a pool, with the state they lead to. -/
inductive Steps (limit : ℕ) (p : WorkPool κ) : Event κ → WorkPool κ → Prop
  | started {k : κ} (hfree : k ∉ p.active) (hnew : k ∉ p.known) (hroom : p.active.card < limit) :
      Steps limit p (.started k) { p with running := insert k p.running }
  | exited {k : κ} (h : k ∈ p.running) :
      Steps limit p (.exited k)
        { p with
          running := p.running.erase k
          ended := insert k p.ended
          handled := insert k p.handled }
  | recorded {k : κ} (h : k ∈ p.ended) :
      Steps limit p (.recorded k)
        { p with ended := p.ended.erase k, known := insert k p.known }
  | unrecorded {k : κ} (h : k ∈ p.ended) :
      Steps limit p (.unrecorded k) { p with ended := p.ended.erase k }
  | acked {k : κ} (h : k ∈ p.handled) : Steps limit p (.acked k) p
  | forgotten {k : κ} : Steps limit p (.forgotten k) { p with known := p.known.erase k }
  | abandoned {k : κ} :
      Steps limit p (.abandoned k)
        { p with running := p.running.erase k, ended := p.ended.erase k }

variable {k : κ}

theorem step_eq_some_iff {e : Event κ} : step limit p e = some p' ↔ Steps limit p e p' := by
  constructor
  · intro h
    cases e <;> simp only [step, Option.ite_none_right_eq_some, Option.some.injEq] at h
    · obtain ⟨⟨hfree, hnew, hroom⟩, rfl⟩ := h
      exact .started hfree hnew hroom
    · obtain ⟨hk, rfl⟩ := h
      exact .exited hk
    · obtain ⟨hk, rfl⟩ := h
      exact .recorded hk
    · obtain ⟨hk, rfl⟩ := h
      exact .unrecorded hk
    · obtain ⟨hk, rfl⟩ := h
      exact .acked hk
    · subst h
      exact .forgotten
    · subst h
      exact .abandoned
  · intro h
    induction h with
    | started hfree hnew hroom => exact if_pos ⟨hfree, hnew, hroom⟩
    | exited hk | recorded hk | unrecorded hk | acked hk => exact if_pos hk
    | forgotten | abandoned => rfl

/-- An invariant of the pool and its log holds behind every trace. -/
theorem Traces.invariant {I : WorkPool κ → List (Event κ) → Prop} {log : List (Event κ)}
    (h : Traces limit p log p') (hstart : I p [])
    (hstep : ∀ q l e q', I q l → Steps limit q e q' → I q' (l ++ [e])) : I p' log := by
  refine Run.invariant (I := fun x => I x.1 x.2) h hstart ?_
  rintro ⟨q, l⟩ e ⟨q', l'⟩ hI - hlog
  obtain ⟨hq, rfl⟩ := step_logging hlog
  exact hstep q l e q' hI (step_eq_some_iff.mp hq)

/-- One event of a pool. -/
theorem run_single {e : Event κ} (h : Steps limit p e p') (m : List (Event κ)) :
    (system κ limit).Run (fun _ _ => True) (p, m) (p', m ++ [e]) := by
  refine .tail (a := e) .refl trivial ?_
  simp [system, TransitionSystem.logging, step_eq_some_iff.mpr h]

/-- A pool may forget any jobs. -/
theorem run_forgotten (p : WorkPool κ) (m : List (Event κ)) (jobs : List κ) :
    (system κ limit).Run (fun _ _ => True) (p, m)
      ({ p with known := p.known \ jobs.toFinset }, m ++ jobs.map .forgotten) := by
  induction jobs generalizing p m with
  | nil => simpa using Run.refl
  | cons k jobs ih =>
    have hrest := ih { p with known := p.known.erase k } (m ++ [.forgotten k])
    simp only [List.append_assoc, List.singleton_append, ← List.map_cons] at hrest
    have hknown : p.known.erase k \ jobs.toFinset = p.known \ (k :: jobs).toFinset := by
      ext k'
      simp only [Finset.mem_sdiff, Finset.mem_erase, List.mem_toFinset, List.mem_cons, not_or]
      tauto
    rw [hknown] at hrest
    exact (run_single .forgotten m).trans hrest

/-- A pool may lose any jobs. -/
theorem run_abandoned (p : WorkPool κ) (m : List (Event κ)) (jobs : List κ) :
    (system κ limit).Run (fun _ _ => True) (p, m)
      ({ p with running := p.running \ jobs.toFinset, ended := p.ended \ jobs.toFinset },
        m ++ jobs.map .abandoned) := by
  induction jobs generalizing p m with
  | nil => simpa using Run.refl
  | cons k jobs ih =>
    have hrest := ih { p with running := p.running.erase k, ended := p.ended.erase k }
      (m ++ [.abandoned k])
    simp only [List.append_assoc, List.singleton_append, ← List.map_cons] at hrest
    have herase : ∀ a : Finset κ, a.erase k \ jobs.toFinset = a \ (k :: jobs).toFinset := by
      intro a
      ext k'
      simp only [Finset.mem_sdiff, Finset.mem_erase, List.mem_toFinset, List.mem_cons, not_or]
      tauto
    rw [herase, herase] at hrest
    exact (run_single .abandoned m).trans hrest

/-! ## What a trace can be -/

/-- In a pool that starts idle, never more jobs are active than there are workers. -/
theorem Traces.card_active_le {known : Finset κ} {log : List (Event κ)}
    (h : Traces limit (idle known) log p) : p.active.card ≤ limit := by
  refine h.invariant (I := fun q _ => q.active.card ≤ limit) (by simp [idle, active]) ?_
  intro q l e q' hle hq
  have hsub : ∀ {q' : WorkPool κ}, q'.active ⊆ q.active → q'.active.card ≤ limit :=
    fun h => (Finset.card_le_card h).trans hle
  have herase : ∀ {a b : Finset κ}, a ⊆ q.running → b ⊆ q.ended → a ∪ b ⊆ q.active :=
    Finset.union_subset_union
  induction hq with
  | started _ _ hroom =>
    rw [active, Finset.insert_union]
    exact (Finset.card_insert_le _ _).trans hroom
  | exited hk =>
    refine hsub fun k' hk' => ?_
    simp only [active, Finset.mem_union, Finset.mem_erase, Finset.mem_insert] at hk' ⊢
    rcases hk' with ⟨-, hk'⟩ | rfl | hk'
    · exact .inl hk'
    · exact .inl hk
    · exact .inr hk'
  | recorded _ | unrecorded _ => exact hsub (herase subset_rfl (Finset.erase_subset _ _))
  | acked _ | forgotten => exact hle
  | abandoned => exact hsub (herase (Finset.erase_subset _ _) (Finset.erase_subset _ _))

/-- Whether a job is active or known to be done, in which case it is not started. -/
def covers (p : WorkPool κ) (k : κ) : ℕ := if k ∈ p.active ∨ k ∈ p.known then 1 else 0

theorem covers_le_one (p : WorkPool κ) (k : κ) : p.covers k ≤ 1 := by
  unfold covers
  split <;> omega

/-- A job stays covered, also when it is covered in another way. -/
theorem covers_mono (h : k ∈ p.active ∨ k ∈ p.known → k ∈ p'.active ∨ k ∈ p'.known) :
    p.covers k ≤ p'.covers k := by
  unfold covers
  split
  · rename_i hk
    rw [if_pos (h hk)]
  · exact Nat.zero_le _

/-- A start covers a job that is not covered, and only a fault uncovers a job. -/
theorem Steps.covers {e : Event κ} (h : Steps limit p e p') (k : κ) :
    (if e = .started k then 1 else 0) + p.covers k ≤
      (if e.faults k then 1 else 0) + p'.covers k := by
  by_cases hfault : e.faults k = true
  · have hnot : e ≠ .started k := by
      rintro rfl
      cases hfault
    have := p.covers_le_one k
    rw [if_neg hnot, if_pos hfault]
    omega
  rw [if_neg hfault, Nat.zero_add]
  -- without a fault the job is covered when it was, or when it is started
  have hkeep : (k ∈ p.active ∨ k ∈ p.known → k ∈ p'.active ∨ k ∈ p'.known) →
      e ≠ .started k → (if e = .started k then 1 else 0) + p.covers k ≤ p'.covers k := by
    intro hmono hne
    rw [if_neg hne, Nat.zero_add]
    exact covers_mono hmono
  induction h with
  | @started k' hfree hnew _ =>
    by_cases hk : k' = k
    · subst hk
      have hbefore : p.covers k' = 0 := if_neg (not_or.mpr ⟨hfree, hnew⟩)
      rw [if_pos rfl, hbefore]
      exact (if_pos (.inl (Finset.mem_union_left _ (Finset.mem_insert_self _ _)))).ge
    · refine hkeep (Or.imp_left fun h => ?_) (by simpa using hk)
      exact Finset.union_subset_union_left (Finset.subset_insert _ _) h
  | @exited k' _ =>
    refine hkeep (Or.imp_left fun h => ?_) (fun h => by cases h)
    simp only [active, Finset.mem_union, Finset.mem_erase, Finset.mem_insert] at h ⊢
    tauto
  | @recorded k' _ =>
    refine hkeep (fun h => ?_) (fun h => by cases h)
    simp only [active, Finset.mem_union, Finset.mem_erase, Finset.mem_insert] at h ⊢
    tauto
  | @unrecorded k' _ =>
    have hk : k' ≠ k := by simpa [Event.faults] using hfault
    refine hkeep (Or.imp_left fun h => ?_) (fun h => by cases h)
    simp only [active, Finset.mem_union, Finset.mem_erase] at h ⊢
    exact h.imp_right fun h => ⟨hk.symm, h⟩
  | acked _ => exact hkeep id (fun h => by cases h)
  | @forgotten k' =>
    have hk : k' ≠ k := by simpa [Event.faults] using hfault
    exact hkeep (Or.imp_right fun h => Finset.mem_erase.mpr ⟨hk.symm, h⟩) (fun h => by cases h)
  | @abandoned k' =>
    have hk : k' ≠ k := by simpa [Event.faults] using hfault
    refine hkeep (Or.imp_left fun h => ?_) (fun h => by cases h)
    simp only [active, Finset.mem_union, Finset.mem_erase] at h ⊢
    exact h.imp (fun h => ⟨hk.symm, h⟩) fun h => ⟨hk.symm, h⟩

/-- A job is started at most once, and once more for every fault about it. -/
theorem Traces.started_le {log : List (Event κ)} (h : Traces limit p log p') (k : κ) :
    log.count (.started k) + p.covers k ≤ log.countP (Event.faults k) + 1 := by
  have hcount :
      log.count (.started k) + p.covers k ≤ log.countP (Event.faults k) + p'.covers k := by
    refine h.invariant (I := fun q l => l.count (.started k) + p.covers k ≤
      l.countP (Event.faults k) + q.covers k) (by simp) ?_
    intro q l e q' hle hq
    have hcover := hq.covers k
    rw [List.count_append, List.countP_append, List.count_singleton, List.countP_singleton]
    simp only [beq_iff_eq]
    omega
  have := p'.covers_le_one k
  omega

/-- A job that is acknowledged has exited before, unless it was handled at the start. -/
theorem Traces.exited_of_acked {log : List (Event κ)} (h : Traces limit p log p') {k : κ}
    {l r : List (Event κ)} (hlog : log = l ++ .acked k :: r) :
    k ∈ p.handled ∨ .exited k ∈ l := by
  have hinv := h.invariant (I := fun q m => (∀ k ∈ q.handled, k ∈ p.handled ∨ .exited k ∈ m) ∧
    ∀ k l r, m = l ++ .acked k :: r → k ∈ p.handled ∨ .exited k ∈ l)
    ⟨fun k hk => .inl hk, fun k l r hnil => by simp at hnil⟩ ?_
  · exact hinv.2 k l r hlog
  · intro q m e q' ⟨hhandled, hacked⟩ hq
    have hmono : ∀ k ∈ q.handled, k ∈ p.handled ∨ .exited k ∈ m ++ [e] := fun k hk =>
      (hhandled k hk).imp_right (List.mem_append_left _)
    refine ⟨fun k hk => ?_, fun k l r hsplit => ?_⟩
    · induction hq with
      | exited _ =>
        rcases Finset.mem_insert.mp hk with rfl | hk
        · exact .inr (by simp)
        · exact hmono k hk
      | _ => exact hmono k hk
    · rcases List.eq_nil_or_concat r with rfl | ⟨r, e', rfl⟩
      · -- the acknowledgement is the last event
        obtain ⟨rfl, hlast⟩ := List.append_inj' hsplit rfl
        obtain rfl := List.singleton_inj.mp hlast
        cases hq with
        | acked hk => exact hhandled k hk
      · have hsplit' : m ++ [e] = (l ++ .acked k :: r) ++ [e'] := by simpa using hsplit
        exact hacked k l r (List.append_inj' hsplit' rfl).1

end WorkPool
