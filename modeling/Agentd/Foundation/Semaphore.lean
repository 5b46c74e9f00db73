import Agentd.Foundation.TaskPool

/-!
# Counting semaphores shared by a pool of tasks

The semaphores of a program live in a heap, a list in which a semaphore is identified by its
position; each one records the number of permits it was created with and the number available.
`holders holds pool s` counts the tasks of a pool that hold a permit of the semaphore `s`, and
`Balanced` is the accounting invariant: available permits and holders add up to the size, and no
task holds a permit of a semaphore that does not exist.  It is preserved by `create`, `tryAcquire`
and `release`, and it bounds the holders of a semaphore by its size (`Balanced.holders_le`).
-/

/-- A counting semaphore. -/
structure Semaphore where
  /-- The number of permits it was created with. -/
  size : ℕ
  /-- The number of permits nobody holds. -/
  available : ℕ
  deriving DecidableEq, Repr

namespace Semaphore

variable {τ : Type*} {heap heap' : List Semaphore} {pool : List τ} {x y : τ} {i s : ℕ}

/-- A semaphore with all its `n` permits available. -/
def new (n : ℕ) : Semaphore := ⟨n, n⟩

/-- Take a permit of the semaphore `s`, when one is available. -/
def tryAcquire (heap : List Semaphore) (s : ℕ) : Option (List Semaphore) :=
  match heap[s]? with
  | some sem =>
    if 0 < sem.available then some (heap.set s { sem with available := sem.available - 1 })
    else none
  | none => none

/-- Give a permit of the semaphore `s` back. -/
def release (heap : List Semaphore) (s : ℕ) : List Semaphore :=
  match heap[s]? with
  | some sem => heap.set s { sem with available := sem.available + 1 }
  | none => heap

/-- The sizes of the semaphores of a heap, which only a new semaphore changes. -/
def sizes (heap : List Semaphore) : List ℕ := heap.map size

/-- Acquiring succeeds exactly on a semaphore with a permit to spare. -/
theorem tryAcquire_eq_some_iff : tryAcquire heap s = some heap' ↔
    ∃ sem, heap[s]? = some sem ∧ 0 < sem.available ∧
      heap' = heap.set s { sem with available := sem.available - 1 } := by
  unfold tryAcquire
  cases h : heap[s]? with
  | none => simp
  | some sem => by_cases hpos : 0 < sem.available <;> simp [hpos, eq_comm]

theorem release_of_some {sem : Semaphore} (h : heap[s]? = some sem) :
    release heap s = heap.set s { sem with available := sem.available + 1 } := by
  simp [release, h]

/-- Replacing a semaphore by one of the same size keeps the sizes. -/
theorem sizes_set {sem sem' : Semaphore} (h : heap[s]? = some sem) (hsize : sem'.size = sem.size) :
    sizes (heap.set s sem') = sizes heap := by
  obtain ⟨hlt, hs⟩ := List.getElem?_eq_some_iff.mp h
  unfold sizes
  rw [List.map_set, hsize]
  apply List.ext_getElem?
  intro j
  rw [List.getElem?_set]
  split
  · rename_i hj
    subst hj
    simp [hlt, hs]
  · rfl

/-- Acquiring a permit keeps the sizes. -/
theorem sizes_tryAcquire (h : tryAcquire heap s = some heap') : sizes heap' = sizes heap := by
  obtain ⟨sem, hsem, -, rfl⟩ := tryAcquire_eq_some_iff.mp h
  exact sizes_set hsem rfl

/-- Releasing a permit keeps the sizes. -/
@[simp] theorem sizes_release (heap : List Semaphore) (s : ℕ) :
    sizes (release heap s) = sizes heap := by
  cases h : heap[s]? with
  | none => simp [release, h]
  | some sem =>
    rw [release_of_some h]
    exact sizes_set h rfl

@[simp] theorem sizes_append_new (heap : List Semaphore) (n : ℕ) :
    sizes (heap ++ [new n]) = sizes heap ++ [n] := by
  simp [sizes, new]

@[simp] theorem length_sizes (heap : List Semaphore) : (sizes heap).length = heap.length := by
  simp [sizes]

/-- Acquiring a permit keeps the heap's length. -/
theorem length_tryAcquire (h : tryAcquire heap s = some heap') : heap'.length = heap.length := by
  rw [← length_sizes, sizes_tryAcquire h, length_sizes]

/-- Releasing a permit keeps the heap's length. -/
@[simp] theorem length_release (heap : List Semaphore) (s : ℕ) :
    (release heap s).length = heap.length := by
  rw [← length_sizes, sizes_release, length_sizes]

/-! ## The accounting invariant -/

/-- The number of tasks that hold a permit of the semaphore `s`. -/
def holders (holds : τ → Option ℕ) (pool : List τ) (s : ℕ) : ℕ :=
  pool.countP fun x => holds x == some s

/-- Permits available and permits held add up to the size of every semaphore, and every permit
held is one of an existing semaphore. -/
structure Balanced (holds : τ → Option ℕ) (pool : List τ) (heap : List Semaphore) : Prop where
  /-- Available permits and holders add up to the size. -/
  count : ∀ (s : ℕ) (sem : Semaphore), heap[s]? = some sem →
    sem.available + holders holds pool s = sem.size
  /-- A permit held belongs to an existing semaphore. -/
  alive : ∀ (i : ℕ) (x : τ) (s : ℕ), pool[i]? = some x → holds x = some s → s < heap.length

variable {holds : τ → Option ℕ}

theorem balanced_nil (holds : τ → Option ℕ) : Balanced holds ([] : List τ) [] := by
  constructor <;> simp

/-- At most as many tasks hold a permit of a semaphore as it has permits. -/
theorem Balanced.holders_le (h : Balanced holds pool heap) {n : ℕ}
    (hn : (sizes heap)[s]? = some n) : holders holds pool s ≤ n := by
  simp only [sizes, List.getElem?_map, Option.map_eq_some_iff] at hn
  obtain ⟨sem, hsem, rfl⟩ := hn
  have := h.count s sem hsem
  omega

/-- A permit of a semaphore of size one is held by one task. -/
theorem Balanced.eq_of_size_one (h : Balanced holds pool heap) (hone : (sizes heap)[s]? = some 1)
    {j : ℕ} (hx : pool[i]? = some x) (hy : pool[j]? = some y) (hxs : holds x = some s)
    (hys : holds y = some s) : i = j :=
  TaskPool.eq_of_countP_le_one (h.holders_le hone) hx hy (beq_iff_eq.mpr hxs)
    (beq_iff_eq.mpr hys)

/-- When no task holds a permit of a semaphore, all its permits are available. -/
theorem Balanced.available_eq_size (h : Balanced holds pool heap) {sem : Semaphore}
    (hsem : heap[s]? = some sem) (hnone : ∀ (i : ℕ) (x : τ), pool[i]? = some x →
      holds x ≠ some s) : sem.available = sem.size := by
  have hzero : holders holds pool s = 0 := by
    refine List.countP_eq_zero.mpr fun x hx => ?_
    obtain ⟨i, hi⟩ := List.mem_iff_getElem?.mp hx
    simpa using hnone i x hi
  have := h.count s sem hsem
  omega

/-- A task that holds nothing may join the pool. -/
theorem Balanced.append (h : Balanced holds pool heap) (hy : holds y = none) :
    Balanced holds (pool ++ [y]) heap := by
  refine ⟨fun s sem hsem => ?_, fun i x s hi hx => ?_⟩
  · simpa [holders, hy] using h.count s sem hsem
  · rcases TaskPool.getElem?_append_cases hi with ⟨-, rfl⟩ | hi
    · simp [hy] at hx
    · exact h.alive i x s hi hx

/-- An update that neither takes nor gives back a permit keeps the accounts. -/
theorem Balanced.set_keep (h : Balanced holds pool heap) (hx : pool[i]? = some x)
    (hxy : holds y = holds x) : Balanced holds (pool.set i y) heap := by
  refine ⟨fun s sem hsem => ?_, fun j z s hj hz => ?_⟩
  · unfold holders
    rw [TaskPool.countP_set_of_eq _ hx (by rw [hxy])]
    exact h.count s sem hsem
  · rcases TaskPool.getElem?_set_cases hj with ⟨rfl, rfl⟩ | ⟨-, hj⟩
    · exact h.alive _ _ _ hx (hxy ▸ hz)
    · exact h.alive _ _ _ hj hz

/-- A new semaphore has no holder. -/
theorem Balanced.create (h : Balanced holds pool heap) (n : ℕ) :
    Balanced holds pool (heap ++ [new n]) := by
  refine ⟨fun s sem hsem => ?_, fun i x s hi hx => ?_⟩
  · rcases TaskPool.getElem?_append_cases hsem with ⟨rfl, rfl⟩ | hsem
    · have hzero : holders holds pool heap.length = 0 := by
        refine List.countP_eq_zero.mpr fun x hx => ?_
        obtain ⟨i, hi⟩ := List.mem_iff_getElem?.mp hx
        intro hs
        exact absurd (h.alive i x _ hi (by simpa using hs)) (lt_irrefl _)
      simp [new, hzero]
    · exact h.count s sem hsem
  · have := h.alive i x s hi hx
    simp
    omega

/-- The task `i` takes a permit of the semaphore `s`. -/
theorem Balanced.acquire (h : Balanced holds pool heap) (hx : pool[i]? = some x)
    (hnone : holds x = none) (hy : holds y = some s) (hacq : tryAcquire heap s = some heap') :
    Balanced holds (pool.set i y) heap' := by
  obtain ⟨sem, hsem, hpos, rfl⟩ := tryAcquire_eq_some_iff.mp hacq
  have hlt := (List.getElem?_eq_some_iff.mp hsem).1
  refine ⟨fun r sem' hr => ?_, fun j z r hj hz => ?_⟩
  · have hcount := TaskPool.countP_set_add (y := y) (fun z => holds z == some r) hx
    simp only [hnone, hy] at hcount
    unfold holders
    rcases TaskPool.getElem?_set_cases hr with ⟨rfl, rfl⟩ | ⟨hne, hr⟩
    · have := h.count _ _ hsem
      simp [holders] at hcount this ⊢
      omega
    · have := h.count _ _ hr
      simp [holders, Ne.symm hne] at hcount this ⊢
      omega
  · rw [List.length_set]
    rcases TaskPool.getElem?_set_cases hj with ⟨rfl, rfl⟩ | ⟨-, hj⟩
    · obtain rfl : s = r := Option.some_inj.mp (hy.symm.trans hz)
      exact hlt
    · exact h.alive _ _ _ hj hz

/-- The task `i` gives its permit of the semaphore `s` back. -/
theorem Balanced.release (h : Balanced holds pool heap) (hx : pool[i]? = some x)
    (hs : holds x = some s) (hy : holds y = none) :
    Balanced holds (pool.set i y) (release heap s) := by
  have hlt := h.alive i x s hx hs
  obtain ⟨sem, hsem⟩ : ∃ sem, heap[s]? = some sem := ⟨_, List.getElem?_eq_getElem hlt⟩
  rw [release_of_some hsem]
  refine ⟨fun r sem' hr => ?_, fun j z r hj hz => ?_⟩
  · have hcount := TaskPool.countP_set_add (y := y) (fun z => holds z == some r) hx
    simp only [hs, hy] at hcount
    unfold holders
    rcases TaskPool.getElem?_set_cases hr with ⟨rfl, rfl⟩ | ⟨hne, hr⟩
    · have := h.count _ _ hsem
      simp [holders] at hcount this ⊢
      omega
    · have := h.count _ _ hr
      simp [holders, Ne.symm hne] at hcount this ⊢
      omega
  · rw [List.length_set]
    rcases TaskPool.getElem?_set_cases hj with ⟨rfl, rfl⟩ | ⟨-, hj⟩
    · simp [hy] at hz
    · exact h.alive _ _ _ hj hz

end Semaphore
