import Mathlib

/-!
# Pools of concurrent tasks

A pool is a list of tasks, each identified by its position.  A task changes state by
`List.set`, and a new task is appended, so identities stay valid.  This module has the facts
an interleaving proof needs about such a pool:

* which tasks an updated pool holds (`getElem?_set_cases`, `getElem?_append_cases`);
* how the number of tasks with a property changes (`countP_set_add`);
* what happens to a key that at most one task may own: `Exclusive owns pool` says that no two
  tasks own the same key, `Owned owns pool` is the set of keys owned, and both have a rule for a
  task that keeps, takes or gives up a key;
* what becomes of the tasks with a property, taken as a pool of their own, in which the task `i`
  has the position `rank p pool i`;
* that two pools of pairwise related tasks stay so.
-/

namespace TaskPool

variable {τ κ : Type*} {pool : List τ} {i j : ℕ} {x y z : τ} {k : κ}

/-! ## Membership after an update -/

/-- A task of an updated pool is the updated task, or another task as it was. -/
theorem getElem?_set_cases (h : (pool.set i y)[j]? = some z) :
    (j = i ∧ z = y) ∨ (j ≠ i ∧ pool[j]? = some z) := by
  rw [List.getElem?_set] at h
  split at h
  · split at h
    · exact .inl ⟨by omega, by simpa using h.symm⟩
    · cases h
  · exact .inr ⟨by omega, h⟩

/-- The updated task is in the updated pool. -/
theorem getElem?_set_self_of_mem (h : pool[i]? = some x) : (pool.set i y)[i]? = some y := by
  have hlt : i < pool.length := (List.getElem?_eq_some_iff.mp h).1
  simp [hlt]

/-- A task of an extended pool is an old task or the new one, which has the next identity. -/
theorem getElem?_append_cases (h : (pool ++ [y])[j]? = some z) :
    (j = pool.length ∧ z = y) ∨ pool[j]? = some z := by
  rw [List.getElem?_append] at h
  split at h
  · exact .inr h
  · rw [List.getElem?_singleton] at h
    split at h
    · exact .inl ⟨by omega, by simpa using h.symm⟩
    · cases h

/-- The tasks of a pool stay where they are when a task is added. -/
theorem getElem?_append_of_some (h : pool[j]? = some z) : (pool ++ [y])[j]? = some z := by
  have hlt : j < pool.length := (List.getElem?_eq_some_iff.mp h).1
  rw [List.getElem?_append_left hlt, h]

/-! ## Counting -/

/-- The number of tasks with a property, before and after one task is updated. -/
theorem countP_set_add (p : τ → Bool) (h : pool[i]? = some x) :
    (pool.set i y).countP p + (if p x then 1 else 0) =
      pool.countP p + (if p y then 1 else 0) := by
  obtain ⟨hlt, hx⟩ := List.getElem?_eq_some_iff.mp h
  have hpos : p x = true → 0 < pool.countP p := fun hp =>
    List.countP_pos_iff.mpr ⟨x, List.mem_of_getElem? h, hp⟩
  rw [List.countP_set hlt, hx]
  split
  · rename_i hp
    have := hpos hp
    omega
  · omega

/-- The number of tasks with a property does not change when the updated task keeps it. -/
theorem countP_set_of_eq (p : τ → Bool) (h : pool[i]? = some x) (hxy : p y = p x) :
    (pool.set i y).countP p = pool.countP p := by
  have := countP_set_add (y := y) p h
  rw [hxy] at this
  omega

/-- More tasks have the weaker of two properties when some task has only that one. -/
theorem countP_lt_countP {p q : τ → Bool}
    (hpq : ∀ y ∈ pool, p y = true → q y = true) (hx : pool[i]? = some x) (hp : p x = false)
    (hq : q x = true) : pool.countP p < pool.countP q := by
  have hsplit := List.countP_eq_countP_filter_add pool q p
  have hwith : (pool.filter p).countP q = pool.countP p := by
    rw [List.countP_filter]
    exact List.countP_congr fun y hy => by simpa using hpq y hy
  have hwithout : 0 < (pool.filter fun y => !p y).countP q :=
    List.countP_pos_iff.mpr ⟨x, List.mem_filter.mpr ⟨List.mem_of_getElem? hx, by simp [hp]⟩, hq⟩
  omega

/-- The sum of a number read off every task, before and after one task is updated. -/
theorem sum_map_set (f : τ → ℕ) (h : pool[i]? = some x) :
    ((pool.set i y).map f).sum + f x = (pool.map f).sum + f y := by
  induction pool generalizing i with
  | nil => simp at h
  | cons z pool ih =>
    cases i with
    | zero =>
      obtain rfl : z = x := by simpa using h
      simp only [List.set_cons_zero, List.map_cons, List.sum_cons]
      omega
    | succ i =>
      have hrest := ih (i := i) (by simpa using h)
      simp only [List.set_cons_succ, List.map_cons, List.sum_cons]
      omega

/-- When at most one task has a property, two tasks that have it are the same. -/
theorem eq_of_countP_le_one {p : τ → Bool} (h : pool.countP p ≤ 1) (hx : pool[i]? = some x)
    (hy : pool[j]? = some y) (hpx : p x = true) (hpy : p y = true) : i = j := by
  induction pool generalizing i j with
  | nil => simp at hx
  | cons z pool ih =>
    rw [List.countP_cons] at h
    -- another task with the property would be counted twice
    have hrest : ∀ (k : ℕ) (u : τ), pool[k]? = some u → p u = true → p z = false := by
      intro k u hu hpu
      have hpos : 0 < pool.countP p := List.countP_pos_iff.mpr ⟨u, List.mem_of_getElem? hu, hpu⟩
      by_contra hz
      rw [Bool.not_eq_false] at hz
      rw [if_pos hz] at h
      omega
    cases i with
    | zero =>
      obtain rfl : z = x := by simpa using hx
      cases j with
      | zero => rfl
      | succ j =>
        rw [hrest j y (by simpa using hy) hpy] at hpx
        cases hpx
    | succ i =>
      have hx' : pool[i]? = some x := by simpa using hx
      cases j with
      | zero =>
        obtain rfl : z = y := by simpa using hy
        rw [hrest i x hx' hpx] at hpy
        cases hpy
      | succ j =>
        have hle : pool.countP p ≤ 1 := by omega
        exact congrArg Nat.succ (ih hle hx' (by simpa using hy))

/-! ## Keys owned by at most one task -/

/-- No two tasks of the pool own the same key. -/
def Exclusive (owns : τ → Option κ) (pool : List τ) : Prop :=
  ∀ (i j : ℕ) (x y : τ) (k : κ), pool[i]? = some x → pool[j]? = some y →
    owns x = some k → owns y = some k → i = j

/-- The keys owned by the tasks of the pool. -/
def Owned (owns : τ → Option κ) (pool : List τ) : Set κ :=
  {k | ∃ (i : ℕ) (x : τ), pool[i]? = some x ∧ owns x = some k}

variable {owns : τ → Option κ}

theorem exclusive_nil : Exclusive owns ([] : List τ) := by
  intro i j x y k hi
  simp at hi

@[simp] theorem owned_nil : Owned owns ([] : List τ) = ∅ := by
  ext k
  simp [Owned]

/-- A task that owns nothing may join the pool. -/
theorem Exclusive.append (h : Exclusive owns pool) (hy : owns y = none) :
    Exclusive owns (pool ++ [y]) := by
  intro i j u v k hi hj hu hv
  rcases getElem?_append_cases hi with ⟨-, rfl⟩ | hi
  · simp [hy] at hu
  rcases getElem?_append_cases hj with ⟨-, rfl⟩ | hj
  · simp [hy] at hv
  exact h i j u v k hi hj hu hv

/-- A task that owns nothing adds no key. -/
theorem owned_append (hy : owns y = none) : Owned owns (pool ++ [y]) = Owned owns pool := by
  ext k
  constructor
  · rintro ⟨i, u, hi, hu⟩
    rcases getElem?_append_cases hi with ⟨-, rfl⟩ | hi
    · simp [hy] at hu
    · exact ⟨i, u, hi, hu⟩
  · rintro ⟨i, u, hi, hu⟩
    exact ⟨i, u, getElem?_append_of_some hi, hu⟩

/-- An update that keeps the key of the task keeps exclusivity. -/
theorem Exclusive.set_keep (h : Exclusive owns pool) (hx : pool[i]? = some x)
    (hxy : owns y = owns x) : Exclusive owns (pool.set i y) := by
  intro a b u v k ha hb hu hv
  rcases getElem?_set_cases ha with ⟨rfl, rfl⟩ | ⟨-, ha'⟩ <;>
    rcases getElem?_set_cases hb with ⟨rfl, rfl⟩ | ⟨-, hb'⟩
  · rfl
  · exact h _ _ _ _ _ hx hb' (hxy ▸ hu) hv
  · exact h _ _ _ _ _ ha' hx hu (hxy ▸ hv)
  · exact h _ _ _ _ _ ha' hb' hu hv

/-- An update that keeps the key of the task keeps the keys owned. -/
theorem owned_set_keep (hx : pool[i]? = some x) (hxy : owns y = owns x) :
    Owned owns (pool.set i y) = Owned owns pool := by
  ext k
  constructor
  · rintro ⟨a, u, ha, hu⟩
    rcases getElem?_set_cases ha with ⟨rfl, rfl⟩ | ⟨-, ha⟩
    · exact ⟨a, x, hx, hxy ▸ hu⟩
    · exact ⟨a, u, ha, hu⟩
  · rintro ⟨a, u, ha, hu⟩
    by_cases hai : a = i
    · subst hai
      obtain rfl : x = u := Option.some_inj.mp (hx.symm.trans ha)
      exact ⟨a, y, getElem?_set_self_of_mem hx, hxy ▸ hu⟩
    · exact ⟨a, u, by rwa [List.getElem?_set_ne (Ne.symm hai)], hu⟩

/-- A key stays owned when the updated task keeps it. -/
theorem mem_owned_set (hx : pool[i]? = some x) (hk : k ∈ Owned owns pool)
    (hkeep : owns x = some k → owns y = some k) : k ∈ Owned owns (pool.set i y) := by
  obtain ⟨a, u, ha, hu⟩ := hk
  by_cases hai : a = i
  · subst hai
    obtain rfl : x = u := Option.some_inj.mp (hx.symm.trans ha)
    exact ⟨a, y, getElem?_set_self_of_mem hx, hkeep hu⟩
  · exact ⟨a, u, by rwa [List.getElem?_set_ne (Ne.symm hai)], hu⟩

/-- A task may take a key that no task owns. -/
theorem Exclusive.set_take (h : Exclusive owns pool) (hy : owns y = some k)
    (hk : k ∉ Owned owns pool) : Exclusive owns (pool.set i y) := by
  intro a b u v k' ha hb hu hv
  rcases getElem?_set_cases ha with ⟨rfl, rfl⟩ | ⟨-, ha'⟩ <;>
    rcases getElem?_set_cases hb with ⟨rfl, rfl⟩ | ⟨-, hb'⟩
  · rfl
  · obtain rfl : k = k' := Option.some_inj.mp (hy.symm.trans hu)
    exact absurd ⟨b, v, hb', hv⟩ hk
  · obtain rfl : k = k' := Option.some_inj.mp (hy.symm.trans hv)
    exact absurd ⟨a, u, ha', hu⟩ hk
  · exact h _ _ _ _ _ ha' hb' hu hv

/-- A task that owned nothing and takes a key adds that key. -/
theorem owned_set_take (hx : pool[i]? = some x) (hnone : owns x = none) (hy : owns y = some k) :
    Owned owns (pool.set i y) = insert k (Owned owns pool) := by
  ext k'
  constructor
  · rintro ⟨a, u, ha, hu⟩
    rcases getElem?_set_cases ha with ⟨rfl, rfl⟩ | ⟨-, ha⟩
    · exact .inl (Option.some_inj.mp (hu.symm.trans hy))
    · exact .inr ⟨a, u, ha, hu⟩
  · rintro (rfl | ⟨a, u, ha, hu⟩)
    · exact ⟨i, y, getElem?_set_self_of_mem hx, hy⟩
    · have hai : a ≠ i := by
        rintro rfl
        obtain rfl : x = u := Option.some_inj.mp (hx.symm.trans ha)
        simp [hnone] at hu
      exact ⟨a, u, by rwa [List.getElem?_set_ne hai.symm], hu⟩

/-- A task may give up its key. -/
theorem Exclusive.set_give (h : Exclusive owns pool) (hy : owns y = none) :
    Exclusive owns (pool.set i y) := by
  intro a b u v k' ha hb hu hv
  rcases getElem?_set_cases ha with ⟨rfl, rfl⟩ | ⟨-, ha⟩
  · simp [hy] at hu
  rcases getElem?_set_cases hb with ⟨rfl, rfl⟩ | ⟨-, hb⟩
  · simp [hy] at hv
  exact h _ _ _ _ _ ha hb hu hv

/-- Under exclusivity the key a task gives up is owned by no task any more. -/
theorem owned_set_give (h : Exclusive owns pool) (hx : pool[i]? = some x)
    (hk : owns x = some k) (hy : owns y = none) :
    Owned owns (pool.set i y) = Owned owns pool \ {k} := by
  ext k'
  constructor
  · rintro ⟨a, u, ha, hu⟩
    rcases getElem?_set_cases ha with ⟨rfl, rfl⟩ | ⟨hai, ha⟩
    · simp [hy] at hu
    · refine ⟨⟨a, u, ha, hu⟩, ?_⟩
      rintro rfl
      exact hai (h a i u x k' ha hx hu hk)
  · rintro ⟨⟨a, u, ha, hu⟩, hne⟩
    have hai : a ≠ i := by
      rintro rfl
      obtain rfl : x = u := Option.some_inj.mp (hx.symm.trans ha)
      exact hne (Option.some_inj.mp (hu.symm.trans hk))
    exact ⟨a, u, by rwa [List.getElem?_set_ne hai.symm], hu⟩

/-- A key that is owned after an update is that of the updated task, or it was owned before. -/
theorem owned_set_cases (hk : k ∈ Owned owns (pool.set i y)) :
    owns y = some k ∨ k ∈ Owned owns pool := by
  obtain ⟨a, u, ha, hu⟩ := hk
  rcases getElem?_set_cases ha with ⟨-, rfl⟩ | ⟨-, ha⟩
  · exact .inl hu
  · exact .inr ⟨a, u, ha, hu⟩

/-- Keys that tell the exclusive keys of their tasks are exclusive. -/
theorem Exclusive.mono {κ' : Type*} {owns' : τ → Option κ'} (h : Exclusive owns pool) {f : κ' → κ}
    (hf : ∀ (x : τ) (k : κ'), owns' x = some k → owns x = some (f k)) : Exclusive owns' pool :=
  fun i j x y k hi hj hx hy => h i j x y (f k) hi hj (hf x k hx) (hf y k hy)

/-- There are at most as many keys owned as tasks that own one. -/
theorem card_le_countP [DecidableEq κ] {s : Finset κ} (h : ∀ k ∈ s, k ∈ Owned owns pool) :
    s.card ≤ pool.countP fun x => (owns x).isSome := by
  have hsub : s ⊆ (pool.filterMap owns).toFinset := by
    intro k hk
    obtain ⟨i, x, hi, hx⟩ := h k hk
    exact List.mem_toFinset.mpr (List.mem_filterMap.mpr ⟨x, List.mem_of_getElem? hi, hx⟩)
  calc s.card ≤ (pool.filterMap owns).toFinset.card := Finset.card_le_card hsub
    _ ≤ (pool.filterMap owns).length := List.toFinset_card_le _
    _ = pool.countP fun x => (owns x).isSome := List.length_filterMap_eq_countP

/-! ## The tasks with a property -/

/-- The position of the task `i` among the tasks with the property. -/
def rank (p : τ → Bool) (pool : List τ) (i : ℕ) : ℕ := (pool.take i).countP p

variable {p : τ → Bool}

/-- A task with the property is at its rank among the tasks with the property. -/
theorem getElem?_filter_rank (hx : pool[i]? = some x) (hp : p x = true) :
    (pool.filter p)[rank p pool i]? = some x := by
  unfold rank
  induction pool generalizing i with
  | nil => simp at hx
  | cons z pool ih =>
    cases i with
    | zero =>
      obtain rfl : z = x := by simpa using hx
      simp [hp]
    | succ i =>
      have hrest := ih (i := i) (by simpa using hx)
      cases hz : p z with
      | false => simpa [hz] using hrest
      | true => simpa [hz, List.countP_cons] using hrest

/-- Updating a task that keeps the property updates it among the tasks with the property. -/
theorem filter_set_rank (hx : pool[i]? = some x) (hpx : p x = true) (hpy : p y = true) :
    (pool.set i y).filter p = (pool.filter p).set (rank p pool i) y := by
  unfold rank
  induction pool generalizing i with
  | nil => simp at hx
  | cons z pool ih =>
    cases i with
    | zero =>
      obtain rfl : z = x := by simpa using hx
      simp [hpx, hpy]
    | succ i =>
      have hrest := ih (i := i) (by simpa using hx)
      cases hz : p z with
      | false => simpa [hz] using hrest
      | true => simpa [hz, List.countP_cons] using hrest

/-- Updating a task without the property, before and after, changes no task with the property. -/
theorem filter_set_of_neg (hx : pool[i]? = some x) (hpx : p x = false) (hpy : p y = false) :
    (pool.set i y).filter p = pool.filter p := by
  induction pool generalizing i with
  | nil => simp at hx
  | cons z pool ih =>
    cases i with
    | zero =>
      obtain rfl : z = x := by simpa using hx
      simp [hpx, hpy]
    | succ i =>
      have hrest := ih (i := i) (by simpa using hx)
      cases hz : p z with
      | false => simpa [hz] using hrest
      | true => simpa [hz] using hrest

/-! ## Two pools side by side -/

variable {υ : Type*} {R : τ → υ → Prop} {pool' : List υ}

/-- Related pools stay related when related tasks are put at the same position. -/
theorem forall₂_set (h : List.Forall₂ R pool pool') {y' : υ} (hy : R y y') (i : ℕ) :
    List.Forall₂ R (pool.set i y) (pool'.set i y') := by
  induction h generalizing i with
  | nil => exact .nil
  | cons hhead htail ih =>
    cases i with
    | zero => exact .cons hy htail
    | succ i => exact .cons hhead (ih i)

/-- Related pools are related at every position. -/
theorem forall₂_getElem? (h : List.Forall₂ R pool pool') (i : ℕ) :
    Option.Rel R pool[i]? pool'[i]? := by
  induction h generalizing i with
  | nil => exact .none
  | cons hhead htail ih =>
    cases i with
    | zero => exact .some hhead
    | succ i => simpa using ih i

end TaskPool
