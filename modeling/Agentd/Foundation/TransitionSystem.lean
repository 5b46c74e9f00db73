import Mathlib

/-!
# Partial transition systems and guarded runs

A `TransitionSystem` is a partial step function on states and actions: `none` says that the
action is not enabled.  A `Run` is a finite sequence of steps each of which meets a guard, a
relation between the state before the step and the action taken.  Guards serve two purposes: they
cut a system down to the environment an assumption allows, and they express the condition under
which a property of all runs holds.

`Run.invariant` is the induction every safety proof goes through, `Run.map` transports runs along a
projection that may stutter, `Run.simulate` matches logged runs along a relation, and `exec`
evaluates a concrete action sequence, so that a run with given actions is exhibited by computation
(`run_of_exec`).  `counting` adds to a system a count of the steps of some kind, for bounds that
depend on how often something happened, and `logging` a log of what some of its steps did, for
statements about the order in which things happened.

A rank is a number read off a state.  When the steps of some kind lower it and no other step raises
it, a run has at most as many of them as the rank at its start (`Run.count_add_rank_le`); when every
guarded step lowers it, a run can be continued until none is left (`exists_halted`).  `timed` adds
the time of the last action to the states, and a property that has to last until some time only
needs to be preserved by the actions up to that time (`Run.invariant_until`).

The last two sections are about what a run leaves behind.  `History.Every` relates every event of a
history to its own past.  `Overwrites` is about changes each of which overwrites what a state shows
at one key: when their keys are different, the order in which they are applied does not matter.
-/

/-- A transition system given by a partial step function. -/
structure TransitionSystem (σ α : Type*) where
  /-- The successor state, or `none` when the action is not enabled. -/
  step : σ → α → Option σ

namespace TransitionSystem

variable {σ τ α β : Type*}

/-- `T.Run ok s t`: some sequence of steps leads from `s` to `t`, each one taken at a state and
with an action that meet the guard `ok`. -/
inductive Run (T : TransitionSystem σ α) (ok : σ → α → Prop) (s : σ) : σ → Prop
  /-- The empty run. -/
  | refl : Run T ok s s
  /-- A run extended by one enabled step that meets the guard. -/
  | tail {t u : σ} {a : α} : Run T ok s t → ok t a → T.step t a = some u → Run T ok s u

/-- The evaluation of an action sequence; it stops with `none` at the first action that is not
enabled or does not meet the guard. -/
def exec (T : TransitionSystem σ α) (ok : σ → α → Prop) [∀ s a, Decidable (ok s a)] :
    σ → List α → Option σ
  | s, [] => some s
  | s, a :: as => if ok s a then (T.step s a).bind fun t => exec T ok t as else none

/-- The system together with a count of the steps that meet `p`. -/
def counting (T : TransitionSystem σ α) (p : σ → α → Bool) : TransitionSystem (σ × ℕ) α where
  step x a := (T.step x.1 a).map fun t => (t, if p x.1 a then x.2 + 1 else x.2)

/-- The system together with a log to which every step appends what `f` reads off it. -/
def logging (T : TransitionSystem σ α) (f : σ → α → List β) : TransitionSystem (σ × List β) α where
  step x a := (T.step x.1 a).map fun t => (t, x.2 ++ f x.1 a)

variable {T : TransitionSystem σ α} {U : TransitionSystem τ β}
variable {ok ok' : σ → α → Prop} {okU : τ → β → Prop} {s t u : σ}

namespace Run

/-- A property that holds at the start and is preserved by every guarded step holds at the end. -/
theorem invariant {I : σ → Prop} (hrun : T.Run ok s t) (hs : I s)
    (hstep : ∀ x a y, I x → ok x a → T.step x a = some y → I y) : I t := by
  induction hrun with
  | refl => exact hs
  | tail _ hok hst ih => exact hstep _ _ _ ih hok hst

/-- A run stays a run under a weaker guard. -/
theorem mono (hrun : T.Run ok s t) (h : ∀ x a, ok x a → ok' x a) : T.Run ok' s t := by
  induction hrun with
  | refl => exact .refl
  | tail _ hok hst ih => exact .tail ih (h _ _ hok) hst

/-- Runs compose. -/
theorem trans (hst : T.Run ok s t) (htu : T.Run ok t u) : T.Run ok s u := by
  induction htu with
  | refl => exact hst
  | tail _ hok hstep ih => exact .tail ih hok hstep

/-- A step in front of a run. -/
theorem head {a : α} (hok : ok s a) (hst : T.step s a = some t) (htu : T.Run ok t u) :
    T.Run ok s u :=
  trans (.tail .refl hok hst) htu

/-- A map of states carries runs of `T` to runs of `U` when it carries every guarded step to a
guarded step or to no step at all. -/
theorem map (f : σ → τ) (hrun : T.Run ok s t)
    (hsim : ∀ x a y, ok x a → T.step x a = some y →
      f y = f x ∨ ∃ b, okU (f x) b ∧ U.step (f x) b = some (f y)) :
    U.Run okU (f s) (f t) := by
  induction hrun with
  | refl => exact .refl
  | tail _ hok hst ih =>
    rcases hsim _ _ _ hok hst with heq | ⟨b, hb, hstep⟩
    · rwa [heq]
    · exact .tail ih hb hstep

end Run

/-- When every state of positive rank has a step to a state of smaller rank, a run leads to rank
zero. -/
theorem exists_run_of_rank {I : ℕ → σ → Prop}
    (h : ∀ n x, I (n + 1) x → ∃ a y m, ok x a ∧ T.step x a = some y ∧ m ≤ n ∧ I m y) {n : ℕ}
    (hs : I n s) : ∃ t, T.Run ok s t ∧ I 0 t := by
  induction n using Nat.strong_induction_on generalizing s with
  | h n ih =>
    cases n with
    | zero => exact ⟨s, .refl, hs⟩
    | succ n =>
      obtain ⟨a, y, m, hok, hstep, hle, hy⟩ := h n s hs
      obtain ⟨t, hrun, ht⟩ := ih m (Nat.lt_succ_of_le hle) hy
      exact ⟨t, Run.head hok hstep hrun, ht⟩

/-- A step of the counting system is a step of the system, and counts it or does not. -/
theorem step_counting {p : σ → α → Bool} {x y : σ × ℕ} {a : α}
    (h : (T.counting p).step x a = some y) :
    T.step x.1 a = some y.1 ∧ y.2 = if p x.1 a then x.2 + 1 else x.2 := by
  obtain ⟨t, ht, rfl⟩ := Option.map_eq_some_iff.mp h
  exact ⟨ht, rfl⟩

/-- A step of the logging system is a step of the system, with its entries appended. -/
theorem step_logging {f : σ → α → List β} {x y : σ × List β} {a : α}
    (h : (T.logging f).step x a = some y) :
    T.step x.1 a = some y.1 ∧ y.2 = x.2 ++ f x.1 a := by
  obtain ⟨t, ht, rfl⟩ := Option.map_eq_some_iff.mp h
  exact ⟨ht, rfl⟩

/-- Every run can be logged. -/
theorem Run.exists_logging (hrun : T.Run ok s t) (f : σ → α → List β) (l : List β) :
    ∃ l', (T.logging f).Run (fun x a => ok x.1 a) (s, l) (t, l') := by
  induction hrun with
  | refl => exact ⟨l, .refl⟩
  | @tail x y a _ hok hstep ih =>
    obtain ⟨l', hrun⟩ := ih
    exact ⟨l' ++ f x a, .tail hrun hok (by simp [logging, hstep])⟩

variable (ok okU) in
/-- A forward simulation: when every guarded step of `T` from related states is matched by steps of
`U` that log the same, every logged run of `T` is matched by a run of `U` with the same log. -/
theorem Run.simulate {γ : Type*} {f : σ → α → List γ} {g : τ → β → List γ} {R : σ → τ → Prop}
    {u : τ} {l l' : List γ} (hrun : (T.logging f).Run (fun x a => ok x.1 a) (s, l) (t, l'))
    (hsu : R s u)
    (hstep : ∀ x a y v m, R x v → ok x a → T.step x a = some y →
      ∃ v', (U.logging g).Run (fun x b => okU x.1 b) (v, m) (v', m ++ f x a) ∧ R y v') :
    ∃ u', (U.logging g).Run (fun x b => okU x.1 b) (u, l) (u', l') ∧ R t u' := by
  refine hrun.invariant (I := fun x => ∃ u', (U.logging g).Run (fun x b => okU x.1 b) (u, l)
    (u', x.2) ∧ R x.1 u') ⟨u, .refl, hsu⟩ ?_
  rintro ⟨x, m⟩ a ⟨y, m'⟩ ⟨v, hv, hR⟩ hok hstep'
  obtain ⟨hxy, rfl⟩ := step_logging hstep'
  obtain ⟨v', hrun', hR'⟩ := hstep x a y v m hR hok hxy
  exact ⟨v', hv.trans hrun', hR'⟩

variable [∀ s a, Decidable (ok s a)]

@[simp] theorem exec_nil (s : σ) : T.exec ok s [] = some s := rfl

/-- An evaluated action sequence is a run. -/
theorem run_of_exec {as : List α} (h : T.exec ok s as = some t) : T.Run ok s t := by
  induction as generalizing s with
  | nil =>
    obtain rfl : s = t := by simpa using h
    exact .refl
  | cons a as ih =>
    simp only [exec] at h
    split at h
    · rename_i hok
      obtain ⟨x, hx, hxt⟩ := Option.bind_eq_some_iff.mp h
      exact Run.head hok hx (ih hxt)
    · cases h

/-- The state an action sequence evaluates to is the end of a run. -/
theorem run_exec_get {as : List α} (h : (T.exec ok s as).isSome = true) :
    T.Run ok s ((T.exec ok s as).get h) :=
  run_of_exec (Option.some_get h).symm

variable (ok) in
/-- An action sequence taken under one guard meets another one at every step, or there is a first
step that does not. -/
theorem exec_or_violates [∀ s a, Decidable (ok' s a)] {as : List α}
    (h : T.exec ok' s as = some t) :
    T.exec ok s as = some t ∨ ∃ v a v', T.Run ok s v ∧ ok' v a ∧ ¬ok v a ∧ T.step v a = some v' ∧
      T.Run ok' v' t := by
  induction as generalizing s with
  | nil => exact .inl h
  | cons a as ih =>
    simp only [exec] at h ⊢
    split at h
    · rename_i hok'
      obtain ⟨x, hx, hxt⟩ := Option.bind_eq_some_iff.mp h
      by_cases hok : ok s a
      · rw [if_pos hok, hx]
        rcases ih hxt with hall | ⟨v, b, v', hsv, hb, hnot, hstep, hrest⟩
        · exact .inl hall
        · exact .inr ⟨v, b, v', Run.head hok hx hsv, hb, hnot, hstep, hrest⟩
      · exact .inr ⟨s, a, x, .refl, hok', hok, hx, run_of_exec hxt⟩
    · cases h

/-- An action repeated is a run of that action alone. -/
theorem run_of_exec_replicate {a : α} {n : ℕ}
    (h : T.exec (fun _ _ => True) s (List.replicate n a) = some t) :
    T.Run (fun _ b => b = a) s t := by
  induction n generalizing s with
  | zero =>
    obtain rfl : s = t := by simpa using h
    exact .refl
  | succ n ih =>
    simp only [List.replicate_succ, exec, if_true, Option.bind_eq_some_iff] at h
    obtain ⟨x, hstep, hrest⟩ := h
    exact Run.head rfl hstep (ih hrest)

variable (T ok s) in
/-- A test that holds of the state an action sequence evaluates to holds of the end of a run. -/
theorem exists_run_of_exec (as : List α) (p : σ → Bool)
    (h : (T.exec ok s as).any p = true) : ∃ t, T.Run ok s t ∧ p t = true := by
  obtain ⟨t, ht, hp⟩ := (Option.any_eq_true _ _).mp h
  exact ⟨t, run_of_exec ht, hp⟩

end TransitionSystem

/-! ## Ranks -/

namespace TransitionSystem

variable {σ α : Type*} {T : TransitionSystem σ α} {ok : σ → α → Prop} {s t : σ}

/-- No guarded step can be taken. -/
def Halted (T : TransitionSystem σ α) (ok : σ → α → Prop) (s : σ) : Prop :=
  ∀ a, ok s a → T.step s a = none

/-- A rank that no step raises and every counted step lowers bounds the number of counted steps. -/
theorem Run.count_add_rank_le {p : σ → α → Bool} {okC : σ × ℕ → α → Prop} {I : σ → Prop}
    (rank : σ → ℕ) {x y : σ × ℕ} (hrun : (T.counting p).Run okC x y) (hx : I x.1)
    (hstep : ∀ z a s, I z.1 → okC z a → T.step z.1 a = some s →
      I s ∧ rank s + (if p z.1 a then 1 else 0) ≤ rank z.1) :
    I y.1 ∧ y.2 + rank y.1 ≤ x.2 + rank x.1 := by
  refine hrun.invariant (I := fun z => I z.1 ∧ z.2 + rank z.1 ≤ x.2 + rank x.1) ⟨hx, le_rfl⟩ ?_
  rintro z a z' ⟨hz, hle⟩ hok hcount
  obtain ⟨hstep', hnumber⟩ := step_counting hcount
  obtain ⟨hz', hrank⟩ := hstep z a z'.1 hz hok hstep'
  refine ⟨hz', ?_⟩
  rw [hnumber]
  by_cases hp : p z.1 a = true
  · rw [if_pos hp] at hrank ⊢
    omega
  · rw [if_neg hp] at hrank ⊢
    omega

/-- When every guarded step lowers a rank, some run leads to a state that has no guarded step. -/
theorem exists_halted {I : σ → Prop} (ok : σ → α → Prop) (rank : σ → ℕ) (hs : I s)
    (hstep : ∀ x a y, I x → ok x a → T.step x a = some y → I y ∧ rank y < rank x) :
    ∃ t, T.Run ok s t ∧ I t ∧ T.Halted ok t := by
  induction hn : rank s using Nat.strong_induction_on generalizing s with
  | _ n ih =>
    by_cases hhalted : T.Halted ok s
    · exact ⟨s, .refl, hs, hhalted⟩
    · simp only [Halted, not_forall] at hhalted
      obtain ⟨a, hok, hne⟩ := hhalted
      obtain ⟨y, hy⟩ := Option.ne_none_iff_exists'.mp hne
      obtain ⟨hIy, hlt⟩ := hstep s a y hs hok hy
      obtain ⟨t, hrun, ht⟩ := ih (rank y) (hn ▸ hlt) hIy rfl
      exact ⟨t, Run.head hok hy hrun, ht⟩

end TransitionSystem

/-! ## Clocks -/

namespace TransitionSystem

variable {σ α τ : Type*} [LinearOrder τ]

/-- The system together with the time of the last action. -/
def timed (T : TransitionSystem σ α) (time : α → τ) : TransitionSystem (σ × τ) α where
  step x a := if x.2 ≤ time a then (T.step x.1 a).map fun s => (s, time a) else none

variable {T : TransitionSystem σ α} {time : α → τ} {ok : σ × τ → α → Prop} {x y : σ × τ} {a : α}

/-- A step of the system on a clock is a step of the system at a time not before the last. -/
theorem step_timed (h : (T.timed time).step x a = some y) :
    x.2 ≤ time a ∧ T.step x.1 a = some y.1 ∧ y.2 = time a := by
  simp only [timed] at h
  split at h
  · rename_i hle
    obtain ⟨s, hs, rfl⟩ := Option.map_eq_some_iff.mp h
    exact ⟨hle, hs, rfl⟩
  · cases h

/-- A step of the system may be taken at any time not before the last. -/
theorem timed_step {s : σ} (hle : x.2 ≤ time a) (hstep : T.step x.1 a = some s) :
    (T.timed time).step x a = some (s, time a) := by
  simp [timed, hle, hstep]

namespace Run

/-- A property that holds at the start and is preserved by every guarded step up to a time holds at
the end, if the end is not after that time. -/
theorem invariant_until {I : σ → Prop} {limit : τ} (hrun : (T.timed time).Run ok x y)
    (hx : I x.1)
    (hstep : ∀ (s : σ) (now : τ) (a : α) (s' : σ), I s → ok (s, now) a → now ≤ time a →
      time a ≤ limit → T.step s a = some s' → I s')
    (hlimit : y.2 ≤ limit) : I y.1 := by
  induction hrun with
  | refl => exact hx
  | @tail t u b _ hok hst ih =>
    obtain ⟨hle, hs, heq⟩ := step_timed hst
    have hb : time b ≤ limit := heq ▸ hlimit
    have ht : I t.1 := ih (le_trans hle hb)
    exact hstep t.1 t.2 b u.1 ht hok hle hb hs

end Run

end TransitionSystem

/-! ## Histories -/

namespace History

variable {ε : Type*} {P : ε → List ε → Prop} {e : ε} {past log : List ε}

/-- Every event of the history satisfies `P` together with its past. -/
def Every (P : ε → List ε → Prop) : List ε → Prop
  | [] => True
  | e :: past => P e past ∧ Every P past

/-- Events for which the relation holds whatever their past may be added. -/
theorem Every.append {newer : List ε} (h : Every P log) (hnewer : ∀ e ∈ newer, ∀ past, P e past) :
    Every P (newer ++ log) := by
  induction newer with
  | nil => exact h
  | cons e rest ih =>
    have hrest : ∀ e' ∈ rest, ∀ past, P e' past := fun e' he' =>
      hnewer e' (List.mem_cons_of_mem _ he')
    exact ⟨hnewer e List.mem_cons_self _, ih hrest⟩

/-- The relation holds at every suffix of the history. -/
theorem Every.of_suffix (h : Every P log) (hs : e :: past <:+ log) : P e past := by
  induction log with
  | nil => simp at hs
  | cons first rest ih =>
    rcases List.suffix_cons_iff.mp hs with heq | hrest
    · obtain ⟨rfl, rfl⟩ := List.cons.inj heq
      exact h.1
    · exact ih h.2 hrest

/-- An event of the history has some past with which it satisfies `P`. -/
theorem Every.of_mem (h : Every P log) (he : e ∈ log) : ∃ past, past <:+ log ∧ P e past := by
  obtain ⟨newer, past, rfl⟩ := List.append_of_mem he
  have hsuffix : e :: past <:+ newer ++ e :: past := List.suffix_append _ _
  exact ⟨past, (List.suffix_cons _ _).trans hsuffix, h.of_suffix hsuffix⟩

end History

/-! ## Patches -/

section

variable {σ α κ β : Type*}

/-- A change `a` writes `value a` at `key a` and leaves what the state shows at other keys. -/
structure Overwrites (step : σ → α → σ) (view : σ → κ → β) (key : α → κ) (value : α → β) :
    Prop where
  written : ∀ s a, view (step s a) (key a) = value a
  kept : ∀ s a k, k ≠ key a → view (step s a) k = view s k

namespace Overwrites

variable {step : σ → α → σ} {view : σ → κ → β} {key : α → κ} {value : α → β} {changes : List α}
  {s : σ} {a : α} {k : κ}

/-- A patch keeps what the state shows at a key that none of its changes has. -/
theorem foldl_kept (h : Overwrites step view key value) (hnone : ∀ a ∈ changes, key a ≠ k) :
    view (changes.foldl step s) k = view s k := by
  induction changes generalizing s with
  | nil => rfl
  | cons a rest ih =>
    have hne : k ≠ key a := (hnone a List.mem_cons_self).symm
    have hrest : ∀ a' ∈ rest, key a' ≠ k := fun a' ha' => hnone a' (List.mem_cons_of_mem a ha')
    rw [List.foldl_cons, ih hrest, h.kept s a k hne]

/-- A patch with different keys writes what each of its changes says. -/
theorem foldl_written (h : Overwrites step view key value)
    (hdistinct : changes.Pairwise fun a b => key a ≠ key b) (ha : a ∈ changes) :
    view (changes.foldl step s) (key a) = value a := by
  induction changes generalizing s with
  | nil => cases ha
  | cons a' rest ih =>
    obtain ⟨hhead, hrest⟩ := List.pairwise_cons.mp hdistinct
    rw [List.foldl_cons]
    rcases List.mem_cons.mp ha with rfl | ha
    · rw [h.foldl_kept fun b hb => (hhead b hb).symm, h.written]
    · exact ih hrest ha

end Overwrites

end
