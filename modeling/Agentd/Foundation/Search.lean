import Mathlib

/-!
# Positions of patterns and elements in a list

`find pat l` is the position of the first occurrence of the pattern `pat` in `l`, and `rfind c l`
that of the last occurrence of the element `c`.  The lemmas say where the search ends up when
something in which it cannot succeed is put in front of the list, or when something is put behind
it. An element that is not part of the pattern separates: no occurrence goes beyond it. -/

namespace Search

variable {α : Type*} {pat l l₁ l₂ : List α} {a b c : α}

/-- A pattern that goes beyond a list contains the element that follows. -/
theorem prefix_of_prefix_append_cons (hc : c ∉ pat) (h : pat <+: l₁ ++ c :: l₂) : pat <+: l₁ := by
  rcases List.prefix_or_prefix_of_prefix h (List.prefix_append l₁ (c :: l₂)) with hpre | ⟨t, rfl⟩
  · exact hpre
  · cases t with
    | nil => exact (List.append_nil l₁).symm ▸ List.prefix_rfl
    | cons b t =>
      obtain ⟨rfl, -⟩ := List.cons_prefix_cons.mp ((List.prefix_append_right_inj l₁).mp h)
      exact absurd (List.mem_append_right l₁ List.mem_cons_self) hc

/-- A separator that occurs in neither of two lists shows where they end. -/
theorem append_cons_inj {r₁ r₂ : List α} (h₁ : c ∉ l₁) (h₂ : c ∉ l₂) :
    l₁ ++ c :: r₁ = l₂ ++ c :: r₂ ↔ l₁ = l₂ ∧ r₁ = r₂ := by
  refine ⟨fun h => ?_, by rintro ⟨rfl, rfl⟩; rfl⟩
  induction l₁ generalizing l₂ with
  | nil =>
    cases l₂ with
    | nil => exact ⟨rfl, (List.cons.inj h).2⟩
    | cons b l₂ => exact absurd ((List.cons.inj h).1 ▸ List.mem_cons_self) h₂
  | cons a l₁ ih =>
    cases l₂ with
    | nil => exact absurd ((List.cons.inj h).1 ▸ List.mem_cons_self) h₁
    | cons b l₂ =>
      obtain ⟨rfl, htail⟩ := List.cons.inj h
      obtain ⟨rfl, hrest⟩ := ih (fun hmem => h₁ (List.mem_cons_of_mem _ hmem))
        (fun hmem => h₂ (List.mem_cons_of_mem _ hmem)) htail
      exact ⟨rfl, hrest⟩

/-- An element that occurs can be followed to its last occurrence. -/
theorem exists_append_cons_of_mem (h : c ∈ l) : ∃ l₁ l₂, l = l₁ ++ c :: l₂ ∧ c ∉ l₂ := by
  obtain ⟨s, t, hst, hnot⟩ := List.eq_append_cons_of_mem (List.mem_reverse.mpr h)
  refine ⟨t.reverse, s.reverse, ?_, List.mem_reverse.not.mpr hnot⟩
  rw [← l.reverse_reverse, hst]
  simp

variable [DecidableEq α]

/-- The position of the first occurrence of the pattern. -/
def find (pat : List α) : List α → Option ℕ
  | [] => if pat.isEmpty then some 0 else none
  | a :: l => if pat.isPrefixOf (a :: l) then some 0 else (find pat l).map (· + 1)

/-- The position of the last occurrence of the element. -/
def rfind (c : α) : List α → Option ℕ
  | [] => none
  | a :: l =>
    match rfind c l with
    | some i => some (i + 1)
    | none => if a = c then some 0 else none

/-- A pattern is not found exactly when it does not occur. -/
theorem find_eq_none_iff : find pat l = none ↔ ¬pat <:+: l := by
  induction l with
  | nil => cases pat <;> simp [find]
  | cons a l ih =>
    simp only [find]
    split
    · rename_i hprefix
      have hinfix : pat <:+: a :: l := (List.isPrefixOf_iff_prefix.mp hprefix).isInfix
      exact iff_of_false (by simp) (not_not.mpr hinfix)
    · rename_i hprefix
      have hnot : ¬pat <+: a :: l := fun h => hprefix (List.isPrefixOf_iff_prefix.mpr h)
      rw [Option.map_eq_none_iff, ih, List.infix_cons_iff, not_or]
      exact (and_iff_right hnot).symm

/-- A pattern that starts with `a` is not found at another element. -/
theorem find_cons_of_ne (h : a ≠ b) :
    find (a :: pat) (b :: l) = (find (a :: pat) l).map (· + 1) := by
  simp [find, h]

/-- A pattern is found further on when no element in front is its first one. -/
theorem find_append_of_notMem (h : a ∉ l₁) :
    find (a :: pat) (l₁ ++ l₂) = (find (a :: pat) l₂).map (· + l₁.length) := by
  induction l₁ with
  | nil => simp
  | cons b l₁ ih =>
    obtain ⟨hne, hrest⟩ : a ≠ b ∧ a ∉ l₁ := by simpa using h
    rw [List.cons_append, find_cons_of_ne hne, ih hrest, Option.map_map]
    rfl

/-- A pattern is found further on when no element in front is its second one, nor the element after
these. -/
theorem find_append_of_second_notMem (h : b ∉ l₁) (hhead : l₂.head? ≠ some b) :
    find (a :: b :: pat) (l₁ ++ l₂) = (find (a :: b :: pat) l₂).map (· + l₁.length) := by
  induction l₁ with
  | nil => simp
  | cons x l₁ ih =>
    obtain ⟨-, hrest⟩ : b ≠ x ∧ b ∉ l₁ := by simpa using h
    have hnext : (l₁ ++ l₂).head? ≠ some b := by
      cases l₁ with
      | nil => exact hhead
      | cons y l₁ =>
        have hne : b ≠ y := fun heq => hrest (heq ▸ List.mem_cons_self)
        simpa using Ne.symm hne
    have hnot : (a :: b :: pat).isPrefixOf (x :: (l₁ ++ l₂)) = false := by
      cases hl : l₁ ++ l₂ with
      | nil => simp [List.isPrefixOf]
      | cons y l =>
        rw [hl] at hnext
        have hne : b ≠ y := fun heq => hnext (congrArg some heq.symm)
        simp [List.isPrefixOf, hne]
    rw [List.cons_append, find, hnot, ih hrest, Option.map_map]
    rfl

/-- The pattern itself is found at once. -/
theorem find_append_self (pat l : List α) : find pat (pat ++ l) = some 0 := by
  cases hl : pat ++ l with
  | nil =>
    obtain ⟨rfl, -⟩ := List.append_eq_nil_iff.mp hl
    rfl
  | cons a l' =>
    have hprefix : pat.isPrefixOf (a :: l') = true := by
      rw [← hl]
      exact List.isPrefixOf_iff_prefix.mpr (List.prefix_append pat l)
    simp [find, hprefix]

/-- The pattern stands where it is found. -/
theorem exists_append_of_find {i : ℕ} (h : find pat l = some i) :
    ∃ l₁ l₂, l = l₁ ++ (pat ++ l₂) ∧ l₁.length = i := by
  induction l generalizing i with
  | nil =>
    have hempty : pat = [] := by
      by_contra hne
      simp [find, hne] at h
    subst hempty
    exact ⟨[], [], rfl, by simpa [find] using h⟩
  | cons a l ih =>
    simp only [find] at h
    split at h
    · rename_i hprefix
      obtain ⟨l₂, hl₂⟩ := List.isPrefixOf_iff_prefix.mp hprefix
      exact ⟨[], l₂, hl₂.symm, Option.some_inj.mp h⟩
    · obtain ⟨j, hj, rfl⟩ := Option.map_eq_some_iff.mp h
      obtain ⟨l₁, l₂, rfl, rfl⟩ := ih hj
      exact ⟨a :: l₁, l₂, rfl, rfl⟩

/-- What is put behind a list in which the pattern occurs does not change its first occurrence. -/
theorem find_append_of_find {i : ℕ} (h : find pat l₁ = some i) : find pat (l₁ ++ l₂) = some i := by
  induction l₁ generalizing i with
  | nil =>
    have hempty : pat = [] := by
      by_contra hne
      simp [find, hne] at h
    subst hempty
    simpa [find] using (find_append_self [] l₂).trans h
  | cons a l₁ ih =>
    simp only [find] at h
    rw [List.cons_append, find]
    split at h
    · rename_i hprefix
      have hprefix' := (List.isPrefixOf_iff_prefix.mp hprefix).trans (List.prefix_append _ l₂)
      rw [List.cons_append] at hprefix'
      rw [if_pos (List.isPrefixOf_iff_prefix.mpr hprefix')]
      exact h
    · rename_i hprefix
      obtain ⟨j, hj, rfl⟩ := Option.map_eq_some_iff.mp h
      have hnot : ¬pat.isPrefixOf (a :: (l₁ ++ l₂)) = true := by
        intro hpre
        -- the pattern occurs in `l₁`, so that it is not longer
        have hlen : pat.length ≤ (a :: l₁).length := by
          obtain ⟨s, t, rfl, -⟩ := exists_append_of_find hj
          simp only [List.length_cons, List.length_append]
          omega
        exact hprefix (List.isPrefixOf_iff_prefix.mpr (List.prefix_of_prefix_length_le
          (List.isPrefixOf_iff_prefix.mp hpre) (List.prefix_append (a :: l₁) l₂) hlen))
      rw [if_neg hnot, ih hj, Option.map_some]

/-- A pattern that does not occur before a separator is found further on. -/
theorem find_append_cons (hne : pat ≠ []) (hc : c ∉ pat) (h : find pat l₁ = none) :
    find pat (l₁ ++ c :: l₂) = (find pat l₂).map (· + (l₁.length + 1)) := by
  induction l₁ with
  | nil =>
    have hnot : ¬pat.isPrefixOf (c :: l₂) = true := by
      intro hpre
      exact hne (List.prefix_nil.mp (prefix_of_prefix_append_cons hc
        (List.isPrefixOf_iff_prefix.mp hpre)))
    rw [List.nil_append, find, if_neg hnot]
    rfl
  | cons a l₁ ih =>
    simp only [find] at h
    split at h
    · cases h
    · rename_i hprefix
      have hnot : ¬pat.isPrefixOf (a :: (l₁ ++ c :: l₂)) = true := by
        intro hpre
        exact hprefix (List.isPrefixOf_iff_prefix.mpr (prefix_of_prefix_append_cons hc
          (List.isPrefixOf_iff_prefix.mp hpre)))
      rw [List.cons_append, find, if_neg hnot, ih (Option.map_eq_none_iff.mp h), Option.map_map]
      rfl

/-- An element that occurs has a last occurrence. -/
theorem exists_rfind (h : c ∈ l) : ∃ i, rfind c l = some i := by
  induction l with
  | nil => cases h
  | cons a l ih =>
    simp only [rfind]
    split
    · exact ⟨_, rfl⟩
    · rename_i hnone
      rcases List.mem_cons.mp h with rfl | hmem
      · exact ⟨0, by simp⟩
      · obtain ⟨i, hi⟩ := ih hmem
        rw [hi] at hnone
        cases hnone

/-- What is put in front of a list in which the element occurs only shifts its last occurrence. -/
theorem rfind_append {i : ℕ} (h : rfind c l₂ = some i) :
    rfind c (l₁ ++ l₂) = some (l₁.length + i) := by
  induction l₁ with
  | nil => simpa using h
  | cons a l₁ ih =>
    simp only [List.cons_append, rfind, ih, List.length_cons, Option.some.injEq]
    omega

/-- An element is not found exactly when it does not occur. -/
theorem rfind_eq_none_iff : rfind c l = none ↔ c ∉ l := by
  refine ⟨fun h hmem => ?_, fun h => ?_⟩
  · obtain ⟨i, hi⟩ := exists_rfind hmem
    rw [hi] at h
    cases h
  · induction l with
    | nil => rfl
    | cons a l ih =>
      obtain ⟨hne, hrest⟩ : c ≠ a ∧ c ∉ l := by simpa using h
      simp [rfind, ih hrest, Ne.symm hne]

/-- The occurrence behind which the element does not occur is the last one. -/
theorem rfind_append_cons (h : c ∉ l₂) : rfind c (l₁ ++ c :: l₂) = some l₁.length := by
  have hlast : rfind c (c :: l₂) = some 0 := by
    simp [rfind, rfind_eq_none_iff.mpr h]
  exact rfind_append hlast

end Search
