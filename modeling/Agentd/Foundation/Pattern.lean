import Mathlib

/-!
# Patterns

The building blocks of a textual pattern as regular expressions: a class of symbols (`oneOf`), a
bounded repetition (`atMost`), and pieces joined by a separator (`separated`).  Each one comes with
a description of the texts it matches that does not mention the expression: a text matches the last
one exactly when every piece between the separators matches (`mem_separated`).
-/

namespace Pattern

open RegularExpression Computability

variable {α : Type*} {cs : List α} {r : RegularExpression α} {x : List α} {sep : α} {n : ℕ}

/-- One of the symbols: `[...]`. -/
def oneOf (cs : List α) : RegularExpression α :=
  cs.foldr (fun c r => char c + r) 0

/-- At most `n` repetitions: `r{0,n}`. -/
def atMost (n : ℕ) (r : RegularExpression α) : RegularExpression α := (r + 1) ^ n

/-- Pieces joined by a separator: `r(sep r)*`. -/
def separated (sep : α) (r : RegularExpression α) : RegularExpression α :=
  r * (char sep * r).star

theorem mem_oneOf : x ∈ (oneOf cs).matches' ↔ ∃ c ∈ cs, x = [c] := by
  induction cs with
  | nil => simp [oneOf, Language.notMem_zero]
  | cons c cs ih =>
    have hsplit : x ∈ (oneOf (c :: cs)).matches' ↔ x = [c] ∨ x ∈ (oneOf cs).matches' := Iff.rfl
    rw [hsplit, ih]
    simp

/-- A bounded repetition of a class matches the short texts over the class. -/
theorem mem_atMost_oneOf : x ∈ (atMost n (oneOf cs)).matches' ↔
    x.length ≤ n ∧ ∀ c ∈ x, c ∈ cs := by
  unfold atMost
  rw [matches'_pow, matches'_add, matches'_epsilon]
  induction n generalizing x with
  | zero =>
    rw [pow_zero, Language.mem_one]
    constructor
    · rintro rfl
      simp
    · intro h
      exact List.length_eq_zero_iff.mp (Nat.le_zero.mp h.1)
  | succ n ih =>
    rw [pow_succ', Language.mem_mul]
    constructor
    · rintro ⟨a, ha, b, hb, rfl⟩
      obtain ⟨hlen, hmem⟩ := ih.mp hb
      rcases ha with ha | ha
      · obtain ⟨c, hc, rfl⟩ := mem_oneOf.mp ha
        refine ⟨?_, ?_⟩
        · rw [List.length_append, List.length_singleton]
          omega
        · intro c' hc'
          rcases List.mem_cons.mp hc' with rfl | hc'
          · exact hc
          · exact hmem c' hc'
      · obtain rfl : a = [] := ha
        exact ⟨Nat.le_succ_of_le hlen, hmem⟩
    · rintro ⟨hlen, hmem⟩
      cases x with
      | nil => exact ⟨[], .inr rfl, [], ih.mpr ⟨Nat.zero_le n, by simp⟩, rfl⟩
      | cons c x =>
        have hc : [c] ∈ (oneOf cs).matches' := mem_oneOf.mpr ⟨c, hmem c List.mem_cons_self, rfl⟩
        have hx : x.length ≤ n := Nat.le_of_succ_le_succ hlen
        refine ⟨[c], .inl hc, x, ih.mpr ⟨hx, ?_⟩, rfl⟩
        intro c' hc'
        exact hmem c' (List.mem_cons_of_mem c hc')

/-- Joining pieces puts the separator in front of all but the first. -/
theorem intercalate_cons (x : List α) (pieces : List (List α)) :
    [sep].intercalate (x :: pieces) = x ++ (pieces.map (sep :: ·)).flatten := by
  induction pieces generalizing x with
  | nil => simp
  | cons y pieces ih =>
    rw [List.intercalate_cons_cons, ih]
    simp

/-- When no piece contains the separator, a text matches exactly if every piece between the
separators does. -/
theorem mem_separated [DecidableEq α] (hsep : ∀ y ∈ r.matches', sep ∉ y) :
    x ∈ (separated sep r).matches' ↔ ∀ piece ∈ x.splitOn sep, piece ∈ r.matches' := by
  unfold separated
  rw [matches'_mul, matches'_star, matches'_mul, matches'_char, Language.mem_mul]
  constructor
  · rintro ⟨y, hy, z, hz, rfl⟩
    obtain ⟨pieces, rfl, hpieces⟩ := Language.mem_kstar.mp hz
    -- every piece after the first starts with the separator
    have htails : ∃ tails : List (List α), pieces = tails.map (sep :: ·) ∧
        ∀ tail ∈ tails, tail ∈ r.matches' := by
      refine ⟨pieces.map List.tail, ?_, ?_⟩
      · rw [List.map_map]
        refine (List.map_congr_left fun p hp => ?_).trans (List.map_id pieces) |>.symm
        obtain ⟨a, ha, b, hb, rfl⟩ := Language.mem_mul.mp (hpieces p hp)
        obtain rfl : a = [sep] := ha
        rfl
      · intro tail htail
        obtain ⟨p, hp, rfl⟩ := List.mem_map.mp htail
        obtain ⟨a, ha, b, hb, rfl⟩ := Language.mem_mul.mp (hpieces p hp)
        obtain rfl : a = [sep] := ha
        exact hb
    obtain ⟨tails, rfl, htails⟩ := htails
    have hall : ∀ piece ∈ y :: tails, piece ∈ r.matches' := by
      intro piece hpiece
      rcases List.mem_cons.mp hpiece with rfl | hpiece
      · exact hy
      · exact htails piece hpiece
    rw [← intercalate_cons, List.splitOn_intercalate]
    · exact hall
    · intro piece hpiece
      exact hsep piece (hall piece hpiece)
    · simp
  · intro hall
    have hjoin : [sep].intercalate (x.splitOn sep) = x := List.intercalate_splitOn sep
    cases hsplit : x.splitOn sep with
    | nil => exact absurd hsplit (List.splitOn_ne_nil sep x)
    | cons y tails =>
      rw [hsplit] at hjoin hall
      rw [intercalate_cons] at hjoin
      refine ⟨y, hall y List.mem_cons_self, _, Language.mem_kstar.mpr ⟨_, rfl, ?_⟩, hjoin⟩
      intro p hp
      obtain ⟨tail, htail, rfl⟩ := List.mem_map.mp hp
      refine Language.mem_mul.mpr ⟨[sep], rfl, tail, ?_, rfl⟩
      exact hall tail (List.mem_cons_of_mem y htail)

/-- A text is as long as its pieces and the separators between them. -/
theorem sum_length_splitOn [DecidableEq α] (sep : α) (x : List α) :
    ((x.splitOn sep).map fun piece => piece.length + 1).sum = x.length + 1 := by
  have hjoin : [sep].intercalate (x.splitOn sep) = x := List.intercalate_splitOn sep
  cases hsplit : x.splitOn sep with
  | nil => exact absurd hsplit (List.splitOn_ne_nil sep x)
  | cons y tails =>
    rw [hsplit, intercalate_cons] at hjoin
    rw [← hjoin, List.length_append, List.length_flatten, List.map_map, List.map_cons,
      List.sum_cons]
    have hlength :
        (List.length ∘ fun tail => sep :: tail) = fun tail : List α => tail.length + 1 := by
      funext tail
      simp
    rw [hlength]
    omega

/-! ## Ranges of characters -/

/-- The characters from `lo` to `hi`. -/
def charRange (lo hi : Char) : List Char :=
  (List.range' lo.toNat (hi.toNat + 1 - lo.toNat)).map Char.ofNat

/-- A range below the surrogates has the characters between its ends. -/
theorem mem_charRange {lo hi c : Char} (hhi : hi.toNat < 0xd800) :
    c ∈ charRange lo hi ↔ lo.toNat ≤ c.toNat ∧ c.toNat ≤ hi.toNat := by
  simp only [charRange, List.mem_map, List.mem_range'_1]
  constructor
  · rintro ⟨n, hn, rfl⟩
    have hvalid : n.isValidChar := .inl (by omega)
    rw [Char.toNat_ofNat, if_pos hvalid]
    omega
  · rintro ⟨hlo, hle⟩
    exact ⟨c.toNat, by omega, Char.ofNat_toNat c⟩

end Pattern
