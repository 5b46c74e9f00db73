import Mathlib

/-!
# Streams of lines

A stream is cut after every occurrence of a separator, so that its pieces are the lines with their
separators; only the last piece may lack it.  Behind a separator the pieces of a stream are those of
its two parts (`chop_append`), so whoever reads line by line finds the same lines however the stream
arrives.  Lines that do not contain the separator come out of a stream of frames as they were put in
(`chop_frames`).
-/

namespace Lines

variable {α : Type*} [DecidableEq α] {nl : α} {l r p : List α} {ps : List (List α)}

/-- The pieces of a stream, each up to and including the next `nl`. -/
def chop (nl : α) (stream : List α) : List (List α) := stream.splitBy fun a _ => a != nl

@[simp] theorem chop_nil (nl : α) : chop nl [] = [] := rfl

@[simp] theorem chop_eq_nil : chop nl l = [] ↔ l = [] := List.splitBy_eq_nil

@[simp] theorem flatten_chop (nl : α) (l : List α) : (chop nl l).flatten = l :=
  List.flatten_splitBy _ l

/-- A stream can be cut in two behind a separator. -/
theorem chop_append (h : ∀ a ∈ l.getLast?, a = nl) : chop nl (l ++ r) = chop nl l ++ chop nl r :=
  List.splitBy_append fun a ha b _ => by simp [h a ha]

theorem chop_ne_nil (h : p ∈ chop nl l) : p ≠ [] := List.ne_nil_of_mem_splitBy h

/-- A piece is not cut any further. -/
theorem chop_of_mem (h : p ∈ chop nl l) : chop nl p = [p] :=
  List.splitBy_of_isChain (chop_ne_nil h) (List.isChain_of_mem_splitBy h)

/-- Only the last piece may lack its separator. -/
theorem getLast?_of_chop_cons (h : chop nl l = p :: ps) (hps : ps ≠ []) :
    p.getLast? = some nl := by
  obtain ⟨-, -, -, hcuts⟩ := List.splitBy_eq_iff.mp h
  obtain ⟨q, qs, rfl⟩ := List.exists_cons_of_ne_nil hps
  obtain ⟨hp, hq, hcut⟩ := (List.isChain_cons_cons.mp hcuts).1
  rw [List.getLast?_eq_some_getLast hp]
  simpa using hcut

/-- A separator is the last element of its piece. -/
theorem getLast?_of_mem_chop (h : p ∈ chop nl l) (hmem : nl ∈ p) : p.getLast? = some nl := by
  obtain ⟨s, t, rfl⟩ := List.append_of_mem hmem
  cases t with
  | nil => exact List.getLast?_concat
  | cons b t =>
    have hpair := (List.isChain_append_cons_cons.mp (List.isChain_of_mem_splitBy h)).2.1
    simp at hpair

/-- A stream without a separator is one piece. -/
theorem chop_of_notMem (h : nl ∉ l) (hne : l ≠ []) : chop nl l = [l] := by
  refine List.splitBy_of_isChain hne ((List.pairwise_of_forall_mem_list fun a ha b _ => ?_).isChain)
  rw [bne_iff_ne]
  exact fun heq => h (heq ▸ ha)

/-- A line and its separator are one piece. -/
theorem chop_line (h : nl ∉ l) : chop nl (l ++ [nl]) = [l ++ [nl]] := by
  refine List.splitBy_of_isChain (by simp) (List.isChain_append.mpr ⟨?_, by simp, ?_⟩)
  · refine (List.pairwise_of_forall_mem_list fun a ha b _ => ?_).isChain
    rw [bne_iff_ne]
    exact fun heq => h (heq ▸ ha)
  · intro a ha b _
    rw [bne_iff_ne]
    exact fun heq => h (heq ▸ List.mem_of_mem_getLast? ha)

/-- Lines that are written one after the other, each with its separator, are read back one by one.
-/
theorem chop_frames {lines : List (List α)} (h : ∀ line ∈ lines, nl ∉ line) :
    chop nl (lines.flatMap (· ++ [nl])) = lines.map (· ++ [nl]) := by
  induction lines with
  | nil => rfl
  | cons line lines ih =>
    obtain ⟨hline, hlines⟩ := List.forall_mem_cons.mp h
    rw [List.flatMap_cons, chop_append (by simp), chop_line hline, ih hlines]
    rfl

end Lines
