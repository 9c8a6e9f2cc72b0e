/-!
# Ranges of code points

A character property is given by the closed ranges of code points that have it. The ranges ascend,
so a search can stop at the first range that lies above the code point.
-/

namespace TopDown.Unicode

/-- Whether a code point lies in one of the ranges, which ascend. -/
def inRanges : List (Nat × Nat) → Nat → Bool
  | [], _ => false
  | (first, last) :: rest, point =>
      if point < first then false
      else if point ≤ last then true
      else inRanges rest point

/-- The ranges are well formed, disjoint and ascending, all of them above `least`. -/
def Ascending : Nat → List (Nat × Nat) → Prop
  | _, [] => True
  | least, (first, last) :: rest => least ≤ first ∧ first ≤ last ∧ Ascending (last + 1) rest

theorem inRanges_eq_false_of_lt {least point : Nat} {ranges : List (Nat × Nat)}
    (ascending : Ascending least ranges) (below : point < least) :
    inRanges ranges point = false := by
  cases ranges with
  | nil => rfl
  | cons range rest =>
      obtain ⟨hfirst, _, _⟩ := ascending
      have : point < range.1 := by omega
      simp [inRanges, this]

/-- In ascending ranges the early stop loses nothing. -/
theorem inRanges_eq_true_iff {least point : Nat} {ranges : List (Nat × Nat)}
    (ascending : Ascending least ranges) :
    inRanges ranges point = true ↔ ∃ range ∈ ranges, range.1 ≤ point ∧ point ≤ range.2 := by
  induction ranges generalizing least with
  | nil => simp [inRanges]
  | cons range rest ih =>
      obtain ⟨_, hrange, hrest⟩ := ascending
      have ih := ih hrest
      simp only [inRanges, List.mem_cons, exists_eq_or_imp]
      split
      · have hbelow : inRanges rest point = false :=
          inRanges_eq_false_of_lt hrest (by omega)
        rw [hbelow] at ih
        grind
      · split <;> grind

end TopDown.Unicode
