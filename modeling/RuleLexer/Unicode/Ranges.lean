/-!
# Sets of code points

A character property is kept as the ascending list of its code point ranges.

* `inRanges`: membership, which stops at the first range above the code point;
* `inRanges_iff`: for an ascending list this is membership in some range.
-/

namespace RuleLexer.Unicode

/-- Whether a code point lies in one of the ranges, which are inclusive and ascending. -/
def inRanges (n : Nat) : List (Nat × Nat) → Bool
  | [] => false
  | (low, high) :: ranges => low ≤ n && (n ≤ high || inRanges n ranges)

/-- Every range is non-empty, the first starts at `bound` or above, and each
later one starts above the end of the one before it. -/
def ascendingFrom (bound : Nat) : List (Nat × Nat) → Bool
  | [] => true
  | (low, high) :: ranges => bound ≤ low && low ≤ high && ascendingFrom (high + 1) ranges

theorem le_of_mem_ascendingFrom {bound : Nat} {ranges : List (Nat × Nat)}
    (h : ascendingFrom bound ranges = true) {r : Nat × Nat} (hr : r ∈ ranges) :
    bound ≤ r.1 := by
  induction ranges generalizing bound with
  | nil => cases hr
  | cons s ranges ih =>
    simp only [ascendingFrom, Bool.and_eq_true, decide_eq_true_eq] at h
    rcases List.mem_cons.mp hr with rfl | hr
    · exact h.1.1
    · have := ih h.2 hr
      omega

theorem inRanges_iff {n bound : Nat} {ranges : List (Nat × Nat)}
    (h : ascendingFrom bound ranges = true) :
    inRanges n ranges = true ↔ ∃ r ∈ ranges, r.1 ≤ n ∧ n ≤ r.2 := by
  induction ranges generalizing bound with
  | nil => simp [inRanges]
  | cons s ranges ih =>
    simp only [ascendingFrom, Bool.and_eq_true, decide_eq_true_eq] at h
    simp only [inRanges, Bool.and_eq_true, Bool.or_eq_true, decide_eq_true_eq, ih h.2,
      List.mem_cons, exists_eq_or_imp]
    constructor
    · rintro ⟨low, high | later⟩
      · exact .inl ⟨low, high⟩
      · exact .inr later
    · rintro (⟨low, high⟩ | ⟨r, hr, low, high⟩)
      · exact ⟨low, .inl high⟩
      · have := le_of_mem_ascendingFrom h.2 hr
        exact ⟨by omega, .inr ⟨r, hr, low, high⟩⟩

end RuleLexer.Unicode
