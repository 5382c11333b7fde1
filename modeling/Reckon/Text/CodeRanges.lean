/-
Sets of characters, given as ranges of code points.

A property of characters that a standard lays down is a table of ranges, and this
file is the look-up in such a table.
What a look-up means is `holds_iff`: on ranges in order it says that some range
holds the code point.
-/

namespace Reckon

/-- Ranges of code points, each given by its first and its last member. -/
abbrev CodeRanges := List (Nat × Nat)

namespace CodeRanges

/--
Whether some range holds `n`.  The search stops at the first range that begins
beyond `n`, which is right because the ranges are in ascending order.
-/
def holds (n : Nat) : CodeRanges → Bool
  | [] => false
  | (first, last) :: rest => first ≤ n && (n ≤ last || holds n rest)

/-- Each range holds something and begins beyond the end of the one before it. -/
def ascending : CodeRanges → Bool
  | [] => true
  | [(first, last)] => first ≤ last
  | (first, last) :: (first', last') :: rest =>
      first ≤ last && last < first' && ascending ((first', last') :: rest)

/-- How many code points the ranges hold between them. -/
def count (ranges : CodeRanges) : Nat :=
  ranges.foldr (fun r n => r.2 + 1 - r.1 + n) 0

theorem ascending_tail {r : Nat × Nat} {rest : CodeRanges} (h : ascending (r :: rest) = true) :
    ascending rest = true := by
  cases rest with
  | nil => rfl
  | cons s rest =>
      simp only [ascending, Bool.and_eq_true] at h
      exact h.2

theorem first_le_of_mem {r : Nat × Nat} {rest : CodeRanges}
    (h : ascending (r :: rest) = true) : ∀ s ∈ rest, r.1 ≤ s.1 := by
  induction rest generalizing r with
  | nil => simp
  | cons t rest ih =>
      have htail := ascending_tail h
      simp only [ascending, Bool.and_eq_true, decide_eq_true_eq] at h
      intro s hs
      rcases List.mem_cons.mp hs with rfl | hs
      · omega
      · have := ih htail s hs
        omega

/-- **On ranges in order, a look-up says whether some range holds the code point.** -/
theorem holds_iff {ranges : CodeRanges} (h : ascending ranges = true) (n : Nat) :
    holds n ranges = true ↔ ∃ r ∈ ranges, r.1 ≤ n ∧ n ≤ r.2 := by
  induction ranges with
  | nil => simp [holds]
  | cons r rest ih =>
      have hfirst := first_le_of_mem h
      simp only [holds, Bool.and_eq_true, Bool.or_eq_true, decide_eq_true_eq,
        ih (ascending_tail h), List.mem_cons, exists_eq_or_imp]
      constructor
      · rintro ⟨hlo, hhi | hrest⟩
        · exact Or.inl ⟨hlo, hhi⟩
        · exact Or.inr hrest
      · rintro (hr | ⟨s, hs, hlo, hhi⟩)
        · exact ⟨hr.1, Or.inl hr.2⟩
        · exact ⟨Nat.le_trans (hfirst s hs) hlo, Or.inr ⟨s, hs, hlo, hhi⟩⟩

end CodeRanges

end Reckon
