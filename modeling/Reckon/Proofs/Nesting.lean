/-
Which parentheses are open at a place.

Nothing but counting is needed for that.  The depth of a place is the number of
opening parentheses in front of it less that of closing ones, and an opening
parenthesis is open as long as the depth stays above what it was before it.  The
innermost one that is open at a place is the group of the place.

One token changes this in one way only, and the lemmas say which: an opening
parenthesis is open behind itself, a closing one ends the group it stands in, and
everything else is as it was.
-/
import Reckon.Token
import Mathlib.Data.Int.Order.Basic
import Mathlib.Data.Nat.Init
import Mathlib.Tactic.ByContra

namespace Reckon

namespace Nesting

variable {tokens : List Token}

/-- How many more parentheses are opened than closed in front of a place. -/
def depth (tokens : List Token) (place : Nat) : Int :=
  (tokens.take place).count .opening - (tokens.take place).count .closing

/-- The parenthesis at `start` is opened in front of a place and not closed there yet. -/
def IsOpen (tokens : List Token) (start place : Nat) : Prop :=
  tokens[start]? = some .opening ∧ start < place ∧
    ∀ k, k ≤ place → start < k → depth tokens start < depth tokens k

instance (tokens : List Token) (start place : Nat) : Decidable (IsOpen tokens start place) :=
  inferInstanceAs (Decidable (_ ∧ _ ∧ ∀ k, k ≤ place → start < k → _))

/-- The innermost parenthesis that is open at a place, if any is. -/
def group (tokens : List Token) (place : Nat) : Option Nat :=
  ((List.range place).filter fun start => IsOpen tokens start place).max?

theorem group_eq_some_iff {place start : Nat} :
    group tokens place = some start ↔
      IsOpen tokens start place ∧ ∀ other, IsOpen tokens other place → other ≤ start := by
  have hmem : ∀ other, other ∈ (List.range place).filter (fun s => decide (IsOpen tokens s place)) ↔
      IsOpen tokens other place := by
    intro other
    simp only [List.mem_filter, List.mem_range, decide_eq_true_eq, and_iff_right_iff_imp]
    exact fun h => h.2.1
  rw [group, List.max?_eq_some_iff, hmem]
  simp only [hmem]

theorem group_eq_none_iff {place : Nat} :
    group tokens place = none ↔ ∀ start, ¬ IsOpen tokens start place := by
  rw [group, List.max?_eq_none_iff, List.filter_eq_nil_iff]
  simp only [List.mem_range, decide_eq_true_eq]
  refine ⟨?_, ?_⟩
  · intro h start hopen
    exact h start hopen.2.1 hopen
  · intro h start _
    exact h start

/-! ### What one token does to the depth -/

theorem depth_succ (place : Nat) :
    depth tokens (place + 1) = depth tokens place +
      ((tokens[place]?.toList.count .opening : Int) - tokens[place]?.toList.count .closing) := by
  unfold depth
  rw [List.take_add_one, List.count_append, List.count_append]
  omega

theorem depth_succ_opening {place : Nat} (h : tokens[place]? = some .opening) :
    depth tokens (place + 1) = depth tokens place + 1 := by
  rw [depth_succ, h]
  rfl

theorem depth_succ_closing {place : Nat} (h : tokens[place]? = some .closing) :
    depth tokens (place + 1) = depth tokens place - 1 := by
  rw [depth_succ, h]
  rfl

theorem depth_succ_other {place : Nat} (ho : tokens[place]? ≠ some .opening)
    (hc : tokens[place]? ≠ some .closing) : depth tokens (place + 1) = depth tokens place := by
  rw [depth_succ]
  rcases h : tokens[place]? with _ | token
  · simp
  · rw [h] at ho hc
    have ho' : token ≠ .opening := fun heq => ho (congrArg some heq)
    have hc' : token ≠ .closing := fun heq => hc (congrArg some heq)
    simp [ho', hc']

theorem depth_le_succ {place : Nat} (hc : tokens[place]? ≠ some .closing) :
    depth tokens place ≤ depth tokens (place + 1) := by
  by_cases ho : tokens[place]? = some .opening
  · rw [depth_succ_opening ho]; omega
  · exact Int.le_of_eq (depth_succ_other ho hc).symm

/-! ### What one token does to the open parentheses -/

theorem IsOpen.of_le {start place earlier : Nat} (h : IsOpen tokens start place)
    (hlt : start < earlier) (hle : earlier ≤ place) : IsOpen tokens start earlier :=
  ⟨h.1, hlt, fun k hk hs => h.2.2 k (Nat.le_trans hk hle) hs⟩

theorem IsOpen.ne_operator {start place : Nat} (h : IsOpen tokens start place) (op : Operator) :
    tokens[start]? ≠ some (.operator op) := by
  rw [h.1]
  simp

theorem isOpen_succ_iff {start place : Nat} (hlt : start < place) :
    IsOpen tokens start (place + 1) ↔
      IsOpen tokens start place ∧ depth tokens start < depth tokens (place + 1) := by
  refine ⟨?_, ?_⟩
  · intro h
    exact ⟨h.of_le hlt (Nat.le_succ place), h.2.2 _ (Nat.le_refl _) h.2.1⟩
  · intro hboth
    obtain ⟨h, hdepth⟩ := hboth
    refine ⟨h.1, Nat.lt_succ_of_lt h.2.1, ?_⟩
    intro k hk hs
    rcases Nat.lt_or_ge place k with hgt | hle
    · rw [show k = place + 1 by omega]
      exact hdepth
    · exact h.2.2 k hle hs

theorem isOpen_succ_self {place : Nat} :
    IsOpen tokens place (place + 1) ↔ tokens[place]? = some .opening := by
  refine ⟨?_, ?_⟩
  · exact fun h => h.1
  · intro h
    refine ⟨h, Nat.lt_succ_self place, ?_⟩
    intro k hk hs
    rw [show k = place + 1 by omega, depth_succ_opening h]
    omega

theorem isOpen_succ_of_ne_closing {start place : Nat} (hlt : start < place)
    (hc : tokens[place]? ≠ some .closing) :
    IsOpen tokens start (place + 1) ↔ IsOpen tokens start place := by
  rw [isOpen_succ_iff hlt, and_iff_left_iff_imp]
  intro h
  exact lt_of_lt_of_le (h.2.2 place (Nat.le_refl _) hlt) (depth_le_succ hc)

/-- Where the depth has risen above `d`, a parenthesis is open that was at depth `d`. -/
theorem exists_isOpen {d : Int} {first place : Nat} (hle : first ≤ place)
    (hfirst : depth tokens first ≤ d) :
    d < depth tokens place →
      ∃ start, first ≤ start ∧ depth tokens start = d ∧ IsOpen tokens start place := by
  induction place, hle using Nat.le_induction with
  | base => intro h; omega
  | succ place hle ih =>
      intro h
      by_cases hd : d < depth tokens place
      · obtain ⟨start, hstart, hdepth, hopen⟩ := ih hd
        exact ⟨start, hstart, hdepth, (isOpen_succ_iff hopen.2.1).mpr ⟨hopen, by omega⟩⟩
      · -- The depth rises just here, so an opening parenthesis stands here.
        have ho : tokens[place]? = some .opening := by
          by_contra ho
          by_cases hc : tokens[place]? = some .closing
          · rw [depth_succ_closing hc] at h; omega
          · rw [depth_succ_other ho hc] at h; omega
        rw [depth_succ_opening ho] at h
        exact ⟨place, hle, by omega, isOpen_succ_self.mpr ho⟩

theorem exists_group {place : Nat} (h : 0 < depth tokens place) :
    ∃ start, group tokens place = some start := by
  obtain ⟨start, -, -, hopen⟩ := exists_isOpen (Nat.zero_le place) (Int.le_refl 0) h
  rcases hg : group tokens place with _ | start
  · exact absurd hopen (group_eq_none_iff.mp hg start)
  · exact ⟨start, rfl⟩

/-- A closing parenthesis closes the group it stands in and nothing else. -/
theorem isOpen_succ_of_closing {start place : Nat} (hlt : start < place)
    (hc : tokens[place]? = some .closing) :
    IsOpen tokens start (place + 1) ↔
      IsOpen tokens start place ∧ group tokens place ≠ some start := by
  rw [isOpen_succ_iff hlt, depth_succ_closing hc]
  refine and_congr_right ?_
  intro hopen
  refine ⟨?_, ?_⟩
  · intro hdepth hgroup
    have hstart : depth tokens (start + 1) = depth tokens start + 1 :=
      depth_succ_opening hopen.1
    obtain ⟨inner, hinner, -, hinnerOpen⟩ :=
      exists_isOpen hlt (Int.le_of_eq hstart) (by omega)
    have := (group_eq_some_iff.mp hgroup).2 inner hinnerOpen
    omega
  · intro hgroup
    rw [Ne, group_eq_some_iff, not_and] at hgroup
    have hnot := hgroup hopen
    simp only [not_forall] at hnot
    obtain ⟨inner, hinnerOpen, hinner⟩ := hnot
    have h1 := hopen.2.2 inner (Nat.le_of_lt hinnerOpen.2.1) (Nat.not_le.mp hinner)
    have h2 := hinnerOpen.2.2 place (Nat.le_refl _) hinnerOpen.2.1
    omega

/-- A parenthesis that is open no more has been closed in between. -/
theorem IsOpen.exists_closing {start here place : Nat} (h : IsOpen tokens start here)
    (hle : here ≤ place) :
    ¬ IsOpen tokens start place →
      ∃ j, here ≤ j ∧ j < place ∧ tokens[j]? = some .closing ∧ group tokens j = some start := by
  induction place, hle using Nat.le_induction with
  | base => intro hnot; exact absurd h hnot
  | succ place hle ih =>
      intro hnot
      by_cases hopen : IsOpen tokens start place
      · have hc : tokens[place]? = some .closing := by
          by_contra hc
          exact hnot ((isOpen_succ_of_ne_closing hopen.2.1 hc).mpr hopen)
        have hgroup : group tokens place = some start := by
          by_contra hg
          exact hnot ((isOpen_succ_of_closing hopen.2.1 hc).mpr ⟨hopen, hg⟩)
        exact ⟨place, hle, Nat.lt_succ_self place, hc, hgroup⟩
      · obtain ⟨j, hj, hlt, hc, hgroup⟩ := ih hopen
        exact ⟨j, hj, Nat.lt_succ_of_lt hlt, hc, hgroup⟩

/--
Two places of different groups: either the later group begins behind the earlier
place, or the earlier group is closed in between.
-/
theorem group_eq_or {here place : Nat} (hle : here ≤ place) :
    group tokens here = group tokens place ∨
      (∃ start, group tokens place = some start ∧ here ≤ start) ∨
      ∃ j, here ≤ j ∧ j < place ∧ tokens[j]? = some .closing ∧
        group tokens j = group tokens here := by
  by_cases hinside : ∃ start, group tokens place = some start ∧ here ≤ start
  · exact Or.inr (Or.inl hinside)
  -- What is open at `place` is open at `here` already.
  have hback : ∀ start, IsOpen tokens start place → IsOpen tokens start here := by
    intro start hopen
    rcases hg : group tokens place with _ | inner
    · exact absurd hopen (group_eq_none_iff.mp hg start)
    · have hinner := (group_eq_some_iff.mp hg).2 start hopen
      have hlt : inner < here := by
        by_contra hc
        exact hinside ⟨inner, hg, Nat.not_lt.mp hc⟩
      exact hopen.of_le (by omega) hle
  rcases hg : group tokens here with _ | start
  · refine Or.inl (Eq.symm ?_)
    rw [group_eq_none_iff] at hg ⊢
    exact fun start hopen => hg start (hback start hopen)
  · obtain ⟨hopen, hmax⟩ := group_eq_some_iff.mp hg
    by_cases hstill : IsOpen tokens start place
    · refine Or.inl (Eq.symm (group_eq_some_iff.mpr ⟨hstill, ?_⟩))
      exact fun other hother => hmax other (hback other hother)
    · obtain ⟨j, hj, hlt, hc, hgroup⟩ := hopen.exists_closing hle hstill
      exact Or.inr (Or.inr ⟨j, hj, hlt, hc, hgroup⟩)

end Nesting

end Reckon
