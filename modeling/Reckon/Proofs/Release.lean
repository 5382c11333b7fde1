/-
Where every token is released, told from the places of the tokens alone.

An operand is released at its own place.  An operator is released where its group
first has an operator that binds no tighter, or ends, and at the end of the tokens if
neither happens; a parenthesis that is never closed is released there too.

What waits at a place is what is due there or later.  Two facts of it are all that a
stack needs.  The entries that the next token makes leave come behind the others
(`Waits.leaves_of_lt`), because an operator that waits binds more tightly than those
that wait in front of it in its group.  And one place further the same entries wait,
but for those that leave and the token that comes in (`waits_succ_iff`).
-/
import Reckon.Proofs.Nesting

namespace Reckon

namespace Nesting

open Token (isOperand)

variable {tokens : List Token} {i place : Nat} {op : Operator}

/-- Whether a token ends the wait of an operator of its group: one that binds no tighter does,
and so does the end of the group. -/
def endsWait (op : Operator) : Token → Bool
  | .operator later => later.precedence ≤ op.precedence
  | .closing => true
  | _ => false

/-- Behind `i` and in the same group, the token at `place` ends the wait of an operator `op`. -/
def Releases (tokens : List Token) (op : Operator) (i place : Nat) : Prop :=
  i < place ∧ group tokens place = group tokens i ∧ tokens[place]?.any (endsWait op) = true

instance (tokens : List Token) (op : Operator) (i place : Nat) :
    Decidable (Releases tokens op i place) :=
  inferInstanceAs (Decidable (_ ∧ _ ∧ _))

/-- Where the token at `i` is released. -/
def release (tokens : List Token) (i : Nat) : Nat :=
  match tokens[i]? with
  | some (.operator op) =>
      ((List.range tokens.length).find? fun place => Releases tokens op i place).getD tokens.length
  | some .opening => tokens.length
  | _ => i

/-- The token at `i` is in postfix order: an operand, an operator, or a parenthesis never closed. -/
def GoesOut (tokens : List Token) (i : Nat) : Prop :=
  match tokens[i]? with
  | some (.number _) | some (.name _) | some (.operator _) => True
  | some .opening => IsOpen tokens i tokens.length
  | _ => False

/-- By place of release, and the later token first where that is the same. -/
def ReleasedBefore (tokens : List Token) (i j : Nat) : Prop :=
  release tokens i < release tokens j ∨ (release tokens i = release tokens j ∧ j < i)

/-! ### Places of release -/

theorem release_opening (h : tokens[i]? = some .opening) : release tokens i = tokens.length := by
  unfold release
  rw [h]

theorem release_operand {token : Token} (h : tokens[i]? = some token)
    (hoperand : isOperand token = true) : release tokens i = i := by
  unfold release
  rw [h]
  cases token <;> first | rfl | cases hoperand

theorem Releases.lt_length (h : Releases tokens op i place) : place < tokens.length := by
  by_contra hge
  have hnone : tokens[place]? = none := List.getElem?_eq_none (Nat.not_lt.mp hge)
  have hany := h.2.2
  rw [hnone] at hany
  cases hany

/-- Within the tokens, an operator is released in front of a place if a token there did so. -/
theorem release_lt_iff (h : tokens[i]? = some (.operator op)) (hplace : place ≤ tokens.length) :
    release tokens i < place ↔ ∃ j, j < place ∧ Releases tokens op i j := by
  unfold release
  rw [h]
  show ((List.range tokens.length).find? fun j => Releases tokens op i j).getD _ < place ↔ _
  rcases hf : (List.range tokens.length).find? fun j => decide (Releases tokens op i j) with _ | j
  · rw [List.find?_range_eq_none] at hf
    simp only [Option.getD_none]
    refine ⟨?_, ?_⟩
    · intro hlt
      omega
    · intro hboth
      obtain ⟨j, -, hj⟩ := hboth
      simpa [hj] using hf j hj.lt_length
  · obtain ⟨hj, -, hleast⟩ := List.find?_range_eq_some.mp hf
    rw [Option.getD_some]
    refine ⟨?_, ?_⟩
    · intro hlt
      exact ⟨j, hlt, by simpa using hj⟩
    · intro hboth
      obtain ⟨k, hk, hreleases⟩ := hboth
      rcases Nat.lt_or_ge k j with hlt | hge
      · simpa [hreleases] using hleast k hlt
      · omega

theorem release_lt_succ_iff (h : tokens[i]? = some (.operator op))
    (hplace : place < tokens.length) :
    release tokens i < place + 1 ↔ release tokens i < place ∨ Releases tokens op i place := by
  rw [release_lt_iff h hplace, release_lt_iff h (Nat.le_of_lt hplace)]
  refine ⟨?_, ?_⟩
  · intro hboth
    obtain ⟨j, hj, hreleases⟩ := hboth
    rcases Nat.lt_or_ge j place with hlt | hge
    · exact Or.inl ⟨j, hlt, hreleases⟩
    · rw [show j = place by omega] at hreleases
      exact Or.inr hreleases
  · intro hcase
    rcases hcase with ⟨j, hj, hreleases⟩ | hreleases
    · exact ⟨j, Nat.lt_succ_of_lt hj, hreleases⟩
    · exact ⟨place, Nat.lt_succ_self place, hreleases⟩

theorem lt_release (h : tokens[i]? = some (.operator op)) : i < release tokens i := by
  have hi : i < tokens.length := (List.getElem?_eq_some_iff.mp h).1
  by_contra hge
  obtain ⟨j, hj, hreleases⟩ := (release_lt_iff h hi).mp (Nat.not_le.mp hge)
  have := hreleases.1
  omega

theorem release_le_length (hi : i < tokens.length) : release tokens i ≤ tokens.length := by
  unfold release
  split
  · rcases hf : (List.range tokens.length).find? fun j => decide (Releases tokens _ i j) with _ | j
    · exact Nat.le_refl _
    · exact Nat.le_of_lt (List.mem_range.mp (List.mem_of_find?_eq_some hf))
  · exact Nat.le_refl _
  · exact Nat.le_of_lt hi

/-! ### What waits at a place -/

/-- The token at `i` waits at a place: an operator not released before, or an open parenthesis. -/
def Waits (tokens : List Token) (place i : Nat) : Prop :=
  (∃ op, tokens[i]? = some (.operator op) ∧ i < place ∧ place ≤ release tokens i) ∨
    IsOpen tokens i place

/-- The token at `place` makes the operator at `i` go out. -/
def Leaves (tokens : List Token) (place i : Nat) : Prop :=
  ∃ op, tokens[i]? = some (.operator op) ∧ Releases tokens op i place

theorem Waits.lt (h : Waits tokens place i) : i < place := by
  rcases h with ⟨_, _, hlt, _⟩ | hopen
  · exact hlt
  · exact hopen.2.1

theorem IsOpen.not_leaves {place' : Nat} (h : IsOpen tokens i place') :
    ¬ Leaves tokens place i := by
  intro hboth
  obtain ⟨op, hop, -⟩ := hboth
  exact h.ne_operator op hop

/-- An operator that waits belongs to the group of the place, or came before that group. -/
theorem Waits.group_eq (hplace : place ≤ tokens.length) (hop : tokens[i]? = some (.operator op))
    (h : Waits tokens place i) :
    group tokens place = group tokens i ∨ ∃ start, group tokens place = some start ∧ i < start := by
  rcases group_eq_or (Nat.le_of_lt h.lt) with heq | ⟨start, hstart, hle⟩ | ⟨j, hj, hlt, hc, hgroup⟩
  · exact Or.inl heq.symm
  · have hne : i ≠ start := by
      intro hsame
      subst hsame
      exact (group_eq_some_iff.mp hstart).1.ne_operator op hop
    exact Or.inr ⟨start, hstart, by omega⟩
  · -- Had its group been closed in between, it would not wait any more.
    have hne : i ≠ j := by
      intro hsame
      subst hsame
      rw [hc] at hop
      cases hop
    have hreleases : Releases tokens op i j := ⟨by omega, hgroup, by rw [hc]; rfl⟩
    have hgone := (release_lt_iff hop hplace).mpr ⟨j, hlt, hreleases⟩
    rcases h with ⟨_, _, _, hle⟩ | hopen
    · omega
    · exact absurd hop (hopen.ne_operator op)

/-- **What an operator leaves standing binds more loosely than what waits above it.** -/
theorem Waits.leaves_of_lt {later : Nat} (hplace : place ≤ tokens.length)
    (hlater : Waits tokens place later) (h : Waits tokens place i) (hlt : i < later)
    (hleaves : Leaves tokens place i) : Leaves tokens place later := by
  obtain ⟨op, hop, hi, hgroup, hends⟩ := hleaves
  -- The group of the place began before `i`, so all that waits behind `i` belongs to it.
  have hinside : ∀ start, group tokens place = some start → start < i := by
    intro start hstart
    rw [hgroup] at hstart
    exact (group_eq_some_iff.mp hstart).1.2.1
  rcases hlater with ⟨lop, hlop, hll, hlrelease⟩ | hopen
  · have hlgroup : group tokens place = group tokens later := by
      rcases Waits.group_eq hplace hlop (Or.inl ⟨lop, hlop, hll, hlrelease⟩) with heq | ⟨s, hs, hls⟩
      · exact heq
      · have := hinside s hs
        omega
    refine ⟨lop, hlop, hll, hlgroup, ?_⟩
    -- `later` did not release `op`, so it binds more tightly.
    have hnot : ¬ Releases tokens op i later := by
      intro hreleases
      have := (release_lt_iff hop hplace).mpr ⟨later, hll, hreleases⟩
      rcases h with ⟨_, _, _, hle⟩ | hopen
      · omega
      · exact hopen.ne_operator op hop
    have htighter : op.precedence < lop.precedence := by
      by_contra hle
      refine hnot ⟨hlt, hlgroup.symm.trans hgroup, ?_⟩
      rw [hlop]
      simpa [endsWait] using Nat.not_lt.mp hle
    rcases ht : tokens[place]? with _ | token
    · rw [ht] at hends
      cases hends
    · rw [ht] at hends
      simp only [Option.any_some] at hends ⊢
      cases token with
      | operator top =>
          simp only [endsWait, decide_eq_true_eq] at hends ⊢
          omega
      | closing => rfl
      | number _ | name _ | opening | finish => cases hends
  · rcases hg : group tokens place with _ | start
    · exact absurd hopen (group_eq_none_iff.mp hg later)
    · have h1 := (group_eq_some_iff.mp hg).2 later hopen
      have h2 := hinside start hg
      omega

/-- What waits one place further: what waited and does not leave, and the new token if it waits. -/
theorem waits_succ_iff (hplace : place < tokens.length) :
    Waits tokens (place + 1) i ↔
      (i = place ∧ ((∃ op, tokens[place]? = some (.operator op)) ∨
        tokens[place]? = some .opening)) ∨
      (Waits tokens place i ∧ ¬ Leaves tokens place i ∧
        ¬ (tokens[place]? = some .closing ∧ group tokens place = some i)) := by
  rcases Nat.lt_trichotomy i place with hlt | rfl | hgt
  · rw [or_iff_right (fun h => absurd h.1 (Nat.ne_of_lt hlt))]
    refine ⟨?_, ?_⟩
    · intro hcase
      rcases hcase with ⟨op, hop, -, hle⟩ | hopen
      · have hnot : ¬ release tokens i < place + 1 := Nat.not_lt.mpr hle
        rw [release_lt_succ_iff hop hplace, not_or] at hnot
        refine ⟨Or.inl ⟨op, hop, hlt, Nat.not_lt.mp hnot.1⟩, ?_, ?_⟩
        · intro hboth
          obtain ⟨op', hop', hreleases⟩ := hboth
          rw [hop] at hop'
          cases hop'
          exact hnot.2 hreleases
        · intro hboth
          obtain ⟨-, hgroup⟩ := hboth
          exact (group_eq_some_iff.mp hgroup).1.ne_operator op hop
      · refine ⟨Or.inr (hopen.of_le hlt (Nat.le_succ place)), hopen.not_leaves, ?_⟩
        intro hboth
        obtain ⟨hc, hgroup⟩ := hboth
        exact ((isOpen_succ_of_closing hlt hc).mp hopen).2 hgroup
    · intro hboth
      rcases hboth with ⟨⟨op, hop, -, hle⟩ | hopen, hstays, hnotClosed⟩
      · refine Or.inl ⟨op, hop, Nat.lt_succ_of_lt hlt, ?_⟩
        refine Nat.not_lt.mp (fun hc => ?_)
        rcases (release_lt_succ_iff hop hplace).mp hc with hearlier | hreleases
        · omega
        · exact hstays ⟨op, hop, hreleases⟩
      · refine Or.inr ?_
        by_cases hc : tokens[place]? = some .closing
        · exact (isOpen_succ_of_closing hlt hc).mpr ⟨hopen, fun hg => hnotClosed ⟨hc, hg⟩⟩
        · exact (isOpen_succ_of_ne_closing hlt hc).mpr hopen
  · rw [or_iff_left (fun h => absurd h.1.lt (Nat.lt_irrefl _)), and_iff_right rfl]
    refine ⟨?_, ?_⟩
    · intro hcase
      rcases hcase with ⟨op, hop, -⟩ | hopen
      · exact Or.inl ⟨op, hop⟩
      · exact Or.inr hopen.1
    · intro hcase
      rcases hcase with ⟨op, hop⟩ | hopening
      · exact Or.inl ⟨op, hop, Nat.lt_succ_self _, lt_release hop⟩
      · exact Or.inr (isOpen_succ_self.mpr hopening)
  · refine ⟨?_, ?_⟩
    · intro h
      have := h.lt
      omega
    · intro hcase
      rcases hcase with ⟨heq, -⟩ | ⟨h, -⟩
      · omega
      · have := h.lt
        omega

end Nesting

end Reckon
