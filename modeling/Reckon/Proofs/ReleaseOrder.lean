/-
Postfix order is the order of release.

The conversion is followed place by place.  `Progress` says of each place what has
gone out and what waits there, as places of tokens: what has gone out is what was
released before, in order of release, and what waits is told by `Waits`, the latest
first.  One token keeps that (`Progress.step`), so all tokens do, and what is drained
in the end is what is released at the end.
-/
import Reckon.Proofs.Release
import Reckon.Proofs.Waiting
import Mathlib.Data.List.Infix

namespace Reckon

namespace Nesting

open Token (isOperand)

variable {tokens : List Token} {i place : Nat} {op : Operator}

/-- The token at a place. -/
def tokenAt (tokens : List Token) (i : Nat) : Token :=
  tokens.getD i .finish

/-- The entry that the token at a place makes when it waits. -/
def entryAt (tokens : List Token) (i : Nat) : Pending :=
  match tokens[i]? with
  | some (.operator op) => .operator op
  | _ => .opening

theorem tokenAt_eq {token : Token} (h : tokens[i]? = some token) : tokenAt tokens i = token := by
  rw [tokenAt, List.getD_eq_getElem?_getD, h]
  rfl

theorem entryAt_operator_iff :
    entryAt tokens i = .operator op ↔ tokens[i]? = some (.operator op) := by
  unfold entryAt
  split
  · next found h => rw [h]; simp
  · next h => simpa using h op

theorem entryAt_opening (h : tokens[i]? = some .opening) : entryAt tokens i = .opening := by
  unfold entryAt
  rw [h]

theorem Waits.token_entryAt (h : Waits tokens place i) :
    (entryAt tokens i).token = tokenAt tokens i := by
  rcases h with ⟨op, hop, -⟩ | hopen
  · rw [entryAt_operator_iff.mpr hop, tokenAt_eq hop]
    rfl
  · rw [entryAt_opening hopen.1, tokenAt_eq hopen.1]
    rfl

/-- A list is cut in two where a condition ends that cannot begin again. -/
theorem exists_cut {α : Type} {p : α → Prop} {l : List α}
    (h : l.Pairwise fun a b => p b → p a) :
    ∃ front back, l = front ++ back ∧ (∀ a ∈ front, p a) ∧ ∀ a ∈ back, ¬ p a := by
  induction l with
  | nil => exact ⟨[], [], rfl, by simp, by simp⟩
  | cons x rest ih =>
      obtain ⟨hx, hrest⟩ := List.pairwise_cons.mp h
      by_cases hp : p x
      · obtain ⟨front, back, rfl, hfront, hback⟩ := ih hrest
        refine ⟨x :: front, back, rfl, ?_, hback⟩
        intro a ha
        rcases List.mem_cons.mp ha with rfl | ha
        · exact hp
        · exact hfront a ha
      · refine ⟨[], x :: rest, rfl, by simp, ?_⟩
        intro a ha
        rcases List.mem_cons.mp ha with rfl | ha
        · exact hp
        · exact fun hpa => hp (hx a ha hpa)

/-- What has gone out and what waits at a place, as places of tokens. -/
structure Progress (tokens : List Token) (place : Nat) (out waiting : List Nat) : Prop where
  /-- What has gone out is in order of release. -/
  sorted : out.Pairwise (ReleasedBefore tokens)
  /-- It is what is released in front of the place. -/
  mem_out : ∀ i, i ∈ out ↔ GoesOut tokens i ∧ release tokens i < place
  /-- What waits has the latest first. -/
  latestFirst : waiting.Pairwise (· > ·)
  /-- It is told by places of release. -/
  mem_waiting : ∀ i, i ∈ waiting ↔ Waits tokens place i

theorem progress_zero : Progress tokens 0 [] [] where
  sorted := .nil
  mem_out := by simp
  latestFirst := .nil
  mem_waiting := by
    intro i
    refine ⟨?_, ?_⟩
    · intro h; cases h
    · intro h; exact absurd h.lt (Nat.not_lt_zero i)

namespace Progress

variable {out waiting new waiting' : List Nat}

/-- What is released at the place goes out behind what is out. -/
theorem extend (h : Progress tokens place out waiting) (hnew : new.Pairwise (· > ·))
    (hmem : ∀ i, i ∈ new ↔ GoesOut tokens i ∧ release tokens i = place)
    (hlatest : waiting'.Pairwise (· > ·))
    (hwaiting : ∀ i, i ∈ waiting' ↔ Waits tokens (place + 1) i) :
    Progress tokens (place + 1) (out ++ new) waiting' where
  sorted := by
    refine List.pairwise_append.mpr ⟨h.sorted, ?_, ?_⟩
    · refine hnew.imp_of_mem ?_
      intro i j hi hj hlt
      exact Or.inr ⟨((hmem i).mp hi).2.trans ((hmem j).mp hj).2.symm, hlt⟩
    · intro i hi j hj
      refine Or.inl ?_
      rw [((hmem j).mp hj).2]
      exact ((h.mem_out i).mp hi).2
  mem_out := by
    intro i
    rw [List.mem_append, h.mem_out, hmem, ← and_or_left, Nat.lt_succ_iff_lt_or_eq]
  latestFirst := hlatest
  mem_waiting := hwaiting

/-- What the token at the place makes leave stands on top of what stays. -/
theorem cut (h : Progress tokens place out waiting) (hplace : place ≤ tokens.length) :
    ∃ front back, waiting = front ++ back ∧ (∀ i ∈ front, Leaves tokens place i) ∧
      ∀ i ∈ back, ¬ Leaves tokens place i := by
  refine exists_cut (h.latestFirst.imp_of_mem ?_)
  intro later i hlater hi hlt hleaves
  exact Waits.leaves_of_lt hplace ((h.mem_waiting later).mp hlater) ((h.mem_waiting i).mp hi) hlt
    hleaves

end Progress

/-! ### One place further -/

/-- What is released at a place: its own operand, or the operators that leave there. -/
theorem released_iff (hplace : place < tokens.length) :
    GoesOut tokens i ∧ release tokens i = place ↔
      (i = place ∧ tokens[place]?.any isOperand = true) ∨
        (Waits tokens place i ∧ Leaves tokens place i) := by
  have hnoLeaves : (∀ op, tokens[i]? ≠ some (.operator op)) → ¬ Leaves tokens place i := by
    intro hne hleaves
    obtain ⟨op, hop, -⟩ := hleaves
    exact hne op hop
  -- Whatever is not an operator is released at its own place or at the end, or not at all.
  rcases ht : tokens[i]? with _ | token
  · have hleaves := hnoLeaves (by simp [ht])
    simp only [GoesOut, ht, false_and, hleaves, and_false, or_false, false_iff, not_and]
    intro hsame
    subst hsame
    simp [ht]
  · cases token with
    | operator op =>
        have hoperand : ¬ (i = place ∧ tokens[place]?.any isOperand = true) := by
          intro hboth
          obtain ⟨rfl, h⟩ := hboth
          simp [ht, isOperand] at h
        simp only [GoesOut, ht, true_and, hoperand, false_or]
        refine ⟨?_, ?_⟩
        · intro heq
          have hwaits : Waits tokens place i :=
            Or.inl ⟨op, ht, heq ▸ lt_release ht, Nat.le_of_eq heq.symm⟩
          rcases (release_lt_succ_iff ht hplace).mp (by omega) with hlt | hreleases
          · omega
          · exact ⟨hwaits, op, ht, hreleases⟩
        · intro hboth
          rcases hboth with ⟨⟨_, _, _, hle⟩ | hopen, op', hop', hreleases⟩
          · rw [ht] at hop'
            cases hop'
            have := (release_lt_succ_iff ht hplace).mpr (Or.inr hreleases)
            omega
          · exact absurd hop' (hopen.ne_operator op')
    | opening =>
        have hleaves := hnoLeaves (by simp [ht])
        have hne : tokens.length ≠ place := Nat.ne_of_gt hplace
        simp only [release_opening ht, hne, and_false, hleaves, or_false, false_iff, not_and]
        intro hsame
        subst hsame
        simp [ht, isOperand]
    | number _ | name _ =>
        have hleaves := hnoLeaves (by simp [ht])
        rw [release_operand ht rfl]
        simp only [GoesOut, ht, true_and, hleaves, and_false, or_false]
        exact ⟨fun heq => ⟨heq, by simp [← heq, ht, isOperand]⟩, fun h => h.1⟩
    | closing | finish =>
        have hleaves := hnoLeaves (by simp [ht])
        simp only [GoesOut, ht, false_and, hleaves, and_false, or_false, false_iff, not_and]
        intro hsame
        subst hsame
        simp [ht, isOperand]

theorem not_leaves_of_endsWait {token : Token} (ht : tokens[place]? = some token)
    (h : ∀ op, endsWait op token = false) : ¬ Leaves tokens place i := by
  intro hboth
  obtain ⟨op, -, -, -, hends⟩ := hboth
  rw [ht, Option.any_some, h op] at hends
  cases hends

namespace Progress

variable {out waiting : List Nat}

theorem step_operand {token : Token} (h : Progress tokens place out waiting)
    (hplace : place < tokens.length) (ht : tokens[place]? = some token)
    (hoperand : isOperand token = true) :
    Progress tokens (place + 1) (out ++ [place]) waiting := by
  have hends : ∀ op, endsWait op token = false := by
    intro op
    cases token <;> first | rfl | cases hoperand
  refine h.extend (List.pairwise_singleton _ _) ?_ h.latestFirst ?_
  · intro i
    rw [released_iff hplace, or_iff_left (fun hc => not_leaves_of_endsWait ht hends hc.2), ht]
    simp [hoperand]
  · intro i
    rw [h.mem_waiting, waits_succ_iff hplace, ht]
    have hleaves : ¬ Leaves tokens place i := not_leaves_of_endsWait ht hends
    cases token <;> first | (cases hoperand; done) | simp [hleaves]

theorem step_opening (h : Progress tokens place out waiting) (hplace : place < tokens.length)
    (ht : tokens[place]? = some .opening) :
    Progress tokens (place + 1) (out ++ []) (place :: waiting) := by
  have hleaves : ∀ i, ¬ Leaves tokens place i :=
    fun i => not_leaves_of_endsWait ht (fun op => rfl)
  refine h.extend .nil ?_ (List.pairwise_cons.mpr ⟨?_, h.latestFirst⟩) ?_
  · intro i
    rw [released_iff hplace, ht]
    simp [hleaves, isOperand]
  · intro i hi
    exact ((h.mem_waiting i).mp hi).lt
  · intro i
    rw [List.mem_cons, h.mem_waiting, waits_succ_iff hplace, ht]
    simp [hleaves]

section

variable {front back : List Nat}

/-- What leaves at a place without an operand is all that is released there. -/
theorem mem_front_iff (h : Progress tokens place out (front ++ back))
    (hplace : place < tokens.length) (hfront : ∀ i ∈ front, Leaves tokens place i)
    (hback : ∀ i ∈ back, ¬ Leaves tokens place i)
    (hoperand : tokens[place]?.any isOperand = false) (i : Nat) :
    i ∈ front ↔ GoesOut tokens i ∧ release tokens i = place := by
  rw [released_iff hplace, ← h.mem_waiting, List.mem_append, hoperand]
  refine ⟨?_, ?_⟩
  · intro hi
    exact Or.inr ⟨Or.inl hi, hfront i hi⟩
  · intro hcase
    rcases hcase with ⟨-, hc⟩ | ⟨hi | hi, hleaves⟩
    · exact nomatch hc
    · exact hi
    · exact absurd hleaves (hback i hi)

/-- The parenthesis of the group is among what stays. -/
theorem group_mem_back (h : Progress tokens place out (front ++ back))
    (hfront : ∀ i ∈ front, Leaves tokens place i) {start : Nat}
    (hgroup : group tokens place = some start) : start ∈ back := by
  have hopen := (group_eq_some_iff.mp hgroup).1
  rcases List.mem_append.mp ((h.mem_waiting start).mpr (Or.inr hopen)) with hin | hin
  · exact absurd (hfront start hin) hopen.not_leaves
  · exact hin

/-- It is not above the topmost entry that stays. -/
theorem group_le_top {top : Nat} (h : Progress tokens place out (front ++ top :: back))
    (hfront : ∀ i ∈ front, Leaves tokens place i) {start : Nat}
    (hgroup : group tokens place = some start) : start ≤ top := by
  rcases List.mem_cons.mp (h.group_mem_back hfront hgroup) with rfl | hrest
  · exact Nat.le_refl _
  · obtain ⟨-, hlatest, -⟩ := List.pairwise_append.mp h.latestFirst
    exact Nat.le_of_lt ((List.pairwise_cons.mp hlatest).1 start hrest)

/-- At a closing parenthesis it is just that entry. -/
theorem group_eq_top {top : Nat} (h : Progress tokens place out (front ++ top :: back))
    (hplace : place < tokens.length) (hfront : ∀ i ∈ front, Leaves tokens place i)
    (hback : ∀ i ∈ top :: back, ¬ Leaves tokens place i) (ht : tokens[place]? = some .closing)
    {start : Nat} (hgroup : group tokens place = some start) : start = top := by
  have hle := h.group_le_top hfront hgroup
  have hwaits := (h.mem_waiting top).mp (by simp)
  rcases id hwaits with ⟨op, hop, hlt, -⟩ | hopen
  · rcases hwaits.group_eq hplace.le hop with hsame | ⟨s, hs, hlts⟩
    · exact absurd ⟨op, hop, hlt, hsame, by rw [ht]; rfl⟩ (hback top (List.mem_cons_self ..))
    · rw [hgroup] at hs
      cases hs
      omega
  · exact Nat.le_antisymm hle ((group_eq_some_iff.mp hgroup).2 top hopen)

end

/-- An operator releases what binds as tightly in its group, and then waits. -/
theorem step_operator (h : Progress tokens place out waiting) (hplace : place < tokens.length)
    (ht : tokens[place]? = some (.operator op)) :
    ∃ front back, waiting = front ++ back ∧
      Progress tokens (place + 1) (out ++ front) (place :: back) ∧
      Pending.Tighter op.precedence (front.map (entryAt tokens)) ∧
      Pending.Looser op.precedence (back.map (entryAt tokens)) := by
  obtain ⟨front, back, rfl, hfront, hback⟩ := h.cut hplace.le
  obtain ⟨hfrontLatest, hbackLatest, -⟩ := List.pairwise_append.mp h.latestFirst
  have hnew := h.mem_front_iff hplace hfront hback (by rw [ht]; rfl)
  refine ⟨front, back, rfl, h.extend hfrontLatest hnew ?_ ?_, ?_, ?_⟩
  · refine List.pairwise_cons.mpr ⟨?_, hbackLatest⟩
    intro i hi
    exact ((h.mem_waiting i).mp (List.mem_append_right front hi)).lt
  · intro i
    rw [List.mem_cons, waits_succ_iff hplace, ← h.mem_waiting, List.mem_append, ht]
    refine ⟨?_, ?_⟩
    · intro hcase
      rcases hcase with rfl | hi
      · exact Or.inl ⟨rfl, Or.inl ⟨op, rfl⟩⟩
      · exact Or.inr ⟨Or.inr hi, hback i hi, by simp⟩
    · intro hcase
      rcases hcase with ⟨heq, -⟩ | ⟨hi | hi, hstays, -⟩
      · exact Or.inl heq
      · exact absurd (hfront i hi) hstays
      · exact Or.inr hi
  · intro entry hentry
    obtain ⟨i, hi, rfl⟩ := List.mem_map.mp hentry
    obtain ⟨top, htop, -, -, hends⟩ := hfront i hi
    rw [ht, Option.any_some] at hends
    exact ⟨top, entryAt_operator_iff.mpr htop, by simpa [endsWait] using hends⟩
  · intro top htop
    rcases back with _ | ⟨i, rest⟩
    · cases htop
    · have hitop : tokens[i]? = some (.operator top) :=
        entryAt_operator_iff.mp (by simpa using htop)
      have hwaits := (h.mem_waiting i).mp (by simp)
      rcases hwaits.group_eq hplace.le hitop with hgroup | ⟨start, hstart, hlt⟩
      · by_contra hge
        refine hback i (List.mem_cons_self ..) ⟨top, hitop, hwaits.lt, hgroup, ?_⟩
        rw [ht]
        simpa [endsWait] using hge
      · exact absurd (h.group_le_top hfront hstart) (Nat.not_le.mpr hlt)

/-- A closing parenthesis releases all operators of its group, and the group is no more. -/
theorem step_closing (h : Progress tokens place out waiting) (hplace : place < tokens.length)
    (ht : tokens[place]? = some .closing) (hdepth : 0 ≤ depth tokens (place + 1)) :
    ∃ front start back, waiting = front ++ start :: back ∧
      Progress tokens (place + 1) (out ++ front) back ∧
      Pending.Tighter 0 (front.map (entryAt tokens)) ∧ entryAt tokens start = .opening := by
  obtain ⟨front, back, rfl, hfront, hback⟩ := h.cut hplace.le
  obtain ⟨start, hgroup⟩ : ∃ start, group tokens place = some start := by
    rw [depth_succ_closing ht] at hdepth
    exact exists_group (by omega)
  have hmem := h.group_mem_back hfront hgroup
  rcases back with _ | ⟨top, rest⟩
  · cases hmem
  obtain rfl := h.group_eq_top hplace hfront hback ht hgroup
  obtain ⟨hfrontLatest, hbackLatest, -⟩ := List.pairwise_append.mp h.latestFirst
  obtain ⟨hrestLt, hrestLatest⟩ := List.pairwise_cons.mp hbackLatest
  have hnew := h.mem_front_iff hplace hfront hback (by rw [ht]; rfl)
  refine ⟨front, start, rest, rfl, h.extend hfrontLatest hnew hrestLatest ?_, ?_,
    entryAt_opening (group_eq_some_iff.mp hgroup).1.1⟩
  · intro i
    rw [waits_succ_iff hplace, ← h.mem_waiting, List.mem_append, ht, hgroup]
    refine ⟨?_, ?_⟩
    · intro hi
      refine Or.inr ⟨Or.inr (List.mem_cons_of_mem _ hi), hback i (List.mem_cons_of_mem _ hi), ?_⟩
      intro hboth
      obtain ⟨-, heq⟩ := hboth
      cases heq
      exact absurd (hrestLt start hi) (Nat.lt_irrefl start)
    · intro hcase
      rcases hcase with ⟨-, ⟨op, hop⟩ | hop⟩ | ⟨hi | hi, hstays, hne⟩
      · cases hop
      · cases hop
      · exact absurd (hfront i hi) hstays
      · rcases List.mem_cons.mp hi with rfl | hi
        · exact absurd ⟨rfl, rfl⟩ hne
        · exact hi
  · intro entry hentry
    obtain ⟨i, hi, rfl⟩ := List.mem_map.mp hentry
    obtain ⟨op, hop, -⟩ := hfront i hi
    exact ⟨op, entryAt_operator_iff.mpr hop, Nat.zero_le _⟩

/-- **One token keeps the account of what has gone out and what waits.** -/
theorem step (h : Progress tokens place out waiting) (hplace : place < tokens.length)
    (hfinish : .finish ∉ tokens) (hdepth : 0 ≤ depth tokens (place + 1)) :
    ∃ new waiting', Progress tokens (place + 1) (out ++ new) waiting' ∧
      Pending.step (waiting.map (entryAt tokens)) tokens[place] =
        .ok (new.map (tokenAt tokens), waiting'.map (entryAt tokens)) := by
  have hmem : tokens[place] ∈ tokens := List.getElem_mem hplace
  generalize htoken : tokens[place] = token at hmem ⊢
  have ht : tokens[place]? = some token := by rw [List.getElem?_eq_getElem hplace, htoken]
  have hreleased : ∀ {front : List Nat}, (∀ i ∈ front, Waits tokens place i) →
      (front.map (entryAt tokens)).map Pending.token = front.map (tokenAt tokens) := by
    intro front hwaits
    rw [List.map_map]
    exact List.map_congr_left fun i hi => (hwaits i hi).token_entryAt
  cases token with
  | number _ | name _ =>
      refine ⟨[place], waiting, h.step_operand hplace ht rfl, ?_⟩
      rw [List.map_singleton, tokenAt_eq ht]
      rfl
  | opening =>
      refine ⟨[], place :: waiting, h.step_opening hplace ht, ?_⟩
      rw [List.map_cons, entryAt_opening ht]
      rfl
  | operator op =>
      obtain ⟨front, back, rfl, hnext, htight, hloose⟩ := h.step_operator hplace ht
      refine ⟨front, place :: back, hnext, ?_⟩
      rw [List.map_append, Pending.step_operator htight hloose, List.map_cons,
        entryAt_operator_iff.mpr ht,
        hreleased fun i hi => (h.mem_waiting i).mp (List.mem_append_left _ hi)]
  | closing =>
      obtain ⟨front, start, back, rfl, hnext, htight, hstart⟩ := h.step_closing hplace ht hdepth
      refine ⟨front, back, hnext, ?_⟩
      rw [List.map_append, List.map_cons, hstart, Pending.step_closing htight,
        hreleased fun i hi => (h.mem_waiting i).mp (List.mem_append_left _ hi)]
  | finish => exact absurd hmem hfinish

end Progress

/-! ### From the first place to the last -/

/-- **At every place the conversion has come as far as the places of release say.** -/
theorem exists_progress (hfinish : .finish ∉ tokens) (hdepth : ∀ k, 0 ≤ depth tokens k) :
    place ≤ tokens.length → ∃ out waiting, Progress tokens place out waiting ∧
      Pending.run [] (tokens.take place) =
        .ok (out.map (tokenAt tokens), waiting.map (entryAt tokens)) := by
  induction place with
  | zero => intro _; exact ⟨[], [], progress_zero, rfl⟩
  | succ place ih =>
      intro hplace
      obtain ⟨out, waiting, hprogress, hrun⟩ := ih (Nat.le_of_succ_le hplace)
      obtain ⟨new, waiting', hnext, hstep⟩ := hprogress.step hplace hfinish (hdepth _)
      refine ⟨out ++ new, waiting', hnext, ?_⟩
      rw [List.take_succ_eq_append_getElem hplace, List.map_append]
      exact Pending.run_append_ok hrun ((Pending.run_singleton _ _).trans hstep)

theorem Waits.release_eq (h : Waits tokens tokens.length i) : release tokens i = tokens.length := by
  rcases h with ⟨op, hop, hlt, hle⟩ | hopen
  · exact Nat.le_antisymm (release_le_length hlt) hle
  · exact release_opening hopen.1

theorem goesOut_iff :
    GoesOut tokens i ↔
      (GoesOut tokens i ∧ release tokens i < tokens.length) ∨ Waits tokens tokens.length i := by
  refine ⟨?_, ?_⟩
  · intro h
    rcases ht : tokens[i]? with _ | token
    · simp [GoesOut, ht] at h
    · have hi : i < tokens.length := (List.getElem?_eq_some_iff.mp ht).1
      by_cases hlt : release tokens i < tokens.length
      · exact Or.inl ⟨h, hlt⟩
      · cases token with
        | operator op => exact Or.inr (Or.inl ⟨op, ht, hi, Nat.not_lt.mp hlt⟩)
        | opening =>
            simp only [GoesOut, ht] at h
            exact Or.inr (Or.inr h)
        | number _ | name _ =>
            rw [release_operand ht rfl] at hlt
            exact absurd hi hlt
        | closing | finish => simp [GoesOut, ht] at h
  · intro hcase
    rcases hcase with ⟨h, -⟩ | ⟨op, hop, -⟩ | hopen
    · exact h
    · simp [GoesOut, hop]
    · simpa [GoesOut, hopen.1] using hopen

/-- At the end, what has gone out and what waits make up the order of release. -/
theorem Progress.at_end {out waiting : List Nat} (h : Progress tokens tokens.length out waiting) :
    (out ++ waiting).Pairwise (ReleasedBefore tokens) ∧
      ∀ i, i ∈ out ++ waiting ↔ GoesOut tokens i := by
  have hrelease : ∀ i ∈ waiting, release tokens i = tokens.length :=
    fun i hi => ((h.mem_waiting i).mp hi).release_eq
  refine ⟨?_, ?_⟩
  · refine List.pairwise_append.mpr ⟨h.sorted, h.latestFirst.imp_of_mem ?_, ?_⟩
    · intro i j hi hj hlt
      exact Or.inr ⟨(hrelease i hi).trans (hrelease j hj).symm, hlt⟩
    · intro i hi j hj
      refine Or.inl ?_
      rw [hrelease j hj]
      exact ((h.mem_out i).mp hi).2
  · intro i
    rw [List.mem_append, h.mem_out, h.mem_waiting, ← goesOut_iff]

end Nesting

open Nesting

/--
**Postfix order is the order of release.**  Take the tokens before the first mark of
the end, and let no closing parenthesis come before its opening one.  In lenient mode
what goes out is each operand, each operator and each parenthesis never closed, once,
by place of release, and the later one first where that is the same.  In strict mode
it is the same if all parentheses are closed.
-/
theorem ofTokens_release_order (given : List Token)
    (hbalance : ∀ front, front <+: beforeFinish given →
      front.count .closing ≤ front.count .opening) :
    ∃ order : List Nat,
      order.Pairwise (ReleasedBefore (beforeFinish given)) ∧
      (∀ i, i ∈ order ↔ GoesOut (beforeFinish given) i) ∧
      Postfix.ofTokens .lenient given = .ok ⟨order.map (tokenAt (beforeFinish given))⟩ ∧
      ((∀ start, ¬ IsOpen (beforeFinish given) start (beforeFinish given).length) →
        Postfix.ofTokens .strict given = .ok ⟨order.map (tokenAt (beforeFinish given))⟩) := by
  have hdepth : ∀ k, 0 ≤ depth (beforeFinish given) k := by
    intro k
    have := hbalance _ (List.take_prefix k (beforeFinish given))
    unfold depth
    omega
  have hfinish : .finish ∉ beforeFinish given := by
    intro hmem
    simpa using List.mem_takeWhile_imp hmem
  obtain ⟨out, waiting, hprogress, hrun⟩ := exists_progress hfinish hdepth (Nat.le_refl _)
  rw [List.take_length] at hrun
  obtain ⟨hsorted, hmem⟩ := hprogress.at_end
  have hdrained : (waiting.map (entryAt (beforeFinish given))).map Pending.token =
      waiting.map (tokenAt (beforeFinish given)) := by
    rw [List.map_map]
    exact List.map_congr_left fun i hi => ((hprogress.mem_waiting i).mp hi).token_entryAt
  refine ⟨out ++ waiting, hsorted, hmem, ?_, ?_⟩
  · rw [Postfix.ofTokens_eq, hrun, List.map_append, ← hdrained]
    rfl
  · intro hclosed
    have hnone : Pending.opening ∉ waiting.map (entryAt (beforeFinish given)) := by
      intro hin
      obtain ⟨i, hi, hentry⟩ := List.mem_map.mp hin
      rcases (hprogress.mem_waiting i).mp hi with ⟨op, hop, -⟩ | hopen
      · rw [entryAt_operator_iff.mpr hop] at hentry
        cases hentry
      · exact hclosed i hopen
    rw [Postfix.ofTokens_eq, hrun, List.map_append, ← hdrained]
    show (Pending.drain .strict _).map _ = _
    rw [Pending.drain, if_neg (fun h => hnone h.2)]
    rfl

/-- `a-2*(3-4)-(5` and a closing parenthesis behind the end: the last group is never closed. -/
theorem ofTokens_release_order_unclosed :
    let given : List Token := [.name "a", .operator .sub, .number 2, .operator .mul, .opening,
      .number 3, .operator .sub, .number 4, .closing, .operator .sub, .opening, .number 5,
      .finish, .closing]
    (∀ front, front <+: beforeFinish given → front.count .closing ≤ front.count .opening) ∧
      ∃ order : List Nat,
        order.Pairwise (ReleasedBefore (beforeFinish given)) ∧
        (∀ i, i ∈ order ↔ GoesOut (beforeFinish given) i) ∧
        Postfix.ofTokens .lenient given = .ok ⟨order.map (tokenAt (beforeFinish given))⟩ := by
  intro given
  have hbalance : ∀ front, front <+: beforeFinish given →
      front.count .closing ≤ front.count .opening := by
    intro front hfront
    rw [← List.mem_inits] at hfront
    revert front
    decide
  obtain ⟨order, hsorted, hmem, hlenient, -⟩ := ofTokens_release_order given hbalance
  exact ⟨hbalance, order, hsorted, hmem, hlenient⟩

/-- The places of release in `a-2*(3-4)-(5`. -/
example :
    (List.range 12).map (release [.name "a", .operator .sub, .number 2, .operator .mul,
      .opening, .number 3, .operator .sub, .number 4, .closing, .operator .sub, .opening,
      .number 5]) = [0, 9, 2, 9, 12, 5, 8, 7, 8, 12, 12, 11] := by
  decide

end Reckon
