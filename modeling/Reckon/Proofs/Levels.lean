/-
How much waits while tokens are brought into postfix order.

Little, and it is in order.  An operator waits only on top of what binds looser, or of an opening
parenthesis, or of nothing.  That is `Graded`, and one token keeps it since all that binds as
tightly has gone out when an operator comes to wait (`step_graded`).  So the operators of a group
that wait rise in precedence from the bottom to the top, and as there are five precedences there
are no more than five of them.

As many groups are open as opening parentheses wait, which bounds all that waits
(`Graded.length_le`).  It also tells what goes out before an operator.  The conversion looks from
the top down and stops at the first operator that binds looser, but none below it binds tighter,
so it finds all that there are in the group (`filter_append_filter`).
-/
import Reckon.Proofs.Balance
import Mathlib.Data.List.Chain

namespace Reckon

/-! ### Operators of one group -/

/-- Operators from the top down, each of which binds tighter than all below it. -/
def Falling (level : List Operator) : Prop :=
  level.Pairwise fun top op => op.precedence < top.precedence

/-- The operators that bind as tightly as `op` are all on top of those that do not. -/
theorem Falling.filter_append_filter {level : List Operator} (h : Falling level) (op : Operator) :
    level.filter (op.precedence ≤ ·.precedence) ++ level.filter (·.precedence < op.precedence) =
      level := by
  induction level with
  | nil => rfl
  | cons top rest ih =>
      obtain ⟨hbelow, hrest⟩ := List.pairwise_cons.mp h
      by_cases htop : op.precedence ≤ top.precedence
      · rw [List.filter_cons_of_pos (by simpa using htop),
          List.filter_cons_of_neg (by simpa using htop), List.cons_append, ih hrest]
      · -- All that follows binds looser still.
        have hlooser : ∀ found ∈ top :: rest, found.precedence < op.precedence := by
          intro found hfound
          rcases List.mem_cons.mp hfound with rfl | hfound
          · omega
          · have := hbelow found hfound
            omega
        rw [List.filter_eq_nil_iff.mpr (by simpa using hlooser),
          List.filter_eq_self.mpr (by simpa using hlooser), List.nil_append]

namespace Pending

/-! ### Operators that rise from group to group -/

/-- Of two operators next to each other, the one above binds tighter. -/
def Above : Pending → Pending → Prop
  | .operator top, .operator op => op.precedence < top.precedence
  | _, _ => True

/-- From the bottom to the top operators rise in precedence, unless a parenthesis comes between. -/
def Graded (waiting : List Pending) : Prop :=
  waiting.IsChain Above

theorem Graded.part {waiting part : List Pending} (h : Graded waiting) (hpart : part <:+: waiting) :
    Graded part :=
  List.IsChain.infix h hpart

theorem Graded.operator {op : Operator} {waiting : List Pending} (h : Graded waiting)
    (hlooser : Looser op.precedence waiting) : Graded (.operator op :: waiting) := by
  refine List.isChain_cons.mpr ⟨?_, h⟩
  intro entry hentry
  cases entry with
  | operator below => exact hlooser below hentry
  | opening => trivial

theorem Graded.opening {waiting : List Pending} (h : Graded waiting) :
    Graded (.opening :: waiting) :=
  List.isChain_cons.mpr ⟨fun _ _ => trivial, h⟩

theorem step_graded {waiting waiting' : List Pending} {found : Token} {out : List Token}
    (h : step waiting found = .ok (out, waiting')) (hgraded : Graded waiting) :
    Graded waiting' := by
  cases step_eq_ok_iff.mp h with
  | operand _ | finish => exact hgraded
  | operator _ looser => exact (hgraded.part (List.suffix_append _ _).isInfix).operator looser
  | opening => exact hgraded.opening
  | closing _ =>
      exact hgraded.part ((List.suffix_cons _ _).trans (List.suffix_append _ _)).isInfix

/-- **Whatever has been read, what waits is graded.** -/
theorem run_graded {tokens : List Token} :
    ∀ {waiting waiting' : List Pending} {out : List Token},
      run waiting tokens = .ok (out, waiting') → Graded waiting → Graded waiting' := by
  induction tokens with
  | nil =>
      intro waiting waiting' out h hgraded
      cases h
      exact hgraded
  | cons token rest ih =>
      intro waiting waiting' out h hgraded
      obtain ⟨now, middle, later, hstep, hrest, rfl⟩ := run_cons_eq_ok h
      exact ih hrest (step_graded hstep hgraded)

theorem Graded.falling {waiting : List Pending} (h : Graded waiting) {level : List Operator}
    (hlevel : level.map .operator <:+: waiting) : Falling level := by
  have htrans : IsTrans Operator fun top op => op.precedence < top.precedence :=
    ⟨fun _ _ _ hab hbc => Nat.lt_trans hbc hab⟩
  exact List.isChain_iff_pairwise.mp ((List.isChain_map _).mp (h.part hlevel))

/-! ### How much waits -/

/-- How tightly the operator on top binds, if one is there. -/
def topLevel : List Pending → Nat
  | .operator op :: _ => op.precedence
  | _ => 0

theorem topLevel_le_five (waiting : List Pending) : topLevel waiting ≤ 5 := by
  unfold topLevel
  split
  · exact Operator.precedence_le_five _
  · exact Nat.zero_le _

theorem topLevel_lt {op : Operator} {rest : List Pending}
    (h : ∀ entry ∈ rest.head?, Above (.operator op) entry) : topLevel rest < op.precedence := by
  unfold topLevel
  split
  · exact h _ rfl
  · exact op.one_le_precedence

/-- Every operator more raises the level on top, and only a parenthesis takes it back to zero. -/
theorem Graded.length_le_add_topLevel {waiting : List Pending} (h : Graded waiting) :
    waiting.length ≤ 6 * waiting.count .opening + topLevel waiting := by
  induction waiting with
  | nil => exact Nat.zero_le _
  | cons top rest ih =>
      obtain ⟨habove, hrest⟩ := List.isChain_cons.mp h
      have hle := ih hrest
      cases top with
      | operator op =>
          have htop := topLevel_lt habove
          rw [List.count_cons_of_ne (by simp), List.length_cons, topLevel]
          omega
      | opening =>
          have htop := topLevel_le_five rest
          rw [List.count_cons_self, List.length_cons]
          omega

/-- **No more than six entries wait for each group**, and five outside all groups. -/
theorem Graded.length_le {waiting : List Pending} (h : Graded waiting) :
    waiting.length ≤ 6 * waiting.count .opening + 5 := by
  have hle := h.length_le_add_topLevel
  have htop := topLevel_le_five waiting
  omega

theorem Graded.length_level_le {waiting : List Pending} (h : Graded waiting)
    {level : List Operator} (hlevel : level.map .operator <:+: waiting) : level.length ≤ 5 := by
  have hle := (h.part hlevel).length_le
  rw [List.count_eq_zero.mpr (by simp), List.length_map] at hle
  exact hle

/-! ### What goes out before an operator -/

/-- An operator finds all operators of its group that bind as tightly, and no others. -/
theorem step_operator_of_falling {level : List Operator} (h : Falling level) (op : Operator)
    {below : List Pending} (hbelow : ∀ entry, below.head? = some entry → entry = .opening) :
    step (level.map .operator ++ below) (.operator op) =
      .ok ((level.filter (op.precedence ≤ ·.precedence)).map .operator,
        .operator op :: (level.filter (·.precedence < op.precedence)).map .operator ++ below) := by
  have htighter : Tighter op.precedence
      ((level.filter (op.precedence ≤ ·.precedence)).map .operator) := by
    intro entry hentry
    obtain ⟨top, htop, rfl⟩ := List.mem_map.mp hentry
    exact ⟨top, rfl, by simpa using (List.mem_filter.mp htop).2⟩
  have hlooser : Looser op.precedence
      ((level.filter (·.precedence < op.precedence)).map .operator ++ below) := by
    intro top htop
    rcases hlow : level.filter (·.precedence < op.precedence) with _ | ⟨first, others⟩
    · rw [hlow] at htop
      cases hbelow _ htop
    · rw [hlow] at htop
      cases htop
      have hmem : top ∈ level.filter (·.precedence < op.precedence) := by simp [hlow]
      simpa using (List.mem_filter.mp hmem).2
  have hstep := step_operator htighter hlooser
  rw [← List.append_assoc, ← List.map_append, h.filter_append_filter, List.map_map] at hstep
  exact hstep

/-- The operators of the topmost group are all there is above the parenthesis that opens it. -/
theorem exists_level (waiting : List Pending) :
    ∃ (level : List Operator) (below : List Pending), waiting = level.map .operator ++ below ∧
      ∀ entry, below.head? = some entry → entry = .opening := by
  induction waiting with
  | nil => exact ⟨[], [], rfl, nofun⟩
  | cons top rest ih =>
      cases top with
      | operator op =>
          obtain ⟨level, below, rfl, hbelow⟩ := ih
          exact ⟨op :: level, below, rfl, hbelow⟩
      | opening => exact ⟨[], .opening :: rest, rfl, fun _ h => (Option.some.inj h).symm⟩

end Pending

/-! ### The whole conversion -/

namespace Reordering

theorem exists_foldlM_of_prefix {front tokens : List Token} {r r' : Reordering}
    (h : tokens.foldlM step r = .ok r') (hfront : front <+: tokens) :
    ∃ middle, front.foldlM step r = .ok middle := by
  obtain ⟨rest, rfl⟩ := hfront
  rw [List.foldlM_append] at h
  obtain ⟨middle, hmiddle, -⟩ := Except.bind_eq_ok h
  exact ⟨middle, hmiddle⟩

theorem exists_run_of_foldlM {tokens : List Token} {r r' : Reordering}
    (h : tokens.foldlM step r = .ok r') :
    ∃ out, Pending.run r.waiting tokens = .ok (out, r'.waiting) := by
  rw [foldlM_step] at h
  obtain ⟨⟨out, waiting⟩, hrun, rfl⟩ := Except.map_eq_ok h
  exact ⟨out, hrun⟩

end Reordering

/--
**What waits is graded and bounded.**  Wherever one stops in tokens that convert, as many opening
parentheses wait as are open.  Operators that wait with no parenthesis between them rise in
precedence from the bottom to the top, so there are at most five, and with `d` groups open at most
`6 * d + 5` entries wait.  And from the operators of the topmost group, which wait above a
parenthesis or above nothing, an operator that comes next releases exactly those that bind as
tightly as it does, from the top down, and itself waits above the others.
-/
theorem waiting_graded {mode : Mode} {given front : List Token} {p : Postfix}
    (h : Postfix.ofTokens mode given = .ok p) (hfront : front <+: beforeFinish given) :
    ∃ r, front.foldlM Reordering.step .start = .ok r ∧
      r.waiting.count .opening + front.count .closing = front.count .opening ∧
      (∀ level : List Operator, level.map .operator <:+: r.waiting →
        level.Pairwise (fun top op => op.precedence < top.precedence) ∧ level.length ≤ 5) ∧
      r.waiting.length ≤ 6 * r.waiting.count .opening + 5 ∧
      ∃ (level : List Operator) (below : List Pending), r.waiting = level.map .operator ++ below ∧
        (∀ entry, below.head? = some entry → entry = .opening) ∧
        ∀ op : Operator, r.step (.operator op) = .ok
          ⟨r.output.appendList ((level.filter (op.precedence ≤ ·.precedence)).map .operator),
            .operator op ::
              (level.filter (·.precedence < op.precedence)).map .operator ++ below⟩ := by
  obtain ⟨last, hall, -⟩ := Except.bind_eq_ok h
  obtain ⟨r, hr⟩ := Reordering.exists_foldlM_of_prefix hall hfront
  obtain ⟨out, hrun⟩ := Reordering.exists_run_of_foldlM hr
  have hcount := Pending.count_opening_of_run hrun
  have hgraded : Pending.Graded r.waiting := Pending.run_graded hrun List.IsChain.nil
  obtain ⟨level, below, hwaiting, hbelow⟩ := Pending.exists_level r.waiting
  refine ⟨r, hr, ?_, ?_, hgraded.length_le, level, below, hwaiting, hbelow, ?_⟩
  · exact hcount.trans (Nat.zero_add _)
  · intro found hfound
    exact ⟨hgraded.falling hfound, hgraded.length_level_le hfound⟩
  · intro op
    have hfalling := hgraded.falling (hwaiting ▸ List.prefix_append _ _).isInfix
    rw [Reordering.step, hwaiting, Pending.step_operator_of_falling hfalling op hbelow]
    rfl

/-- In `1||2&&3<4+5*(1||2&&3<4+5*6` as much waits as can, and `<` leaves two operators above the
parenthesis. -/
theorem waiting_graded_full :
    let front : List Token :=
      [.number 1, .operator .or, .number 2, .operator .and, .number 3, .operator .lt,
        .number 4, .operator .add, .number 5, .operator .mul, .opening,
        .number 1, .operator .or, .number 2, .operator .and, .number 3, .operator .lt,
        .number 4, .operator .add, .number 5, .operator .mul, .number 6]
    let given : List Token := front ++ [.operator .lt, .number 7, .finish, .closing]
    ((∃ p, Postfix.ofTokens .lenient given = .ok p) ∧ front <+: beforeFinish given) ∧
    ∃ r, front.foldlM Reordering.step .start = .ok r ∧
      r.waiting.length ≤ 6 * r.waiting.count .opening + 5 ∧
      r.waiting.length = 11 ∧ r.waiting.count .opening = 1 ∧
      (r.step (.operator .lt)).map (·.waiting.take 4) =
        .ok [.operator .lt, .operator .and, .operator .or, .opening] := by
  intro front given
  have hp : ∃ p, Postfix.ofTokens .lenient given = .ok p := Except.exists_of_isOk (by decide)
  have hfront : front <+: beforeFinish given := by decide
  obtain ⟨p, h⟩ := hp
  obtain ⟨⟨output, waiting⟩, hr, hcount, -, hle, -⟩ := waiting_graded h hfront
  have hfull : (front.foldlM Reordering.step .start).map Reordering.waiting = .ok
      ([.mul, .add, .lt, .and, .or].map Pending.operator ++ .opening ::
        [.mul, .add, .lt, .and, .or].map .operator) := by decide
  rw [hr] at hfull
  obtain rfl := Except.ok.inj hfull
  exact ⟨⟨⟨p, h⟩, hfront⟩, _, hr, hle, rfl, hcount, rfl⟩

end Reckon
