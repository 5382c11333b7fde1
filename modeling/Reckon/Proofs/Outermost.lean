/-
The operator that an expression is about.

Of the operators outside all parentheses, take those of lowest precedence, and of these the
rightmost one.  No operator behind it makes it go out, since those outside bind more tightly and
those in parentheses are of another group, so it waits to the end.  Every operator before it that
is outside goes out when it arrives, at the latest, because none binds more loosely.  So of all
that waits in the end it is the one that came first, and what came first goes out last.

What is last in postfix order is what the value comes from.  Nothing is asked of the expression
but that it has a value: operands may be left over, and an operator may have its operands from
anywhere.  If it is a comparison or a logical operator that stands outside, then the last one is
one too, since no operators of lower precedence are of any other kind, and the value is zero or
one.
-/
import Reckon.Proofs.Balance
import Reckon.Proofs.Conservation
import Reckon.Proofs.ReleaseOrder
import Mathlib.Data.Nat.Find

namespace Reckon

/-! ### Comparisons and logical operators -/

namespace Operator

/-- Whether an operator answers a question: a comparison or a logical operator. -/
def isTest : Operator → Bool
  | lt | gt | le | ge | eq | ne | and | or => true
  | mul | div | rem | add | sub => false

theorem isTest_iff_precedence (op : Operator) : op.isTest = true ↔ op.precedence ≤ 3 := by
  cases op <;> decide

theorem truth_eq_zero_or_one (b : Bool) : truth b = 0 ∨ truth b = 1 := by
  cases b
  · exact Or.inl rfl
  · exact Or.inr rfl

theorem apply_of_isTest {op : Operator} {x y value : Int64} (htest : op.isTest = true)
    (h : op.apply x y = .ok value) : value = 0 ∨ value = 1 := by
  cases op with
  | mul | div | rem | add | sub => cases htest
  | lt | gt | le | ge | eq | ne | and | or =>
      rw [← Except.ok.inj h]
      exact truth_eq_zero_or_one _

end Operator

namespace Nesting

variable {tokens : List Token} {i last : Nat} {op : Operator}

/-! ### Outside all parentheses -/

/-- The operator at a place is outside all parentheses: as many are closed before it as opened. -/
def Outside (tokens : List Token) (i : Nat) (op : Operator) : Prop :=
  tokens[i]? = some (.operator op) ∧ depth tokens i = 0

/-- Of the operators of lowest precedence outside all parentheses, the rightmost one. -/
structure RightmostLowest (tokens : List Token) (last : Nat) (op : Operator) : Prop where
  /-- It is outside itself. -/
  outside : Outside tokens last op
  /-- None outside binds more loosely. -/
  lowest : ∀ i other, Outside tokens i other → op.precedence ≤ other.precedence
  /-- None outside that binds as loosely is behind it. -/
  rightmost : ∀ i other, Outside tokens i other → other.precedence = op.precedence → i ≤ last

/-- Some operator of this precedence is outside at a place. -/
def OutsideAt (tokens : List Token) (level i : Nat) : Prop :=
  ∃ op, Outside tokens i op ∧ op.precedence = level

theorem Outside.lt_length (h : Outside tokens i op) : i < tokens.length :=
  (List.getElem?_eq_some_iff.mp h.1).1

/-- If any operator is outside, there is a lowest precedence, and a last place where it is found. -/
theorem exists_rightmostLowest (h : Outside tokens i op) :
    ∃ last other, RightmostLowest tokens last other := by
  classical
  have hlevels : ∃ level i, OutsideAt tokens level i := ⟨op.precedence, i, op, h, rfl⟩
  obtain ⟨level, ⟨first, hfirst⟩, hleast⟩ :
      ∃ level, (∃ i, OutsideAt tokens level i) ∧
        ∀ level', (∃ i, OutsideAt tokens level' i) → level ≤ level' :=
    ⟨Nat.find hlevels, Nat.find_spec hlevels, fun level' => Nat.find_min' hlevels⟩
  have hbound : ∀ i, OutsideAt tokens level i → i ≤ tokens.length :=
    fun i ⟨_, houtside, _⟩ => Nat.le_of_lt houtside.lt_length
  obtain ⟨other, houtside, rfl⟩ := Nat.findGreatest_spec (hbound first hfirst) hfirst
  refine ⟨_, other, houtside, ?_, ?_⟩
  · intro i other' hother
    exact hleast _ ⟨i, other', hother, rfl⟩
  · intro i other' hother heq
    exact Nat.le_findGreatest (hbound i ⟨other', hother, heq⟩) ⟨other', hother, heq⟩

section

variable (hdepth : ∀ k, 0 ≤ depth tokens k)
include hdepth

theorem depth_eq_zero_iff : depth tokens i = 0 ↔ group tokens i = none := by
  constructor
  · intro hzero
    refine group_eq_none_iff.mpr ?_
    intro start hopen
    have hstart := hdepth start
    have hrises := hopen.2.2 i (Nat.le_refl i) hopen.2.1
    omega
  · intro hgroup
    by_contra hne
    have hpos : 0 < depth tokens i := lt_of_le_of_ne (hdepth i) (Ne.symm hne)
    obtain ⟨start, hstart⟩ := exists_group hpos
    rw [hgroup] at hstart
    cases hstart

/-- Behind the rightmost lowest operator, nothing makes it go out. -/
theorem RightmostLowest.waits (h : RightmostLowest tokens last op) :
    Waits tokens tokens.length last := by
  refine Or.inl ⟨op, h.outside.1, h.outside.lt_length, ?_⟩
  by_contra hearly
  obtain ⟨j, -, hlt, hgroup, hends⟩ :=
    (release_lt_iff h.outside.1 (Nat.le_refl _)).mp (Nat.not_le.mp hearly)
  have hzero : depth tokens j = 0 := by
    rw [depth_eq_zero_iff hdepth, hgroup, ← depth_eq_zero_iff hdepth]
    exact h.outside.2
  rcases ht : tokens[j]? with _ | token
  · simp [ht] at hends
  · rw [ht, Option.any_some] at hends
    cases token with
    | operator later =>
        -- It would be as low and further right.
        have houtside : Outside tokens j later := ⟨ht, hzero⟩
        have hle : later.precedence ≤ op.precedence := by simpa [endsWait] using hends
        have hsame := Nat.le_antisymm hle (h.lowest j later houtside)
        exact absurd (h.rightmost j later houtside hsame) (Nat.not_le.mpr hlt)
    | closing =>
        -- It would close what is not open.
        have hnext := hdepth (j + 1)
        rw [depth_succ_closing ht] at hnext
        omega
    | number _ | name _ | opening | finish => cases hends

/-- It makes every operator outside that is before it go out, so none of those waits in the end. -/
theorem RightmostLowest.le_of_waits (h : RightmostLowest tokens last op)
    (hclosed : ∀ start, ¬ IsOpen tokens start tokens.length)
    (hwaits : Waits tokens tokens.length i) : last ≤ i := by
  by_contra hlt
  rcases id hwaits with ⟨other, hop, -, hlate⟩ | hopen
  · have hend : group tokens tokens.length = none := group_eq_none_iff.mpr hclosed
    have hgroup : group tokens i = none := by
      rcases hwaits.group_eq (Nat.le_refl _) hop with hsame | ⟨start, hstart, -⟩
      · rw [← hsame, hend]
      · rw [hend] at hstart
        cases hstart
    have houtside : Outside tokens i other := ⟨hop, (depth_eq_zero_iff hdepth).mpr hgroup⟩
    have hreleases : Releases tokens other i last := by
      refine ⟨Nat.not_le.mp hlt, ?_, ?_⟩
      · rw [hgroup, ← depth_eq_zero_iff hdepth]
        exact h.outside.2
      · rw [h.outside.1]
        simpa [endsWait] using h.lowest i other houtside
    have hearly := (release_lt_iff hop (Nat.le_refl _)).mpr
      ⟨last, h.outside.lt_length, hreleases⟩
    omega
  · exact hclosed i hopen

end

/-! ### The end of postfix order -/

/-- The places from which postfix order takes its tokens, in its order. -/
structure ReleaseOrder (tokens : List Token) (order : List Nat) (p : Postfix) : Prop where
  /-- They are by place of release. -/
  sorted : order.Pairwise (ReleasedBefore tokens)
  /-- They are those of the tokens that go out. -/
  mem_iff : ∀ i, i ∈ order ↔ GoesOut tokens i
  /-- Their tokens are what postfix order is. -/
  tokens_eq : p.tokens = order.map (tokenAt tokens)

theorem ReleaseOrder.tokens_eq_append {front : List Nat} {p : Postfix}
    (h : ReleaseOrder tokens (front ++ [last]) p) (hlast : tokens[last]? = some (.operator op)) :
    p.tokens = front.map (tokenAt tokens) ++ [.operator op] := by
  rw [h.tokens_eq, List.map_append, List.map_singleton, tokenAt_eq hlast]

theorem exists_front {l : List Nat} (hlatest : l.Pairwise (· > ·)) (hmem : last ∈ l)
    (hle : ∀ i ∈ l, last ≤ i) : ∃ front, l = front ++ [last] := by
  obtain ⟨front, back, rfl⟩ := List.append_of_mem hmem
  rcases back with _ | ⟨j, back⟩
  · exact ⟨front, rfl⟩
  · obtain ⟨-, hback, -⟩ := List.pairwise_append.mp hlatest
    have hlt := (List.pairwise_cons.mp hback).1 j (List.mem_cons_self ..)
    have hge := hle j (by simp)
    omega

section

variable {mode : Mode} {given : List Token} {p : Postfix}

theorem depth_nonneg_of_ofTokens (h : Postfix.ofTokens mode given = .ok p) (k : Nat) :
    0 ≤ depth (beforeFinish given) k := by
  obtain ⟨hover, -⟩ := (Postfix.judged mode given).exists_eq_ok_iff.mp ⟨p, h⟩
  have hfront := not_overcloses_zero_iff.mp hover _ (List.take_prefix k _)
  unfold depth
  omega

/-- What tokens convert to is what has gone out at their end, and what waits there. -/
theorem exists_progress_of_ofTokens (h : Postfix.ofTokens mode given = .ok p) :
    ∃ out waiting, Progress (beforeFinish given) (beforeFinish given).length out waiting ∧
      p.tokens = (out ++ waiting).map (tokenAt (beforeFinish given)) := by
  have hfinish : .finish ∉ beforeFinish given := by
    intro hmem
    simpa using List.mem_takeWhile_imp hmem
  obtain ⟨out, waiting, hprogress, hrun⟩ :=
    exists_progress hfinish (depth_nonneg_of_ofTokens h) (Nat.le_refl _)
  rw [List.take_length] at hrun
  obtain ⟨out', held, rest, hrun', hdrain, rfl⟩ := Postfix.ofTokens_eq_ok h
  obtain ⟨rfl, -⟩ := Pending.drain_eq_ok hdrain
  obtain ⟨rfl, rfl⟩ : out.map (tokenAt _) = out' ∧ waiting.map (entryAt _) = held := by
    simpa [hrun] using hrun'
  refine ⟨out, waiting, hprogress, ?_⟩
  show out.map _ ++ (waiting.map _).map Pending.token = _
  rw [List.map_append, List.map_map]
  refine congrArg _ (List.map_congr_left ?_)
  intro i hi
  exact ((hprogress.mem_waiting i).mp hi).token_entryAt

/-- **Postfix order ends with the rightmost lowest operator**, unless a parenthesis is left open. -/
theorem exists_releaseOrder (h : Postfix.ofTokens mode given = .ok p)
    (hplain : .opening ∉ p.tokens) (houtside : Outside (beforeFinish given) i op) :
    ∃ front last other, RightmostLowest (beforeFinish given) last other ∧
      ReleaseOrder (beforeFinish given) (front ++ [last]) p := by
  obtain ⟨out, waiting, hprogress, htokens⟩ := exists_progress_of_ofTokens h
  obtain ⟨hsorted, hmem⟩ := hprogress.at_end
  have hdepth := depth_nonneg_of_ofTokens h
  have hclosed : ∀ start, ¬ IsOpen (beforeFinish given) start (beforeFinish given).length := by
    intro start hopen
    have hwaits := (hprogress.mem_waiting start).mpr (Or.inr hopen)
    refine hplain ?_
    rw [htokens, ← tokenAt_eq hopen.1]
    exact List.mem_map_of_mem (List.mem_append_right out hwaits)
  obtain ⟨last, other, hlast⟩ := exists_rightmostLowest houtside
  obtain ⟨front, rfl⟩ := exists_front hprogress.latestFirst
    ((hprogress.mem_waiting last).mpr (hlast.waits hdepth))
    fun j hj => hlast.le_of_waits hdepth hclosed ((hprogress.mem_waiting j).mp hj)
  rw [← List.append_assoc] at hsorted hmem htokens
  exact ⟨out ++ front, last, other, hlast, hsorted, hmem, htokens⟩

end

end Nesting

/-! ### What the value comes from -/

namespace Postfix

variable {vars : Variables} {op : Operator}

/-- An operator that is taken last puts on top what it computes from what was on top before. -/
theorem reduce_operator_eq_ok {front : List Token} {s : OperandStack}
    (h : reduce vars ⟨front ++ [.operator op]⟩ = .ok s) :
    ∃ x y below value, reduce vars ⟨front⟩ = .ok ⟨y :: x :: below⟩ ∧
      op.apply x y = .ok value ∧ s = ⟨value :: below⟩ := by
  unfold reduce at h
  rw [List.foldlM_append] at h
  obtain ⟨middle, hfront, hlast⟩ := Except.bind_eq_ok h
  rw [List.foldlM_cons] at hlast
  obtain ⟨next, hop, hnext⟩ := Except.bind_eq_ok hlast
  obtain ⟨x, y, below, value, rfl, happly, rfl⟩ := OperandStack.operate_eq_ok hop
  exact ⟨x, y, below, value, hfront, happly, (Except.ok.inj hnext).symm⟩

/-- So the value, where there is one, is what the last operator computes. -/
theorem value_operator_eq_ok {mode : Mode} {p : Postfix} {front : List Token} {value : Int64}
    (hlast : p.tokens = front ++ [.operator op]) (h : p.value mode vars = .ok value) :
    ∃ x y below, reduce vars ⟨front⟩ = .ok ⟨y :: x :: below⟩ ∧ op.apply x y = .ok value := by
  obtain rfl : p = ⟨front ++ [.operator op]⟩ := congrArg mk hlast
  obtain ⟨s, hreduce, hresult⟩ := Except.bind_eq_ok h
  obtain ⟨x, y, below, found, hfront, happly, rfl⟩ := reduce_operator_eq_ok hreduce
  rw [OperandStack.result_cons] at hresult
  split_ifs at hresult
  exact ⟨x, y, below, hfront, Except.ok.inj hresult ▸ happly⟩

theorem opening_not_mem_of_value {mode : Mode} {p : Postfix} {value : Int64}
    (h : p.value mode vars = .ok value) : .opening ∉ p.tokens := by
  obtain ⟨s, hreduce, -⟩ := Except.bind_eq_ok h
  exact OperandStack.opening_not_mem_of_foldlM_take hreduce

end Postfix

open Nesting

/--
**An expression is about its rightmost lowest operator outside parentheses.**  Let a text have a
value, well formed or not, and let an operator be outside all parentheses in it.  Of such
operators take those of lowest precedence, and of these the rightmost one.  Then this one is the
last token in postfix order, and the value is what it computes.  If a comparison or a logical
operator is outside all parentheses, the value is zero or one.
-/
theorem value_of_outermost {mode : Mode} {vars : Variables} {source : String} {value : Int64}
    (h : evaluate mode vars source = .ok value) :
    ∃ inner p, tokenize source = .ok (inner ++ [.finish]) ∧
      Postfix.ofSource mode source = .ok p ∧
      (∀ i op, Outside inner i op → ∃ front last lowest,
        RightmostLowest inner last lowest ∧ ReleaseOrder inner (front ++ [last]) p ∧
        p.tokens = front.map (tokenAt inner) ++ [.operator lowest] ∧
        ∃ x y below, Postfix.reduce vars ⟨front.map (tokenAt inner)⟩ = .ok ⟨y :: x :: below⟩ ∧
          lowest.apply x y = .ok value) ∧
      ∀ i op, Outside inner i op → op.isTest = true → value = 0 ∨ value = 1 := by
  obtain ⟨p, hp, hvalue⟩ := Except.bind_eq_ok h
  replace hvalue : p.value mode vars = .ok value := Except.mapError_eq_ok hvalue
  obtain ⟨tokens, hscan, hconvert⟩ := Postfix.ofSource_eq_ok hp
  obtain ⟨inner, rfl, hinner⟩ := exists_inner_of_tokenize hscan
  have hlast : ∀ i op, Outside inner i op → ∃ front last lowest,
      RightmostLowest inner last lowest ∧ ReleaseOrder inner (front ++ [last]) p := by
    intro i op houtside
    rw [← beforeFinish_append_finish hinner []] at houtside ⊢
    exact exists_releaseOrder hconvert (Postfix.opening_not_mem_of_value hvalue) houtside
  refine ⟨inner, p, hscan, hp, ?_, ?_⟩
  · intro i op houtside
    obtain ⟨front, last, lowest, hlowest, horder⟩ := hlast i op houtside
    have htokens := horder.tokens_eq_append hlowest.outside.1
    exact ⟨front, last, lowest, hlowest, horder, htokens,
      Postfix.value_operator_eq_ok htokens hvalue⟩
  · intro i op houtside htest
    obtain ⟨front, last, lowest, hlowest, horder⟩ := hlast i op houtside
    have htokens := horder.tokens_eq_append hlowest.outside.1
    obtain ⟨x, y, below, -, happly⟩ := Postfix.value_operator_eq_ok htokens hvalue
    refine Operator.apply_of_isTest ?_ happly
    rw [Operator.isTest_iff_precedence] at htest ⊢
    exact Nat.le_trans (hlowest.lowest i op houtside) htest

/--
In `8 1 < x == (0 || 5) - 4` an operand is left over, and `||` binds most loosely but is in
parentheses.  Outside, `==` binds as loosely as `<` and is further right.
-/
theorem value_of_outermost_leftover :
    let vars : Variables := fun name => if name = "x" then some 3 else none
    let source := "8 1 < x == (0 || 5) - 4"
    let inner : List Token := [.number 8, .number 1, .operator .lt, .name "x", .operator .eq,
      .opening, .number 0, .operator .or, .number 5, .closing, .operator .sub, .number 4]
    (evaluate .lenient vars source = .ok 0 ∧ tokenize source = .ok (inner ++ [.finish]) ∧
      Outside inner 2 .lt ∧ Operator.isTest .lt = true) ∧
    ∃ p front last lowest, Postfix.ofSource .lenient source = .ok p ∧
      RightmostLowest inner last lowest ∧ ReleaseOrder inner (front ++ [last]) p ∧
      (∃ x y below, Postfix.reduce vars ⟨front.map (tokenAt inner)⟩ = .ok ⟨y :: x :: below⟩ ∧
        lowest.apply x y = .ok 0) ∧
      ((0 : Int64) = 0 ∨ (0 : Int64) = 1) := by
  intro vars source inner
  have hvalue : evaluate .lenient vars source = .ok 0 := by decide +kernel
  have hscan : tokenize source = .ok (inner ++ [.finish]) := by decide +kernel
  have houtside : Outside inner 2 .lt := ⟨rfl, rfl⟩
  have htest : Operator.isTest .lt = true := rfl
  obtain ⟨found, p, hfound, hp, hlast, hanswer⟩ := value_of_outermost hvalue
  obtain rfl : found = inner :=
    List.append_cancel_right (Except.ok.inj (hfound.symm.trans hscan))
  obtain ⟨front, last, lowest, hlowest, horder, -, happly⟩ := hlast 2 .lt houtside
  exact ⟨⟨hvalue, hscan, houtside, htest⟩, p, front, last, lowest, hp, hlowest, horder, happly,
    hanswer 2 .lt houtside htest⟩

end Reckon
