import Mathlib.Algebra.Order.Group.Int
import Mathlib.Data.List.Basic
import Mathlib.Tactic.Common

/-! `ProcFamilyMonitor::get_snapshot_interval`. An interval of -1 is infinite, but compares as the
least one: an infinite subtree discards what was found before it. -/
namespace Condor.Procd

/-- `Tree`: the data of a node and its children, from the youngest on. -/
inductive Tree (T : Type*) where
  | node (data : T) (children : List (Tree T))

namespace Tree

def foldChild (retValue childValue : Int) : Int :=
  if retValue = -1 then childValue
  else if childValue < retValue then childValue
  else retValue

mutual

/-- `get_snapshot_interval` of a tree of families, each given by its maximum interval. -/
def getSnapshotInterval : Tree Int → Int
  | node interval children => foldChildren interval children

def foldChildren (retValue : Int) : List (Tree Int) → Int
  | [] => retValue
  | child :: siblings => foldChildren (foldChild retValue child.getSnapshotInterval) siblings

end

mutual

def intervals : Tree Int → List Int
  | node interval children => interval :: intervalsOf children

def intervalsOf : List (Tree Int) → List Int
  | [] => []
  | child :: siblings => child.intervals ++ intervalsOf siblings

end

theorem induct {T : Type*} {P : Tree T → Prop}
    (step : ∀ data children, (∀ c ∈ children, P c) → P (node data children)) : ∀ t, P t
  | node data children => step data children fun c _ => induct step c

/-- The last family of the tree has no finite interval. -/
def EndsInfinite (t : Tree Int) : Prop := t.intervals.getLast? = some (-1)

/-- An interval with no subtree behind it, at any level, that ends with an infinite one. -/
inductive Seen : Tree Int → Int → Prop
  | own {interval : Int} {children : List (Tree Int)} :
      (∀ c ∈ children, ¬c.EndsInfinite) → Seen (node interval children) interval
  | child (elder : List (Tree Int)) {younger : List (Tree Int)} {interval i : Int} {c : Tree Int} :
      Seen c i → (∀ c' ∈ younger, ¬c'.EndsInfinite) →
      Seen (node interval (elder ++ c :: younger)) i

def Proper (t : Tree Int) : Prop := ∀ i ∈ t.intervals, i = -1 ∨ 0 ≤ i

/-- The least of the finite intervals, or infinite if there is none. -/
def Tightest (t : Tree Int) (value : Int) : Prop :=
  (value = -1 ∧ ∀ i ∈ t.intervals, i = -1) ∨
    (0 ≤ value ∧ value ∈ t.intervals ∧ ∀ i ∈ t.intervals, 0 ≤ i → value ≤ i)

theorem intervals_node (interval : Int) (children : List (Tree Int)) :
    (node interval children).intervals = interval :: intervalsOf children := by
  rw [intervals]

variable {children : List (Tree Int)}
variable {i interval retValue : Int} {found : Int → Prop}

theorem mem_intervalsOf : i ∈ intervalsOf children ↔ ∃ c ∈ children, i ∈ c.intervals := by
  induction children with
  | nil => simp [intervalsOf]
  | cons c children ih => rw [intervalsOf, List.mem_append, ih, List.exists_mem_cons_iff]

theorem Proper.child (proper : (node interval children).Proper) {c : Tree Int}
    (member : c ∈ children) :
    c.Proper := fun i inside => by
  refine proper i ?_
  rw [intervals_node]
  exact List.mem_cons_of_mem _ (mem_intervalsOf.mpr ⟨c, member, inside⟩)

theorem endsInfinite_node :
    (node interval children).EndsInfinite ↔
      match children.getLast? with
      | none => interval = -1
      | some c => c.EndsInfinite := by
  rcases List.eq_nil_or_concat children with rfl | ⟨elder, c, rfl⟩
  · simp [EndsInfinite, intervals, intervalsOf]
  · have last : ∀ elder : List (Tree Int),
        (intervalsOf (elder ++ [c])).getLast? = c.intervals.getLast? := by
      obtain ⟨own, below⟩ := c
      intro elder
      induction elder with
      | nil => simp [intervalsOf]
      | cons e elder ih =>
        rw [List.cons_append, intervalsOf, List.getLast?_append, ih, intervals_node]
        rw [List.getLast?_cons, Option.some_or]
    rw [List.concat_eq_append, List.getLast?_concat, EndsInfinite, intervals_node,
      List.getLast?_cons, last]
    obtain ⟨own, below⟩ := c
    simp [EndsInfinite, intervals_node, List.getLast?_cons]

theorem foldChildren_append (elder younger : List (Tree Int)) (retValue : Int) :
    foldChildren retValue (elder ++ younger) =
      foldChildren (foldChildren retValue elder) younger := by
  induction elder generalizing retValue with
  | nil => rfl
  | cons c elder ih => exact ih _

theorem seen_node_iff :
    (node interval children).Seen i ↔
      (i = interval ∧ ∀ c ∈ children, ¬c.EndsInfinite) ∨
      ∃ elder c younger, children = elder ++ c :: younger ∧ c.Seen i ∧
        ∀ c' ∈ younger, ¬c'.EndsInfinite := by
  constructor
  · rintro (clear | ⟨elder, seen, clear⟩)
    · exact .inl ⟨rfl, clear⟩
    · exact .inr ⟨elder, _, _, rfl, seen, clear⟩
  · rintro (⟨rfl, clear⟩ | ⟨elder, c, younger, rfl, seen, clear⟩)
    · exact .own clear
    · exact .child elder seen clear

/-- A value stands for a set of intervals: infinite if none of them is finite, and the least
finite one otherwise. -/
def Summarizes (value : Int) (among : Int → Prop) : Prop :=
  (value = -1 ∧ ∀ i, among i → ¬0 ≤ i) ∨
    (0 ≤ value ∧ among value ∧ ∀ i, among i → 0 ≤ i → value ≤ i)

variable {childValue : Int} {below : Int → Prop} {t : Tree Int}

/-- An infinite child discards what was found before it; any other child is joined to it. -/
theorem Summarizes.foldChild (before : Summarizes retValue found)
    (child : Summarizes childValue below) :
    Summarizes (Tree.foldChild retValue childValue)
      fun i => (found i ∧ childValue ≠ -1) ∨ below i := by
  unfold Tree.foldChild
  rcases child with ⟨rfl, none⟩ | ⟨finite, here, least⟩
  · have infinite : (if retValue = -1 then -1 else if -1 < retValue then -1 else retValue) =
        (-1 : Int) := by
      rcases before with ⟨same, -⟩ | ⟨positive, -, -⟩
      · rw [if_pos same]
      · rw [if_neg (by omega), if_pos (by omega)]
    refine .inl ⟨infinite, ?_⟩
    rintro i (⟨-, other⟩ | inside)
    · exact absurd rfl other
    · exact none i inside
  · have other : childValue ≠ -1 := by omega
    rcases before with ⟨rfl, none⟩ | ⟨positive, there, smallest⟩
    · rw [if_pos rfl]
      refine .inr ⟨finite, .inr here, ?_⟩
      rintro i (⟨inside, -⟩ | inside) nonneg
      · exact absurd nonneg (none i inside)
      · exact least i inside nonneg
    · rw [if_neg (by omega)]
      split
      · next less =>
          refine .inr ⟨finite, .inr here, ?_⟩
          rintro i (⟨inside, -⟩ | inside) nonneg
          · exact (less.trans_le (smallest i inside nonneg)).le
          · exact least i inside nonneg
      · next notLess =>
          refine .inr ⟨positive, .inl ⟨there, other⟩, ?_⟩
          rintro i (⟨inside, -⟩ | inside) nonneg
          · exact smallest i inside nonneg
          · exact (not_lt.mp notLess).trans (least i inside nonneg)

/-- The loop over the children, each of which is summarized and infinite only at its end. -/
theorem Summarizes.foldChildren
    (below : ∀ c ∈ children, Summarizes c.getSnapshotInterval c.Seen ∧
      (c.getSnapshotInterval = -1 ↔ c.EndsInfinite)) (before : Summarizes retValue found) :
    Summarizes (Tree.foldChildren retValue children) fun i =>
      (found i ∧ ∀ c ∈ children, ¬c.EndsInfinite) ∨
      ∃ elder c younger, children = elder ++ c :: younger ∧ c.Seen i ∧
        ∀ c' ∈ younger, ¬c'.EndsInfinite := by
  induction children generalizing retValue found with
  | nil => simpa [Tree.foldChildren] using before
  | cons c children ih =>
    obtain ⟨⟨here, ends⟩, rest⟩ := List.forall_mem_cons.mp below
    have folded := ih rest (before.foldChild here)
    rw [Tree.foldChildren]
    convert folded using 2 with i
    rw [List.forall_mem_cons, ← not_congr ends]
    constructor
    · rintro (⟨inside, finite, clear⟩ | ⟨_ | ⟨e, elder⟩, c', younger, same, seen, clear⟩)
      · exact .inl ⟨.inl ⟨inside, finite⟩, clear⟩
      · cases same
        exact .inl ⟨.inr seen, clear⟩
      · cases same
        exact .inr ⟨elder, c', younger, rfl, seen, clear⟩
    · rintro (⟨⟨inside, finite⟩ | seen, clear⟩ | ⟨elder, c', younger, rfl, seen, clear⟩)
      · exact .inl ⟨inside, finite, clear⟩
      · exact .inr ⟨[], c, children, rfl, seen, clear⟩
      · exact .inr ⟨c :: elder, c', younger, rfl, seen, clear⟩

theorem Summarizes.eq_infinite_iff (before : Summarizes retValue found)
    (child : Summarizes childValue below) :
    Tree.foldChild retValue childValue = -1 ↔ childValue = -1 := by
  unfold Tree.foldChild
  rcases before with ⟨rfl, -⟩ | ⟨positive, -, -⟩ <;> rcases child with ⟨rfl, -⟩ | ⟨finite, -, -⟩ <;>
    split_ifs <;> omega

/-- The value of a tree is the least finite interval that is seen, and it is infinite exactly
if the last family is. -/
theorem getSnapshotInterval_spec (proper : t.Proper) :
    Summarizes t.getSnapshotInterval t.Seen ∧ (t.getSnapshotInterval = -1 ↔ t.EndsInfinite) := by
  induction t using induct with
  | step interval children ih =>
    have below := fun c member => ih c member (proper.child member)
    have own : Summarizes interval (· = interval) := by
      rcases proper interval (by rw [intervals_node]; exact List.mem_cons_self) with rfl | finite
      · refine .inl ⟨rfl, ?_⟩
        rintro i rfl
        decide
      · exact .inr ⟨finite, rfl, fun i same _ => same.ge⟩
    rw [getSnapshotInterval, endsInfinite_node]
    constructor
    · simpa only [← seen_node_iff] using Summarizes.foldChildren below own
    · rcases List.eq_nil_or_concat children with rfl | ⟨elder, c, rfl⟩
      · exact Iff.rfl
      · rw [List.concat_eq_append] at below ⊢
        have first := Summarizes.foldChildren
          (fun e member => below e (List.mem_append_left _ member)) own
        have last := below c (List.mem_append_right _ (List.mem_singleton_self c))
        rw [List.getLast?_concat, foldChildren_append]
        exact (first.eq_infinite_iff last.1).trans last.2

theorem Seen.mem_intervals (seen : t.Seen i) : i ∈ t.intervals := by
  induction seen with
  | own =>
    rw [intervals_node]
    exact List.mem_cons_self
  | child _ _ _ ih =>
    rw [intervals_node]
    exact List.mem_cons_of_mem _ (mem_intervalsOf.mpr ⟨_, by simp, ih⟩)

/-- The value is the tightest interval exactly if all are infinite or the tightest one is
seen. -/
theorem getSnapshotInterval_tightest_iff {t : Tree Int} (proper : t.Proper) :
    t.Tightest t.getSnapshotInterval ↔ (∀ i ∈ t.intervals, i = -1) ∨
      ∃ i, t.Seen i ∧ 0 ≤ i ∧ ∀ i' ∈ t.intervals, 0 ≤ i' → i ≤ i' := by
  obtain ⟨summary, -⟩ := getSnapshotInterval_spec proper
  constructor
  · rintro (⟨-, all⟩ | ⟨finite, -, least⟩)
    · exact .inl all
    · rcases summary with ⟨infinite, -⟩ | ⟨-, seen, -⟩
      · omega
      · exact .inr ⟨_, seen, finite, least⟩
  · rintro (all | ⟨i, seen, finite, least⟩)
    · rcases summary with ⟨infinite, -⟩ | ⟨finite, seen, -⟩
      · exact .inl ⟨infinite, all⟩
      · have := all _ seen.mem_intervals
        omega
    · rcases summary with ⟨-, none⟩ | ⟨nonneg, here, smallest⟩
      · exact absurd finite (none i seen)
      · exact .inr ⟨nonneg, here.mem_intervals, fun i' inside nonneg' =>
          (smallest i seen finite).trans (least i' inside nonneg')⟩

theorem getSnapshotInterval_tightest_iff_nested :
    (node 60 [node (-1) [node 5 []], node 30 []]).Tightest 5 := by
  refine (getSnapshotInterval_tightest_iff (t := node 60 [node (-1) [node 5 []], node 30 []])
    (by unfold Proper; decide +kernel)).mpr (.inr ⟨5, ?_, by decide, by decide +kernel⟩)
  refine .child [] ?_ (by unfold EndsInfinite; decide +kernel)
  exact .child [] (.own nofun) nofun

/-- A family without a limit below one with a limit. -/
theorem infinite_child_discards :
    (node 60 [node (-1) []]).getSnapshotInterval = -1 ∧
      ¬(node 60 [node (-1) []]).Tightest (-1) := by
  refine ⟨by decide +kernel, ?_⟩
  rintro (⟨-, all⟩ | ⟨finite, -⟩)
  · exact absurd (all 60 (by decide +kernel)) (by decide)
  · exact absurd finite (by decide)

end Tree
end Condor.Procd
