import Mathlib.Logic.Function.Iterate

/-! `ExprListIterator` is a list with a place in it. `PrevExpr` increments the place as `NextExpr`
does, and dereferences what it finds. -/
namespace Condor.ClassAd

/-- The list is absent until `Initialize`; the place is an offset from `begin()`. -/
structure ExprListIterator (α : Type) where
  l : Option (List α)
  itr : Nat

namespace ExprListIterator

variable {α : Type}

def initializeList (el : List α) : ExprListIterator α := ⟨some el, 0⟩

def toAfterLast (s : ExprListIterator α) : ExprListIterator α :=
  match s.l with
  | some exprList => { s with itr := exprList.length }
  | none => s

def nextExpr (s : ExprListIterator α) : Option α × ExprListIterator α :=
  match s.l with
  | some exprList =>
    if s.itr ≠ exprList.length then (exprList[s.itr + 1]?, { s with itr := s.itr + 1 })
    else (none, s)
  | none => (none, s)

/-- There is no result where the incremented place has no element: the end, which is
dereferenced, or a place behind the end. -/
def prevExpr (s : ExprListIterator α) : Option (Option α × ExprListIterator α) :=
  match s.l with
  | some exprList =>
    if s.itr ≠ 0 then
      exprList[s.itr + 1]?.map fun e => (some e, { s with itr := s.itr + 1 })
    else some (none, s)
  | none => some (none, s)

def positioned (el : List α) (i : Nat) : ExprListIterator α :=
  (fun s => (nextExpr s).2)^[i] (initializeList el)

def walkBack : Nat → ExprListIterator α → Option (List (Option α))
  | 0, _ => some []
  | calls + 1, s => do
    let (e, s) ← prevExpr s
    let rest ← walkBack calls s
    return e :: rest

variable (el : List α)

theorem positioned_eq (i : Nat) (inside : i ≤ el.length) : positioned el i = ⟨some el, i⟩ := by
  induction i with
  | zero => rfl
  | succ i ih =>
    have here : positioned el i = ⟨some el, i⟩ := ih (by omega)
    have notEnd : i ≠ el.length := by omega
    rw [positioned, Function.iterate_succ_apply', ← positioned, here]
    simp only [nextExpr, notEnd, ne_eq, not_false_eq_true, if_true]

/-- From every place but the first, `PrevExpr` goes forward. -/
theorem prevExpr_positioned (i : Nat) (inside : i + 1 ≤ el.length) :
    prevExpr (positioned el (i + 1)) =
      el[i + 2]?.map fun e => (some e, positioned el (i + 2)) := by
  rw [positioned_eq el _ inside]
  by_cases more : i + 2 < el.length
  · rw [positioned_eq el _ (Nat.le_of_lt more)]
    simp [prevExpr, more]
  · simp [prevExpr, more]

theorem toAfterLast_initializeList :
    toAfterLast (initializeList el) = ⟨some el, el.length⟩ := rfl

/-- From every element that `NextExpr` reaches, `PrevExpr` returns the element before. -/
def StepsBack (el : List α) : Prop :=
  ∀ i, i + 1 < el.length → (prevExpr (positioned el (i + 1))).map Prod.fst = some el[i]?

/-- The walk from the end gives the elements in reverse order and then nothing. -/
def WalksBack (el : List α) : Prop :=
  walkBack (el.length + 1) (toAfterLast (initializeList el)) =
    some (el.reverse.map some ++ [none])

theorem stepsBack_iff : StepsBack el ↔ el.length ≤ 1 := by
  constructor
  · intro back
    by_contra long
    -- the last element has no successor for `PrevExpr` to return
    have last := back (el.length - 2) (by omega)
    rw [prevExpr_positioned el _ (by omega), List.getElem?_eq_none (by omega)] at last
    cases last
  · intro short i inside
    omega

theorem walksBack_iff : WalksBack el ↔ el = [] := by
  constructor
  · intro walk
    by_contra filled
    have long : el.length ≠ 0 := by simpa using filled
    simp [WalksBack, walkBack, toAfterLast_initializeList, prevExpr, long] at walk
  · rintro rfl
    rfl

theorem stepsBothWays_iff (el : List α) : StepsBack el ∧ WalksBack el ↔ el = [] := by
  rw [stepsBack_iff, walksBack_iff, and_iff_right_iff_imp]
  rintro rfl
  exact Nat.zero_le 1

/-- At the second of three elements the third is returned; from the end of a list of one
element there is no defined result. -/
theorem prevExpr_goes_forward :
    (prevExpr (positioned [10, 20, 30] 1)).map Prod.fst = some (some 30) ∧
      prevExpr (toAfterLast (initializeList [10])) = none :=
  ⟨rfl, rfl⟩

end ExprListIterator

end Condor.ClassAd
