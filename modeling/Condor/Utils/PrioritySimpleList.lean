import Mathlib.Data.List.GetD
import Condor.Lib.Run

/-! `PrioritySimpleList` keeps items and priorities in two arrays. The place for a new item is found
by a binary search and a walk over the equal priorities; both arrays are shifted and grow together.
-/
namespace Condor.Utils
open Condor.Lib

/-- The arrays are the lists of their elements in use, so that `size` is the number of items. -/
structure PrioritySimpleList (α : Type) where
  maximumSize : Nat
  items : List α
  priorities : List Int
  current : Int

namespace PrioritySimpleList
variable {α : Type}

def empty : PrioritySimpleList α := ⟨1, [], [], -1⟩

/-- `BinarySearch::Search` between `low` and `high`, which is one less than `past`. -/
def search (array : List Int) (key : Int) (low past : Nat) : Bool × Nat :=
  if low < past then
    let mid := low + (past - 1 - low) / 2
    let midVal := array.getD mid 0
    if midVal < key then search array key (mid + 1) past
    else if midVal > key then search array key low mid
    else (true, mid)
  else (false, low)
termination_by past - low

/-- The walk to smaller places, which ends one place behind a smaller priority. -/
def stepBack (priorities : List Int) (priority : Int) : Nat → Nat
  | 0 => 0
  | index + 1 =>
    if priorities.getD index 0 < priority then index + 1 else stepBack priorities priority index

/-- The walk to larger places, up to a larger priority. -/
def stepOn (priorities : List Int) (priority : Int) (index : Nat) : Nat :=
  if index < priorities.length then
    if priorities.getD index 0 > priority then index else stepOn priorities priority (index + 1)
  else index
termination_by priorities.length - index

def findInsertBefore (s : PrioritySimpleList α) (priority : Int) : Nat :=
  if s.items.length = 0 ∨ s.priorities.getD 0 0 ≥ priority then 0
  else
    match search s.priorities priority 0 s.items.length with
    | (true, index) => stepBack s.priorities priority (index + 1)
    | (false, index) => index

def findInsertAfter (s : PrioritySimpleList α) (priority : Int) : Nat :=
  if s.items.length = 0 ∨ s.priorities.getD (s.items.length - 1) 0 ≤ priority then s.items.length
  else
    match search s.priorities priority 0 s.items.length with
    | (true, index) => stepOn s.priorities priority index
    | (false, index) => index

/-- The size is cut to one less than the new maximum. -/
def resize (s : PrioritySimpleList α) (newsize : Nat) : PrioritySimpleList α where
  maximumSize := newsize
  items := s.items.take (newsize - 1)
  priorities := s.priorities.take (newsize - 1)
  current := if s.current > newsize - 1 then newsize else s.current

/-- There is no result if the last item would be moved behind the end of the arrays. -/
def insertAt (s : PrioritySimpleList α) (index : Nat) (item : α) (prio : Int) :
    Option (PrioritySimpleList α) :=
  let s := if s.items.length ≥ s.maximumSize then s.resize (2 * s.maximumSize) else s
  if s.items.length < s.maximumSize then
    some { s with
      items := s.items.take index ++ item :: s.items.drop index
      priorities := s.priorities.take index ++ prio :: s.priorities.drop index }
  else none

/-- The loop that moves what follows one place down. -/
def removeAt (s : PrioritySimpleList α) (i : Nat) : PrioritySimpleList α :=
  { s with items := s.items.eraseIdx i, priorities := s.priorities.eraseIdx i }

def deleteCurrent (s : PrioritySimpleList α) : PrioritySimpleList α :=
  if s.current ≥ s.items.length ∨ s.current < 0 then s
  else { s.removeAt s.current.toNat with current := s.current - 1 }

def deleteAt (s : PrioritySimpleList α) (i : Nat) : PrioritySimpleList α :=
  { s.removeAt i with current := if s.current ≥ i then s.current - 1 else s.current }

/-- The loop of `Delete` from a place on. -/
def deleteFrom [DecidableEq α] (item : α) (deleteAll : Bool) (s : PrioritySimpleList α) (i : Nat) :
    PrioritySimpleList α :=
  if inside : i < s.items.length then
    if s.items[i] = item then
      if deleteAll then deleteFrom item deleteAll (s.deleteAt i) i else s.deleteAt i
    else deleteFrom item deleteAll s (i + 1)
  else s
termination_by s.items.length - i
decreasing_by
  · simp only [deleteAt, removeAt, List.length_eraseIdx, if_pos inside]
    omega
  · omega

def next (s : PrioritySimpleList α) : PrioritySimpleList α :=
  if s.current ≥ s.items.length - 1 then s else { s with current := s.current + 1 }

inductive Operation (α : Type) where
  | append (item : α) (prio : Int)
  | prepend (item : α) (prio : Int)
  | delete (item : α) (deleteAll : Bool)
  | deleteCurrent
  | rewind
  | next

def perform [DecidableEq α] (s : PrioritySimpleList α) :
    Operation α → Option (PrioritySimpleList α)
  | .append item prio => s.insertAt (s.findInsertAfter prio) item prio
  | .prepend item prio => s.insertAt (s.findInsertBefore prio) item prio
  | .delete item deleteAll => some (deleteFrom item deleteAll s 0)
  | .deleteCurrent => some s.deleteCurrent
  | .rewind => some { s with current := -1 }
  | .next => some s.next

/-! ### Places -/

section Places
variable {a : List Int} {s : PrioritySimpleList α}

theorem getD_le (sorted : a.Pairwise (· ≤ ·)) {i j : Nat} (order : i ≤ j) (inside : j < a.length) :
    a.getD i 0 ≤ a.getD j 0 := by
  rw [List.getD_eq_getElem _ _ inside, List.getD_eq_getElem _ _ (by omega)]
  rcases Nat.lt_or_eq_of_le order with less | rfl
  · exact List.pairwise_iff_getElem.mp sorted i j _ _ less
  · exact Int.le_refl _

/-- A place that divides an array. -/
def Splits (a : List Int) (P Q : Int → Prop) (k : Nat) : Prop :=
  (∀ j < k, P (a.getD j 0)) ∧ ∀ j, k ≤ j → j < a.length → Q (a.getD j 0)

/-- The search ends at the key, or at the place where it belongs. -/
theorem search_spec (sorted : a.Pairwise (· ≤ ·)) (key : Int) {low past : Nat}
    (order : low ≤ past) (bound : past ≤ a.length) (below : ∀ j < low, a.getD j 0 < key)
    (above : ∀ j, past ≤ j → j < a.length → key < a.getD j 0) :
    ((search a key low past).1 = true → (search a key low past).2 < a.length ∧
      a.getD (search a key low past).2 0 = key) ∧
    ((search a key low past).1 = false →
      Splits a (· < key) (key < ·) (search a key low past).2) := by
  fun_induction search a key low past with
  | case1 low past more mid midVal less ih =>
    refine ih (by omega) bound (fun j before => ?_) above
    exact Int.lt_of_le_of_lt (getD_le sorted (Nat.lt_succ_iff.mp before) (by omega)) less
  | case2 low past more mid midVal _ greater ih =>
    refine ih (by omega) (by omega) below fun j after inside => ?_
    exact Int.lt_of_lt_of_le greater (getD_le sorted after inside)
  | case3 low past more mid midVal notLess notGreater =>
    have same : midVal = key :=
      Int.le_antisymm (Int.not_lt.mp notGreater) (Int.not_lt.mp notLess)
    exact ⟨fun _ => ⟨by dsimp only; omega, same⟩, (nomatch ·)⟩
  | case4 low past done =>
    obtain rfl : low = past := by omega
    exact ⟨(nomatch ·), fun _ => ⟨below, above⟩⟩

theorem stepBack_spec (sorted : a.Pairwise (· ≤ ·)) {key : Int} {k : Nat} (inside : k ≤ a.length)
    (after : ∀ j, k ≤ j → j < a.length → key ≤ a.getD j 0) :
    Splits a (· < key) (key ≤ ·) (stepBack a key k) := by
  induction k with
  | zero => exact ⟨fun j before => absurd before (Nat.not_lt_zero j), after⟩
  | succ k ih =>
    rw [stepBack]
    split
    next less =>
      refine ⟨fun j before => ?_, after⟩
      exact Int.lt_of_le_of_lt (getD_le sorted (Nat.lt_succ_iff.mp before) inside) less
    next notLess =>
      refine ih (by omega) fun j from_ inside => ?_
      exact Int.le_trans (Int.not_lt.mp notLess) (getD_le sorted from_ inside)

theorem stepOn_spec (sorted : a.Pairwise (· ≤ ·)) {key : Int} {i : Nat}
    (before : ∀ j < i, a.getD j 0 ≤ key) : Splits a (· ≤ key) (key < ·) (stepOn a key i) := by
  fun_induction stepOn a key i with
  | case1 i inside greater =>
    refine ⟨before, fun j after within => ?_⟩
    exact Int.lt_of_lt_of_le greater (getD_le sorted after within)
  | case2 i inside notGreater ih =>
    refine ih fun j upTo => ?_
    rcases Nat.lt_or_eq_of_le (Nat.lt_succ_iff.mp upTo) with less | rfl
    · exact before j less
    · exact Int.not_lt.mp notGreater
  | case3 i done => exact ⟨before, fun j after inside => absurd inside (by omega)⟩

variable (aligned : s.items.length = s.priorities.length)
  (sorted : s.priorities.Pairwise (· ≤ ·)) (key : Int)
include aligned sorted

theorem findInsertBefore_spec :
    Splits s.priorities (· < key) (key ≤ ·) (s.findInsertBefore key) := by
  obtain ⟨found, absent⟩ := search_spec sorted key (Nat.zero_le _) (Nat.le_refl _)
    (by simp) (by omega)
  rw [findInsertBefore, aligned]
  split
  next fast =>
    refine ⟨fun j before => absurd before (Nat.not_lt_zero j), fun j _ inside => ?_⟩
    exact Int.le_trans (fast.resolve_left (by omega)) (getD_le sorted (Nat.zero_le j) inside)
  next slow =>
    split
    next index result =>
      rw [result] at found
      obtain ⟨inside, value⟩ := found rfl
      refine stepBack_spec sorted inside fun j after within => ?_
      exact value ▸ getD_le sorted (Nat.le_of_succ_le after) within
    next index result =>
      rw [result] at absent
      obtain ⟨before, after⟩ := absent rfl
      exact ⟨before, fun j from_ inside => Int.le_of_lt (after j from_ inside)⟩

theorem findInsertAfter_spec : Splits s.priorities (· ≤ key) (key < ·) (s.findInsertAfter key) := by
  obtain ⟨found, absent⟩ := search_spec sorted key (Nat.zero_le _) (Nat.le_refl _)
    (by simp) (by omega)
  rw [findInsertAfter, aligned]
  split
  next fast =>
    refine ⟨fun j before => ?_, fun j after inside => absurd inside (Nat.not_lt.mpr after)⟩
    have last := getD_le sorted (Nat.le_sub_one_of_lt before) (by omega)
    exact Int.le_trans last (fast.resolve_left (by omega))
  next slow =>
    split
    next index result =>
      rw [result] at found
      obtain ⟨inside, value⟩ := found rfl
      refine stepOn_spec sorted fun j before => ?_
      exact value ▸ getD_le sorted (Nat.le_of_lt before) inside
    next index result =>
      rw [result] at absent
      obtain ⟨before, after⟩ := absent rfl
      exact ⟨fun j less => Int.le_of_lt (before j less), after⟩

end Places

/-! ### Runs -/

/-- The arrays hold the same entries at the same places, in the order of the priorities. -/
structure Holds (s : PrioritySimpleList α) (entries : List (α × Int)) : Prop where
  items : s.items = entries.map Prod.fst
  priorities : s.priorities = entries.map Prod.snd
  sorted : (entries.map Prod.snd).Pairwise (· ≤ ·)
  room : entries.length ≤ s.maximumSize
  positive : 0 < s.maximumSize

def remaining [DecidableEq α] (item : α) (deleteAll : Bool) (entries : List (α × Int)) :
    List (α × Int) :=
  if deleteAll then entries.filter (·.1 ≠ item) else entries.eraseP (·.1 = item)

/-- What an operation makes of the entries, when the scan is at a place. -/
def Effect [DecidableEq α] (current : Int) (entries after : List (α × Int)) :
    Operation α → Prop
  | .append item prio => ∃ l r, entries = l ++ r ∧ after = l ++ (item, prio) :: r ∧
      (∀ e ∈ l, e.2 ≤ prio) ∧ ∀ e ∈ r, prio < e.2
  | .prepend item prio => ∃ l r, entries = l ++ r ∧ after = l ++ (item, prio) :: r ∧
      (∀ e ∈ l, e.2 < prio) ∧ ∀ e ∈ r, prio ≤ e.2
  | .delete item deleteAll => after = remaining item deleteAll entries
  | .deleteCurrent => after = if current < 0 then entries else entries.eraseIdx current.toNat
  | .rewind | .next => after = entries

section Step
variable {s : PrioritySimpleList α} {entries : List (α × Int)}

theorem Holds.grown (holds : s.Holds entries) :
    let s' := if s.items.length ≥ s.maximumSize then s.resize (2 * s.maximumSize) else s
    s'.Holds entries ∧ s'.items.length < s'.maximumSize := by
  obtain ⟨items, priorities, sorted, room, positive⟩ := holds
  have size : s.items.length = entries.length := by rw [items, List.length_map]
  dsimp only
  split
  next full =>
    have whole : ∀ {β : Type} (l : List β), l.length = entries.length →
        l.take (2 * s.maximumSize - 1) = l :=
      fun l length => List.take_of_length_le (by omega)
    have kept := whole s.items size
    have kept' := whole s.priorities (by rw [priorities, List.length_map])
    refine ⟨⟨kept.trans items, kept'.trans priorities, sorted, ?_, ?_⟩, ?_⟩
    all_goals simp only [resize, kept]
    all_goals omega
  next fits => exact ⟨⟨items, priorities, sorted, room, positive⟩, by omega⟩

theorem Holds.insertAt (holds : s.Holds entries) (item : α) {prio : Int} {P Q : Int → Prop}
    {index : Nat} (place : Splits s.priorities P Q index)
    (smaller : ∀ x, P x → x ≤ prio) (larger : ∀ x, Q x → prio ≤ x) :
    ∃ s' l r, s.insertAt index item prio = some s' ∧ s'.Holds (l ++ (item, prio) :: r) ∧
      entries = l ++ r ∧ (∀ e ∈ l, P e.2) ∧ ∀ e ∈ r, Q e.2 := by
  have before : ∀ e ∈ entries.take index, P e.2 := by
    intro e member
    obtain ⟨j, less, rfl⟩ := List.mem_take_iff_getElem.mp member
    simpa [holds.priorities, (by omega : j < entries.length)] using place.1 j (by omega)
  have after : ∀ e ∈ entries.drop index, Q e.2 := by
    intro e member
    obtain ⟨j, less, rfl⟩ := List.mem_drop_iff_getElem.mp member
    have inside : index + j < entries.length := by omega
    simpa [holds.priorities, inside] using place.2 (index + j) (by omega)
  obtain ⟨⟨items, priorities, sorted, -, positive⟩, fits⟩ := holds.grown
  rw [PrioritySimpleList.insertAt]
  generalize (if s.items.length ≥ s.maximumSize then s.resize (2 * s.maximumSize) else s) = g at *
  have size : g.items.length = entries.length := by rw [items, List.length_map]
  refine ⟨_, _, _, if_pos fits, ⟨?_, ?_, ?_, ?_, positive⟩, (List.take_append_drop index _).symm,
    before, after⟩
  · simp [items]
  · simp [priorities]
  · rw [← List.take_append_drop index entries, List.map_append, List.pairwise_append] at sorted
    obtain ⟨front, back, across⟩ := sorted
    rw [List.map_append, List.map_cons, List.pairwise_append, List.pairwise_cons]
    refine ⟨front, ⟨?_, back⟩, ?_⟩
    · rw [List.forall_mem_map]
      exact fun e member => larger _ (after e member)
    · rw [List.forall_mem_map]
      intro e member x behind
      rcases List.mem_cons.mp behind with rfl | behind
      · exact smaller _ (before e member)
      · exact across _ (List.mem_map_of_mem member) x behind
  · simp only [List.length_append, List.length_cons, List.length_take, List.length_drop]
    omega

theorem Holds.removeAt (holds : s.Holds entries) (i : Nat) (current : Int) :
    Holds { s.removeAt i with current } (entries.eraseIdx i) where
  items := by simp [PrioritySimpleList.removeAt, holds.items, List.eraseIdx_eq_take_drop_succ]
  priorities := by
    simp [PrioritySimpleList.removeAt, holds.priorities, List.eraseIdx_eq_take_drop_succ]
  sorted := holds.sorted.sublist ((List.eraseIdx_sublist _ _).map _)
  room := Nat.le_trans (List.eraseIdx_sublist _ _).length_le holds.room
  positive := holds.positive

theorem Holds.move (holds : s.Holds entries) (current : Int) : Holds { s with current } entries :=
  { holds with }

variable [DecidableEq α]

theorem remaining_cons (item : α) (deleteAll : Bool) (e : α × Int) (entries : List (α × Int)) :
    remaining item deleteAll (e :: entries) =
      if e.1 = item then if deleteAll then remaining item deleteAll entries else entries
      else e :: remaining item deleteAll entries := by
  cases deleteAll <;> by_cases same : e.1 = item <;> simp [remaining, same]

theorem Holds.deleteFrom {item : α} {deleteAll : Bool} {i : Nat} (holds : s.Holds entries) :
    (deleteFrom item deleteAll s i).Holds
      (entries.take i ++ remaining item deleteAll (entries.drop i)) := by
  -- the entry at the place, where the loop is inside the list
  have entry : ∀ {s : PrioritySimpleList α} {entries} {i : Nat} (inside : i < s.items.length),
      s.Holds entries → ∃ e, e.1 = s.items[i] ∧ entries.drop i = e :: entries.drop (i + 1) ∧
        entries.take (i + 1) = entries.take i ++ [e] ∧ i < entries.length := by
    intro s entries i inside holds
    have inside' : i < entries.length := by simpa [holds.items] using inside
    exact ⟨entries[i], by simp [holds.items], by simp, by simp, inside'⟩
  fun_induction PrioritySimpleList.deleteFrom item deleteAll s i generalizing entries with
  | case1 s i inside found all ih =>
    obtain ⟨e, first, here, -, inside'⟩ := entry inside holds
    have rest := ih (holds.removeAt i _)
    rw [List.eraseIdx_eq_take_drop_succ, List.take_left' (by simp; omega),
      List.drop_left' (by simp; omega)] at rest
    rwa [here, remaining_cons, if_pos (first.trans found), if_pos all]
  | case2 s i inside found one =>
    obtain ⟨e, first, here, -⟩ := entry inside holds
    rw [here, remaining_cons, if_pos (first.trans found), if_neg one,
      ← List.eraseIdx_eq_take_drop_succ]
    exact holds.removeAt i _
  | case3 s i inside other ih =>
    obtain ⟨e, first, here, more, -⟩ := entry inside holds
    have rest := ih holds
    rw [more, List.append_assoc, List.singleton_append] at rest
    rwa [here, remaining_cons, if_neg (first.trans_ne other)]
  | case4 s i done =>
    have size : s.items.length = entries.length := by rw [holds.items, List.length_map]
    rw [List.drop_of_length_le (by omega), List.take_of_length_le (by omega)]
    simpa [remaining] using holds

theorem Holds.perform (holds : s.Holds entries) (op : Operation α) :
    ∃ s' after, s.perform op = some s' ∧ s'.Holds after ∧ Effect s.current entries after op := by
  have aligned : s.items.length = s.priorities.length := by
    rw [holds.items, holds.priorities, List.length_map, List.length_map]
  have sorted := holds.priorities ▸ holds.sorted
  cases op with
  | append item prio =>
    obtain ⟨s', l, r, done, holds', split, small, large⟩ := holds.insertAt item
      (findInsertAfter_spec aligned sorted prio) (fun _ => id) fun _ => Int.le_of_lt
    exact ⟨s', _, done, holds', l, r, split, rfl, small, large⟩
  | prepend item prio =>
    obtain ⟨s', l, r, done, holds', split, small, large⟩ := holds.insertAt item
      (findInsertBefore_spec aligned sorted prio) (fun _ => Int.le_of_lt) fun _ => id
    exact ⟨s', _, done, holds', l, r, split, rfl, small, large⟩
  | delete item deleteAll => exact ⟨_, _, rfl, holds.deleteFrom, rfl⟩
  | deleteCurrent =>
    refine ⟨_, _, rfl, ?_, rfl⟩
    rw [PrioritySimpleList.deleteCurrent]
    have size : s.items.length = entries.length := by rw [holds.items, List.length_map]
    split
    next outside =>
      split
      · exact holds
      · rwa [List.eraseIdx_of_length_le (by omega)]
    next inside =>
      rw [if_neg (by omega)]
      exact holds.removeAt _ _
  | rewind => exact ⟨_, _, rfl, holds.move _, rfl⟩
  | next =>
    refine ⟨_, _, rfl, ?_, rfl⟩
    rw [PrioritySimpleList.next]
    split
    · exact holds
    · exact holds.move _

end Step

section Runs
variable [DecidableEq α]

theorem exists_holds (ops : List (Operation α)) {s : PrioritySimpleList α}
    {entries : List (α × Int)} (holds : s.Holds entries) :
    ∃ t after, execute perform s ops = some t ∧ t.Holds after := by
  induction ops generalizing s entries with
  | nil => exact ⟨s, entries, rfl, holds⟩
  | cons op ops ih =>
    obtain ⟨s', after, done, holds', -⟩ := holds.perform op
    obtain ⟨t, last, rest, holdsLast⟩ := ih holds'
    exact ⟨t, last, by rw [execute, done]; exact rest, holdsLast⟩

/-- After every sequence of operations the arrays hold entries in the order of the priorities,
and the next operation does to them what it is meant to. -/
theorem priorities_ordered (ops : List (Operation α)) (op : Operation α) :
    ∃ s entries s' after, execute perform empty ops = some s ∧ s.Holds entries ∧
      s.perform op = some s' ∧ s'.Holds after ∧ Effect s.current entries after op := by
  have start : (empty : PrioritySimpleList α).Holds [] :=
    ⟨rfl, rfl, .nil, Nat.zero_le 1, Nat.zero_lt_one⟩
  obtain ⟨s, entries, done, holds⟩ := exists_holds ops start
  obtain ⟨s', after, step, holds', effect⟩ := holds.perform op
  exact ⟨s, entries, s', after, done, holds, step, holds', effect⟩

end Runs

end PrioritySimpleList
end Condor.Utils
