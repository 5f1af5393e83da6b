import Mathlib.Data.Finset.Card
import Condor.Utils.HashTable
import Condor.Lib.Run

/-! What a table holds after any sequence of calls. With distinct keys it is a finite map. With
`allowDuplicateKeys` each key has a stack of values, and `resize_hash_table` turns every stack over.
-/
namespace Condor.Utils.HashTable

open Condor.Lib

variable {Index Value : Type*}

theorem addItem_hashfcn (t : HashTable Index Value) (index : Index) (value : Value) :
    (t.addItem index value).hashfcn = t.hashfcn := by
  simp only [addItem]
  split <;> rfl

variable [DecidableEq Index]

inductive Call (Index Value : Type*) where
  | insert (index : Index) (value : Value)
  | lookup (index : Index)
  | remove (index : Index)
  | clear
  deriving DecidableEq, Repr

/-- The table after a call; `lookup` is `const`. -/
def call (t : HashTable Index Value) : Call Index Value → HashTable Index Value
  | .insert index value => (t.insert index value).2
  | .lookup _ => t
  | .remove index => (t.remove index).2
  | .clear => t.clear

def calls (t : HashTable Index Value) (history : List (Call Index Value)) : HashTable Index Value :=
  history.foldl call t

theorem call_hashfcn (t : HashTable Index Value) (c : Call Index Value) :
    (t.call c).hashfcn = t.hashfcn := by
  cases c with
  | insert index value =>
    simp only [call, insert]
    split <;> (try split) <;> first | rfl | exact addItem_hashfcn t index value
  | lookup index => rfl
  | remove index =>
    simp only [call, HashTable.remove]
    split
    · rfl
    · exact fixIterator_hashfcn t _ _
  | clear => rfl

theorem call_duplicateKeyBehavior (t : HashTable Index Value) (c : Call Index Value) :
    (t.call c).duplicateKeyBehavior = t.duplicateKeyBehavior := by
  cases c with
  | insert index value => exact insert_duplicateKeyBehavior t index value
  | lookup index => rfl
  | remove index => exact remove_duplicateKeyBehavior t index
  | clear => rfl

/-! ## Distinct keys: a finite map -/

/-- What a call does to the map that the table stands for: a key that is there keeps its
first value, or takes the latest one. -/
def mapCall (behavior : DuplicateKeyBehavior) (m : Index → Option Value) :
    Call Index Value → Index → Option Value
  | .insert index value =>
    if behavior = .rejectDuplicateKeys ∧ (m index).isSome then m
    else Function.update m index (some value)
  | .lookup _ => m
  | .remove index => Function.update m index none
  | .clear => fun _ => none

structure Holds (hashF : Index → Nat) (behavior : DuplicateKeyBehavior)
    (t : HashTable Index Value) (m : Index → Option Value) : Prop where
  chained : t.Chained
  hash : t.hashfcn = hashF
  policy : t.duplicateKeyBehavior = behavior
  found : ∀ k, t.lookup k = m k

variable {t : HashTable Index Value}

theorem Chained.insert_update (h : t.Chained)
    (update : t.duplicateKeyBehavior = .updateDuplicateKeys) (index : Index) (value : Value) :
    (t.insert index value).2.Chained ∧
      ∀ k, (t.insert index value).2.lookup k = if k = index then some value else t.lookup k := by
  cases present : t.lookup index with
  | none => exact (h.insert_absent present value).2
  | some old =>
    have assigned : (t.insert index value).2 = t.assign index value := by
      rw [insert]
      split
      · next reject => exact absurd (update.symm.trans reject) (by decide)
      · rw [if_pos (h.isSome_findIn present)]
        rfl
      · next allow => exact absurd (update.symm.trans allow) (by decide)
    rw [assigned]
    refine ⟨h.assign index value, fun k => ?_⟩
    rw [lookup_assign]
    split
    · rw [present, Option.map_some]
    · rfl

variable {hashF : Index → Nat} {behavior : DuplicateKeyBehavior} {m : Index → Option Value}

theorem Holds.call (unique : behavior ≠ .allowDuplicateKeys) (h : Holds hashF behavior t m)
    (c : Call Index Value) :
    Holds hashF behavior (t.call c) (mapCall behavior m c) := by
  suffices kept : (t.call c).Chained ∧ ∀ k, (t.call c).lookup k = mapCall behavior m c k from
    ⟨kept.1, (call_hashfcn t c).trans h.hash, (call_duplicateKeyBehavior t c).trans h.policy,
      kept.2⟩
  cases c with
  | insert index value =>
    cases behavior with
    | allowDuplicateKeys => exact absurd rfl unique
    | rejectDuplicateKeys =>
      obtain ⟨chained, found⟩ := h.chained.insert_reject h.policy index value
      refine ⟨chained, fun k => (found k).trans ?_⟩
      rw [h.found, h.found, mapCall]
      cases present : m index <;> grind [Function.update_apply]
    | updateDuplicateKeys =>
      obtain ⟨chained, found⟩ := h.chained.insert_update h.policy index value
      refine ⟨chained, fun k => (found k).trans ?_⟩
      rw [h.found, mapCall]
      grind [Function.update_apply]
  | lookup index => exact ⟨h.chained, h.found⟩
  | remove index =>
    obtain ⟨chained, found⟩ := h.chained.remove index
    refine ⟨chained, fun k => (found k).trans ?_⟩
    rw [h.found, mapCall, Function.update_apply]
  | clear => exact h.chained.clear

theorem Holds.calls (unique : behavior ≠ .allowDuplicateKeys) (h : Holds hashF behavior t m)
    (history : List (Call Index Value)) :
    Holds hashF behavior (t.calls history) (history.foldl (mapCall behavior) m) := by
  induction history generalizing t m with
  | nil => exact h
  | cons c history ih => exact ih (h.call unique c)

/-- After any history of a table that rejects or updates duplicate keys: `lookup` reads
the map, `numElems` is the number of its keys, and every bucket is in the chain of its
hash value. -/
theorem history_refines_map (hashF : Index → Nat) {behavior : DuplicateKeyBehavior}
    (unique : behavior ≠ .allowDuplicateKeys) (history : List (Call Index Value)) :
    (∀ k, ((create hashF behavior).calls history).lookup k =
      history.foldl (mapCall behavior) (fun _ => none) k) ∧
    (∃ keys : Finset Index,
      (∀ k, k ∈ keys ↔ (history.foldl (mapCall behavior) (fun _ => none) k).isSome) ∧
        ((create hashF behavior).calls history).numElems = keys.card) ∧
    ∀ i, ∀ b ∈ ((create hashF behavior).calls history).ht i,
      hashF b.index % ((create hashF behavior).calls history).tableSize = i := by
  have holds : Holds hashF behavior (create hashF behavior) (fun _ => (none : Option Value)) :=
    ⟨.create hashF behavior, rfl, rfl, lookup_create hashF behavior⟩
  have reached := holds.calls unique history
  generalize (create hashF behavior).calls history = t at reached ⊢
  refine ⟨reached.found, ⟨(t.buckets.map HashBucket.index).toFinset, fun k => ?_, ?_⟩, ?_⟩
  · rw [← reached.found, Option.isSome_iff_exists, List.mem_toFinset, List.mem_map]
    constructor
    · rintro ⟨b, member, same⟩
      exact ⟨b.value, reached.chained.lookup_eq_some_iff.mpr ⟨b, member, same, rfl⟩⟩
    · rintro ⟨value, found⟩
      obtain ⟨b, member, same, -⟩ := reached.chained.lookup_eq_some_iff.mp found
      exact ⟨b, member, same⟩
  · rw [List.toFinset_card_of_nodup reached.chained.distinct, List.length_map]
    exact reached.chained.count
  · intro i b member
    rw [← reached.hash]
    exact reached.chained.home i b member

theorem history_refines_map_reject :
    DuplicateKeyBehavior.rejectDuplicateKeys ≠ .allowDuplicateKeys ∧
    (∀ k, ((create id .rejectDuplicateKeys).calls [.insert 1 'a', .insert 1 'b']).lookup k =
      [Call.insert 1 'a', .insert 1 'b'].foldl (mapCall .rejectDuplicateKeys)
        (fun _ => none) k) :=
  ⟨by decide, (history_refines_map id (by decide) _).1⟩

/-! ## Duplicate keys: a stack of values for each key -/

def valuesOf (t : HashTable Index Value) (k : Index) : List Value :=
  ((t.ht (t.slot k)).filter fun b => b.index = k).map HashBucket.value

/-- What `insert` and `remove` do to the values of the keys, latest first. -/
def stackCall (s : Index → List Value) : Call Index Value → Index → List Value
  | .insert index value => Function.update s index (value :: s index)
  | .lookup _ => s
  | .remove index => Function.update s index (s index).tail
  | .clear => fun _ => []

/-- The table is not grown while a key has more than one value. -/
def GrowsDistinct (t : HashTable Index Value) : Call Index Value → Prop
  | .insert index value =>
    (t.pushItem index value).needsResizing = true →
      ((t.pushItem index value).buckets.map HashBucket.index).Nodup
  | _ => True

/-- A table that allows duplicate keys and the values inserted under each key and not
removed, latest first. -/
structure Stacked (t : HashTable Index Value) (s : Index → List Value) : Prop where
  size_pos : 0 < t.tableSize
  home : ∀ i, ∀ b ∈ t.ht i, t.slot b.index = i
  count : t.numElems = t.buckets.length
  policy : t.duplicateKeyBehavior = .allowDuplicateKeys
  values : ∀ k, t.valuesOf k = s k

theorem filter_chain_ne (home : ∀ i, ∀ b ∈ t.ht i, t.slot b.index = i)
    {i : Nat} {k : Index} (other : i ≠ t.slot k) :
    ((t.ht i).filter fun b => b.index = k) = [] := by
  refine List.filter_eq_nil_iff.mpr fun b member => ?_
  rw [decide_eq_true_eq]
  rintro rfl
  exact other (home i b member).symm

theorem filter_buckets (pos : 0 < t.tableSize)
    (home : ∀ i, ∀ b ∈ t.ht i, t.slot b.index = i) (k : Index) :
    (t.buckets.filter fun b => b.index = k) = (t.ht (t.slot k)).filter fun b => b.index = k := by
  have upTo : ∀ n, ((List.range n).flatMap t.ht).filter (fun b => b.index = k) =
      if t.slot k < n then (t.ht (t.slot k)).filter (fun b => b.index = k) else [] := by
    intro n
    induction n with
    | zero => rfl
    | succ n ih =>
      rw [List.range_succ, List.flatMap_append, List.flatMap_singleton, List.filter_append, ih]
      by_cases here : n = t.slot k
      · rw [here, if_neg (lt_irrefl _), if_pos (Nat.lt_succ_self _), List.nil_append]
      · rw [filter_chain_ne home here, List.append_nil]
        grind
  exact (upTo t.tableSize).trans (if_pos (slot_lt pos k))

theorem filter_relink (hashfcn : Index → Nat) (n : Nat) (l : List (HashBucket Index Value))
    (f : Nat → List (HashBucket Index Value)) (k : Index) :
    (l.foldl (relink hashfcn n) f (hashfcn k % n)).filter (fun b => b.index = k) =
      (l.filter fun b => b.index = k).reverse ++
        (f (hashfcn k % n)).filter fun b => b.index = k := by
  induction l generalizing f with
  | nil => rfl
  | cons b l ih =>
    rw [List.foldl_cons, ih]
    by_cases mine : b.index = k
    · simp [relink, mine]
    · by_cases here : hashfcn k % n = hashfcn b.index % n
      · simp [relink, here, mine]
      · simp [relink, Function.update_of_ne here, mine]

/-- `resize_hash_table` turns the values of every key over. -/
theorem valuesOf_resizeHashTable (pos : 0 < t.tableSize)
    (home : ∀ i, ∀ b ∈ t.ht i, t.slot b.index = i) (k : Index) :
    t.resizeHashTable.valuesOf k = (t.valuesOf k).reverse := by
  have turned := filter_relink t.hashfcn ((t.tableSize + 1) * 2 - 1) t.buckets (fun _ => []) k
  rw [filter_buckets pos home, List.filter_nil, List.append_nil] at turned
  rw [valuesOf, valuesOf, ← List.map_reverse, ← turned]
  rfl

theorem valuesOf_pushItem (t : HashTable Index Value) (index : Index) (value : Value) (k : Index) :
    (t.pushItem index value).valuesOf k =
      if k = index then value :: t.valuesOf k else t.valuesOf k := by
  have slots : (t.pushItem index value).slot k = t.slot k := rfl
  rw [valuesOf, slots, pushItem]
  by_cases here : t.slot k = t.slot index
  · by_cases mine : index = k
    · simp [valuesOf, mine]
    · simp [valuesOf, here, mine, Ne.symm mine]
  · have other : k ≠ index := fun same => here (congrArg t.slot same)
    simp [valuesOf, Function.update_of_ne here, other]

variable {s : Index → List Value}

theorem Stacked.pushItem (h : Stacked t s) (index : Index) (value : Value) :
    Stacked (t.pushItem index value) (stackCall s (.insert index value)) := by
  have perm : (t.pushItem index value).buckets.Perm (⟨t.nextAddr, index, value⟩ :: t.buckets) := by
    refine flatMap_perm_cons (slot_lt h.size_pos index) ?_ ?_
    · intro i other
      exact Function.update_of_ne other _ _
    · simp only [HashTable.pushItem, Function.update_self]
      exact .refl _
  refine ⟨h.size_pos, ?_, ?_, h.policy, ?_⟩
  · intro i b member
    change t.slot b.index = i
    simp only [HashTable.pushItem, Function.update_apply] at member
    split at member
    · next here =>
        rcases List.mem_cons.mp member with rfl | old
        · exact here.symm
        · exact here ▸ h.home _ b old
    · exact h.home i b member
  · rw [perm.length_eq, List.length_cons, ← h.count]
    rfl
  · intro k
    rw [valuesOf_pushItem, h.values, stackCall, Function.update_apply]
    grind

/-- Growing a table without duplicates leaves every key its value. -/
theorem Stacked.resizeHashTable
    (h : Stacked t s) (distinct : (t.buckets.map HashBucket.index).Nodup) :
    Stacked t.resizeHashTable s := by
  refine ⟨?_, relink_home t.hashfcn _ t.buckets (fun _ => []) (by simp),
    h.count.trans resizeHashTable_perm.length_eq.symm, h.policy, fun k => ?_⟩
  · simp only [HashTable.resizeHashTable]
    omega
  · rw [valuesOf_resizeHashTable h.size_pos h.home, ← h.values k]
    have single : (t.valuesOf k).length ≤ 1 := by
      rw [valuesOf, List.length_map, ← filter_buckets h.size_pos h.home,
        ← List.countP_eq_length_filter]
      have once := List.nodup_iff_count_le_one.mp distinct k
      rw [List.count, List.countP_map] at once
      refine le_of_eq_of_le (List.countP_congr fun b _ => ?_) once
      simp
    rcases values : t.valuesOf k with _ | ⟨value, _ | ⟨other, rest⟩⟩
    · rfl
    · rfl
    · simp [values] at single

theorem filter_unlink {index : Index} {prev p : Option Nat}
    {chain rest : List (HashBucket Index Value)} {b : HashBucket Index Value}
    (found : unlink index prev chain = some (b, p, rest)) (k : Index) :
    (rest.filter fun c => c.index = k) =
      if k = index then (chain.filter fun c => c.index = k).tail
      else chain.filter fun c => c.index = k := by
  induction chain generalizing prev rest with
  | nil => cases found
  | cons c chain ih =>
    rw [unlink] at found
    split at found
    · next here =>
        cases found
        grind
    · obtain ⟨⟨b', p', rest'⟩, later, same⟩ := Option.map_eq_some_iff.mp found
      cases same
      have kept := ih later
      grind

theorem Stacked.remove (h : Stacked t s)
    (index : Index) : Stacked (t.remove index).2 (stackCall s (.remove index)) := by
  cases found : unlink index none (t.ht (t.slot index)) with
  | none =>
    simp only [HashTable.remove, found]
    refine ⟨h.size_pos, h.home, h.count, h.policy, fun k => ?_⟩
    have absent : s index = [] := by
      rw [← h.values, valuesOf, List.map_eq_nil_iff, List.filter_eq_nil_iff]
      exact fun b member => by simpa using unlink_eq_none found b member
    rw [h.values, stackCall, Function.update_apply]
    grind
  | some result =>
    obtain ⟨b, prev, rest⟩ := result
    obtain ⟨size, slots, chains, counted, perm⟩ := remove_unlinked h.size_pos found
    have policy := remove_duplicateKeyBehavior t index
    generalize (t.remove index).2 = t' at *
    refine ⟨size ▸ h.size_pos, ?_, ?_, ?_, ?_⟩
    · intro i c member
      rw [slots]
      rw [chains, Function.update_apply] at member
      split at member
      · next here =>
          rw [here]
          exact h.home _ c ((unlink_perm found).2.mem_iff.mpr (List.mem_cons_of_mem b member))
      · exact h.home i c member
    · rw [counted, h.count, perm.length_eq]
      rfl
    · exact policy.trans h.policy
    · intro k
      rw [stackCall, Function.update_apply, ← h.values, ← h.values, valuesOf, slots, chains,
        Function.update_apply]
      by_cases here : t.slot k = t.slot index
      · rw [if_pos here, filter_unlink found, valuesOf, valuesOf, here]
        split
        · next mine => rw [mine, List.map_tail]
        · rfl
      · rw [if_neg here, if_neg fun mine => here (congrArg t.slot mine)]
        rfl

theorem Stacked.call (h : Stacked t s)
    {c : Call Index Value} (grows : t.GrowsDistinct c) : Stacked (t.call c) (stackCall s c) := by
  cases c with
  | insert index value =>
    have added : t.call (.insert index value) = t.addItem index value := by
      simp only [HashTable.call, insert, h.policy]
    rw [added]
    simp only [addItem]
    split
    · next full => exact (h.pushItem index value).resizeHashTable (grows full)
    · exact h.pushItem index value
  | lookup index => exact h
  | remove index => exact h.remove index
  | clear =>
    refine ⟨h.size_pos, fun _ _ member => absurd member List.not_mem_nil, ?_, h.policy,
      fun k => rfl⟩
    exact (List.length_eq_zero_iff.mpr (List.flatMap_eq_nil_iff.mpr fun _ _ => rfl)).symm

theorem Stacked.lookup (h : Stacked t s) (k : Index) : t.lookup k = (s k).head? := by
  rw [← h.values, valuesOf, List.head?_map, List.head?_filter, HashTable.lookup, findIn]
  split
  · next none =>
      have empty : t.ht (t.slot k) = [] := by
        have all := List.length_eq_zero_iff.mp (h.count.symm.trans none)
        exact List.flatMap_eq_nil_iff.mp all _ (List.mem_range.mpr (slot_lt h.size_pos k))
      rw [empty]
      rfl
  · rfl

/-- Every call of the history that grows the table finds its keys distinct. -/
def GrowsAllDistinct (t : HashTable Index Value) : List (Call Index Value) → Prop
  | [] => True
  | c :: history => t.GrowsDistinct c ∧ (t.call c).GrowsAllDistinct history

theorem Stacked.calls (h : Stacked t s)
    {history : List (Call Index Value)} (grows : t.GrowsAllDistinct history) :
    Stacked (t.calls history) (history.foldl stackCall s) := by
  induction history generalizing t s with
  | nil => exact h
  | cons c history ih => exact ih (h.call grows.1) grows.2

/-- A table that allows duplicate keys and never grows while it holds one returns for each
key the value inserted last and not removed. -/
theorem latest_value_found (hashF : Index → Nat) (history : List (Call Index Value))
    (grows : (create hashF .allowDuplicateKeys).GrowsAllDistinct history) (k : Index) :
    ((create hashF .allowDuplicateKeys).calls history).lookup k =
      (history.foldl stackCall (fun _ => []) k).head? := by
  have empty : Stacked (create hashF .allowDuplicateKeys) (fun _ => ([] : List Value)) := by
    refine ⟨Nat.succ_pos 6, fun _ _ member => absurd member List.not_mem_nil, ?_, rfl, fun k => rfl⟩
    exact (List.length_eq_zero_iff.mpr (List.flatMap_eq_nil_iff.mpr fun _ _ => rfl)).symm
  exact (empty.calls grows).lookup k

theorem latest_value_found_twice :
    (create id .allowDuplicateKeys).GrowsAllDistinct [.insert 1 'a', .insert 1 'b'] ∧
    ((create id .allowDuplicateKeys).calls [.insert 1 'a', .insert 1 'b']).lookup 1 =
      ([Call.insert 1 'a', .insert 1 'b'].foldl stackCall (fun _ => []) 1).head? := by
  have grows : (create id .allowDuplicateKeys).GrowsAllDistinct
      [Call.insert 1 'a', .insert 1 'b'] := by
    simp [GrowsAllDistinct, GrowsDistinct, needsResizing, create, pushItem, call, insert, addItem]
  exact ⟨grows, latest_value_found id _ grows 1⟩

/-- The sixth insertion grows the table, and the value inserted first under key 0 comes up. -/
theorem growth_turns_duplicates_over :
    ((create id .allowDuplicateKeys).calls [.insert 0 'a', .insert 0 'b', .insert 1 'c',
      .insert 2 'd', .insert 3 'e', .insert 4 'f']).lookup 0 = some 'a' ∧
    ([Call.insert 0 'a', .insert 0 'b', .insert 1 'c', .insert 2 'd', .insert 3 'e',
      .insert 4 'f'].foldl stackCall (fun _ => []) 0).head? = some 'b' := by
  decide

end Condor.Utils.HashTable
