import Mathlib.Data.List.Nodup
import Mathlib.Logic.Function.Basic

/-! `HashTable.h`: an array of chains, a user supplied hash function and three policies for a key
that is inserted twice. When the load reaches `maxLoadFactor` every bucket is relinked, chain by
chain, into a table of size `2 * (tableSize + 1) - 1`. -/
namespace Condor.Utils

inductive DuplicateKeyBehavior where
  | allowDuplicateKeys
  | rejectDuplicateKeys
  | updateDuplicateKeys
  deriving DecidableEq, Repr

/-- `HashBucket`: `addr` stands for the address of the bucket, by which the
iterator refers to it. The `next` pointer is the position in the chain. -/
structure HashBucket (Index Value : Type*) where
  addr : Nat
  index : Index
  value : Value
  deriving Repr

structure HashTable (Index Value : Type*) where
  tableSize : Nat
  ht : Nat → List (HashBucket Index Value)
  hashfcn : Index → Nat
  duplicateKeyBehavior : DuplicateKeyBehavior
  currentBucket : Int
  currentItem : Option Nat
  numElems : Nat
  /-- The next address `new HashBucket` hands out. -/
  nextAddr : Nat

namespace HashTable
variable {Index Value : Type*}

def create (hashF : Index → Nat) (behavior : DuplicateKeyBehavior) : HashTable Index Value where
  tableSize := 7
  ht := fun _ => []
  hashfcn := hashF
  duplicateKeyBehavior := behavior
  currentBucket := -1
  currentItem := none
  numElems := 0
  nextAddr := 0

/-- The chain a key belongs to: `hashfcn(index) % tableSize`. -/
def slot (t : HashTable Index Value) (index : Index) : Nat := t.hashfcn index % t.tableSize

/-- `needs_resizing`: `numElems / tableSize >= 0.8`, exactly. -/
def needsResizing (t : HashTable Index Value) : Bool := decide (4 * t.tableSize ≤ 5 * t.numElems)

/-- The loop body of `resize_hash_table`: relink one bucket at the head of its new chain. -/
def relink (hashfcn : Index → Nat) (newsize : Nat) (htcopy : Nat → List (HashBucket Index Value))
    (cur : HashBucket Index Value) : Nat → List (HashBucket Index Value) :=
  Function.update htcopy (hashfcn cur.index % newsize)
    (cur :: htcopy (hashfcn cur.index % newsize))

def resizeHashTable (t : HashTable Index Value) : HashTable Index Value :=
  let newsize := (t.tableSize + 1) * 2 - 1
  { t with
    ht := ((List.range t.tableSize).flatMap t.ht).foldl (relink t.hashfcn newsize) (fun _ => [])
    currentItem := none
    currentBucket := -1
    tableSize := newsize }

/-- The new bucket of `addItem` at the head of its chain. -/
def pushItem (t : HashTable Index Value) (index : Index) (value : Value) : HashTable Index Value :=
  let idx := t.slot index
  { t with
    ht := Function.update t.ht idx (⟨t.nextAddr, index, value⟩ :: t.ht idx)
    numElems := t.numElems + 1
    nextAddr := t.nextAddr + 1 }

/-- `addItem`: push a bucket without looking for the key, then grow if needed. -/
def addItem (t : HashTable Index Value) (index : Index) (value : Value) : HashTable Index Value :=
  let t' := t.pushItem index value
  if t'.needsResizing then t'.resizeHashTable else t'

def buckets (t : HashTable Index Value) : List (HashBucket Index Value) :=
  (List.range t.tableSize).flatMap t.ht

/-- The representation invariant of a table whose keys are distinct: each bucket
sits in the chain of its hash value, and the counter counts the buckets. -/
structure Chained (t : HashTable Index Value) : Prop where
  size_pos : 0 < t.tableSize
  home : ∀ i, ∀ b ∈ t.ht i, t.slot b.index = i
  count : t.numElems = t.buckets.length
  distinct : (t.buckets.map HashBucket.index).Nodup

variable {t : HashTable Index Value}

theorem slot_lt (pos : 0 < t.tableSize) (index : Index) :
    t.slot index < t.tableSize := Nat.mod_lt _ pos

variable {b : HashBucket Index Value} {prev : Option Nat}
variable {n : Nat} {value : Value} {rest : List (HashBucket Index Value)}

theorem flatMap_perm_cons {f g : Nat → List (HashBucket Index Value)} {idx : Nat} (hidx : idx < n)
    (same : ∀ i, i ≠ idx → g i = f i) (chain : (g idx).Perm (b :: f idx)) :
    ((List.range n).flatMap g).Perm (b :: (List.range n).flatMap f) := by
  induction n with
  | zero => exact absurd hidx (Nat.not_lt_zero idx)
  | succ n ih =>
    simp only [List.range_succ, List.flatMap_append, List.flatMap_singleton]
    rcases Nat.lt_succ_iff_lt_or_eq.mp hidx with below | rfl
    · rw [same n (Nat.ne_of_gt below)]
      exact (ih below).append_right _
    · have prefix_same : (List.range idx).flatMap g = (List.range idx).flatMap f :=
        List.flatMap_congr fun i hi => same i (Nat.ne_of_lt (List.mem_range.mp hi))
      rw [prefix_same]
      exact (chain.append_left _).trans List.perm_middle

variable (hashfcn : Index → Nat)

theorem relink_perm (pos : 0 < n) (l : List (HashBucket Index Value))
    (f : Nat → List (HashBucket Index Value)) :
    ((List.range n).flatMap (l.foldl (relink hashfcn n) f)).Perm
      (l ++ (List.range n).flatMap f) := by
  induction l generalizing f with
  | nil => exact .refl _
  | cons b l ih =>
    have one : ((List.range n).flatMap (relink hashfcn n f b)).Perm
        (b :: (List.range n).flatMap f) := by
      refine flatMap_perm_cons (Nat.mod_lt (hashfcn b.index) pos) ?_ ?_
      · intro i hi
        exact Function.update_of_ne hi _ _
      · simp only [relink, Function.update_self]
        exact .refl _
    exact (ih (relink hashfcn n f b)).trans ((one.append_left l).trans List.perm_middle)

theorem relink_home (n : Nat) (l : List (HashBucket Index Value))
    (f : Nat → List (HashBucket Index Value)) (home : ∀ i, ∀ b ∈ f i, hashfcn b.index % n = i) :
    ∀ i, ∀ b ∈ l.foldl (relink hashfcn n) f i, hashfcn b.index % n = i := by
  induction l generalizing f with
  | nil => exact home
  | cons b l ih =>
    refine ih (relink hashfcn n f b) ?_
    intro i c hc
    by_cases here : i = hashfcn b.index % n
    · subst here
      simp only [relink, Function.update_self, List.mem_cons] at hc
      rcases hc with rfl | old
      · rfl
      · exact home _ c old
    · rw [relink, Function.update_of_ne here] at hc
      exact home i c hc

theorem resizeHashTable_perm : t.resizeHashTable.buckets.Perm t.buckets := by
  have moved := relink_perm t.hashfcn (n := (t.tableSize + 1) * 2 - 1) (by omega) t.buckets
    (fun _ => [])
  simpa only [buckets, resizeHashTable, List.flatMap_eq_nil_iff.mpr fun _ _ => rfl,
    List.append_nil] using moved

theorem Chained.resizeHashTable (h : t.Chained) : t.resizeHashTable.Chained where
  size_pos := by simp only [HashTable.resizeHashTable]; omega
  home := relink_home t.hashfcn _ t.buckets (fun _ => []) (by simp)
  count := h.count.trans resizeHashTable_perm.length_eq.symm
  distinct := ((resizeHashTable_perm.map HashBucket.index).nodup_iff).mpr h.distinct

theorem Chained.mem_buckets (h : t.Chained) : b ∈ t.buckets ↔ b ∈ t.ht (t.slot b.index) := by
  simp only [buckets, List.mem_flatMap, List.mem_range]
  constructor
  · rintro ⟨i, -, hb⟩
    rwa [h.home i b hb]
  · intro hb
    exact ⟨t.slot b.index, slot_lt h.size_pos b.index, hb⟩

theorem Chained.pushItem_perm (h : t.Chained) (index : Index) (value : Value) :
    (t.pushItem index value).buckets.Perm (⟨t.nextAddr, index, value⟩ :: t.buckets) := by
  refine flatMap_perm_cons (slot_lt h.size_pos index) ?_ ?_
  · intro i hi
    exact Function.update_of_ne hi _ _
  · simp only [pushItem, Function.update_self]
    exact .refl _

variable {index : Index}

theorem Chained.pushItem (h : t.Chained)
    (fresh : ∀ b ∈ t.buckets, b.index ≠ index) (value : Value) :
    (t.pushItem index value).Chained := by
  have perm := h.pushItem_perm index value
  refine ⟨h.size_pos, ?_, ?_, ?_⟩
  · intro i b hb
    change t.slot b.index = i
    by_cases here : i = t.slot index
    · subst here
      simp only [HashTable.pushItem, Function.update_self, List.mem_cons] at hb
      rcases hb with rfl | old
      · rfl
      · exact h.home _ b old
    · simp only [HashTable.pushItem, Function.update_of_ne here] at hb
      exact h.home i b hb
  · rw [perm.length_eq, List.length_cons, ← h.count]
    rfl
  · rw [(perm.map HashBucket.index).nodup_iff, List.map_cons, List.nodup_cons]
    refine ⟨?_, h.distinct⟩
    intro member
    obtain ⟨b, hb, same⟩ := List.mem_map.mp member
    exact fresh b hb same

theorem Chained.addItem_perm (h : t.Chained) (index : Index) (value : Value) :
    (t.addItem index value).buckets.Perm (⟨t.nextAddr, index, value⟩ :: t.buckets) := by
  simp only [addItem]
  split
  · exact resizeHashTable_perm.trans (h.pushItem_perm index value)
  · exact h.pushItem_perm index value

theorem Chained.addItem (h : t.Chained) (fresh : ∀ b ∈ t.buckets, b.index ≠ index) (value : Value) :
    (t.addItem index value).Chained := by
  simp only [HashTable.addItem]
  split
  · exact (h.pushItem fresh value).resizeHashTable
  · exact h.pushItem fresh value

theorem addItem_duplicateKeyBehavior (t : HashTable Index Value) (index : Index) (value : Value) :
    (t.addItem index value).duplicateKeyBehavior = t.duplicateKeyBehavior := by
  simp only [addItem]
  split <;> rfl

theorem Chained.create (hashF : Index → Nat) (behavior : DuplicateKeyBehavior) :
    (HashTable.create hashF behavior : HashTable Index Value).Chained where
  size_pos := Nat.succ_pos 6
  home := by simp [HashTable.create]
  count := by simp [HashTable.create, buckets]
  distinct := by
    have empty : (HashTable.create hashF behavior : HashTable Index Value).buckets = [] :=
      List.flatMap_eq_nil_iff.mpr fun _ _ => rfl
    rw [empty]
    exact List.nodup_nil

/-- The iterator after the bucket at address `addr` has been unlinked; `prev` is
its predecessor in the chain, or `none` when it was the head. -/
def fixIterator (t : HashTable Index Value) (addr : Nat) (prev : Option Nat) :
    HashTable Index Value :=
  if t.currentItem = some addr then
    match prev with
    | none => { t with currentItem := none, currentBucket := t.currentBucket - 1 }
    | some p => { t with currentItem := some p }
  else t

@[simp] theorem fixIterator_tableSize (t : HashTable Index Value) (addr : Nat)
    (prev : Option Nat) : (t.fixIterator addr prev).tableSize = t.tableSize := by
  unfold fixIterator
  split
  · cases prev <;> rfl
  · rfl

@[simp] theorem fixIterator_hashfcn (t : HashTable Index Value) (addr : Nat)
    (prev : Option Nat) : (t.fixIterator addr prev).hashfcn = t.hashfcn := by
  unfold fixIterator
  split
  · cases prev <;> rfl
  · rfl

@[simp] theorem fixIterator_duplicateKeyBehavior (t : HashTable Index Value) (addr : Nat)
    (prev : Option Nat) :
    (t.fixIterator addr prev).duplicateKeyBehavior = t.duplicateKeyBehavior := by
  unfold fixIterator
  split
  · cases prev <;> rfl
  · rfl

variable [DecidableEq Index]

/-- The first bucket of a chain with the given key, as every scan of a chain finds it. -/
def findIn (chain : List (HashBucket Index Value)) (index : Index) :
    Option (HashBucket Index Value) :=
  chain.find? (fun b => b.index = index)

/-- The in-place assignment `bucket->value = value` at the first match. -/
def updateIn (index : Index) (value : Value) :
    List (HashBucket Index Value) → List (HashBucket Index Value)
  | [] => []
  | b :: rest =>
    if b.index = index then { b with value := value } :: rest else b :: updateIn index value rest

/-- `insert`: the return code is `false` for the source's `-1`. -/
def insert (t : HashTable Index Value) (index : Index) (value : Value) :
    Bool × HashTable Index Value :=
  let idx := t.slot index
  match t.duplicateKeyBehavior with
  | .rejectDuplicateKeys =>
    if (findIn (t.ht idx) index).isSome then (false, t) else (true, t.addItem index value)
  | .updateDuplicateKeys =>
    if (findIn (t.ht idx) index).isSome then
      (true, { t with ht := Function.update t.ht idx (updateIn index value (t.ht idx)) })
    else (true, t.addItem index value)
  | .allowDuplicateKeys => (true, t.addItem index value)

def lookup (t : HashTable Index Value) (index : Index) : Option Value :=
  if t.numElems = 0 then none else (findIn (t.ht (t.slot index)) index).map HashBucket.value

/-- The scan of `remove`: the unlinked bucket, its predecessor and the chain without it. -/
def unlink (index : Index) : Option Nat → List (HashBucket Index Value) →
    Option (HashBucket Index Value × Option Nat × List (HashBucket Index Value))
  | _, [] => none
  | prev, b :: rest =>
    if b.index = index then some (b, prev, rest)
    else (unlink index (some b.addr) rest).map fun (found, p, rest') => (found, p, b :: rest')

def remove (t : HashTable Index Value) (index : Index) : Bool × HashTable Index Value :=
  let idx := t.slot index
  match unlink index none (t.ht idx) with
  | none => (false, t)
  | some (b, prev, rest) =>
    let t' := t.fixIterator b.addr prev
    (true, { t' with ht := Function.update t.ht idx rest, numElems := t.numElems - 1 })

/-- `clear`: the iterator is left as it was. -/
def clear (t : HashTable Index Value) : HashTable Index Value :=
  { t with ht := fun _ => [], numElems := 0 }

variable {chain : List (HashBucket Index Value)}

theorem findIn_eq_none_iff : findIn chain index = none ↔ ∀ b ∈ chain, b.index ≠ index := by
  simp [findIn]

theorem mem_of_findIn (h : findIn chain index = some b) : b ∈ chain ∧ b.index = index :=
  ⟨List.mem_of_find?_eq_some h, by simpa using List.find?_some h⟩

theorem Chained.lookup_eq_some_iff (h : t.Chained) :
    t.lookup index = some value ↔ ∃ b ∈ t.buckets, b.index = index ∧ b.value = value := by
  constructor
  · intro found
    simp only [lookup] at found
    split at found
    · cases found
    · obtain ⟨b, hb, rfl⟩ := Option.map_eq_some_iff.mp found
      obtain ⟨member, rfl⟩ := mem_of_findIn hb
      exact ⟨b, h.mem_buckets.mpr member, rfl, rfl⟩
  · rintro ⟨b, member, rfl, rfl⟩
    have nonempty : t.numElems ≠ 0 := by
      rw [h.count]
      exact Nat.ne_of_gt (List.length_pos_of_mem member)
    rw [lookup, if_neg nonempty]
    cases found : findIn (t.ht (t.slot b.index)) b.index with
    | none => exact absurd rfl (findIn_eq_none_iff.mp found b (h.mem_buckets.mp member))
    | some c =>
      obtain ⟨hc, same⟩ := mem_of_findIn found
      have cMember : c ∈ t.buckets := h.mem_buckets.mpr (by rwa [same])
      have : c = b := List.inj_on_of_nodup_map h.distinct cMember member same
      rw [this]
      rfl

/-- A key is absent from its chain exactly when it is absent from the table. -/
theorem Chained.findIn_eq_none_iff (h : t.Chained) :
    findIn (t.ht (t.slot index)) index = none ↔ ∀ b ∈ t.buckets, b.index ≠ index := by
  rw [HashTable.findIn_eq_none_iff]
  constructor
  · rintro absent b hb rfl
    exact absent b (h.mem_buckets.mp hb) rfl
  · rintro absent b hb rfl
    exact absent b (h.mem_buckets.mpr hb) rfl

theorem Chained.lookup_eq_none_iff (h : t.Chained) :
    t.lookup index = none ↔ ∀ b ∈ t.buckets, b.index ≠ index := by
  constructor
  · rintro missing b hb rfl
    have found := h.lookup_eq_some_iff.mpr ⟨b, hb, rfl, rfl⟩
    rw [missing] at found
    cases found
  · intro absent
    cases found : t.lookup index with
    | none => rfl
    | some value =>
      obtain ⟨b, hb, same, -⟩ := h.lookup_eq_some_iff.mp found
      exact absurd same (absent b hb)

/-- Two chained tables with the same buckets up to order answer every lookup alike. -/
theorem Chained.lookup_congr {t t' : HashTable Index Value} (h : t.Chained) (h' : t'.Chained)
    (same : ∀ b, b.index = index → (b ∈ t.buckets ↔ b ∈ t'.buckets)) :
    t.lookup index = t'.lookup index := by
  refine Option.ext fun value => ?_
  rw [h.lookup_eq_some_iff, h'.lookup_eq_some_iff]
  constructor
  · rintro ⟨b, hb, rfl, rfl⟩
    exact ⟨b, (same b rfl).mp hb, rfl, rfl⟩
  · rintro ⟨b, hb, rfl, rfl⟩
    exact ⟨b, (same b rfl).mpr hb, rfl, rfl⟩

/-- A key that is not in the table is inserted under every policy. -/
theorem Chained.insert_absent (h : t.Chained) (absent : t.lookup index = none) (value : Value) :
    (t.insert index value).1 = true ∧ (t.insert index value).2.Chained ∧
      ∀ k, (t.insert index value).2.lookup k =
        if k = index then some value else t.lookup k := by
  have fresh := h.lookup_eq_none_iff.mp absent
  have added := h.addItem fresh value
  have perm := h.addItem_perm index value
  have inserted : t.insert index value = (true, t.addItem index value) := by
    simp only [insert, h.findIn_eq_none_iff.mpr fresh]
    split <;> simp
  rw [inserted]
  refine ⟨rfl, added, fun k => ?_⟩
  split
  · next here =>
      exact added.lookup_eq_some_iff.mpr
        ⟨⟨t.nextAddr, index, value⟩, perm.mem_iff.mpr List.mem_cons_self, here.symm, rfl⟩
  · next other =>
      refine (h.lookup_congr added fun b hb => ?_).symm
      rw [perm.mem_iff, List.mem_cons]
      constructor
      · exact Or.inr
      · rintro (rfl | old)
        · exact absurd hb.symm other
        · exact old

theorem Chained.isSome_findIn (h : t.Chained) (present : t.lookup index = some value) :
    (findIn (t.ht (t.slot index)) index).isSome = true := by
  obtain ⟨b, member, same, -⟩ := h.lookup_eq_some_iff.mp present
  rw [Option.isSome_iff_ne_none]
  intro none
  exact h.findIn_eq_none_iff.mp none b member same

theorem Chained.insert_reject (h : t.Chained)
    (reject : t.duplicateKeyBehavior = .rejectDuplicateKeys) (index : Index) (value : Value) :
    (t.insert index value).2.Chained ∧
      ∀ k, (t.insert index value).2.lookup k =
        if k = index then some ((t.lookup index).getD value) else t.lookup k := by
  cases present : t.lookup index with
  | none => exact (h.insert_absent present value).2
  | some old =>
    simp only [insert, reject, h.isSome_findIn present, if_true, Option.getD_some]
    refine ⟨h, fun k => ?_⟩
    split
    · next here => rw [here, present]
    · rfl

theorem insert_duplicateKeyBehavior (t : HashTable Index Value) (index : Index) (value : Value) :
    (t.insert index value).2.duplicateKeyBehavior = t.duplicateKeyBehavior := by
  simp only [insert]
  split
  · split
    · rfl
    · exact addItem_duplicateKeyBehavior t index value
  · split
    · rfl
    · exact addItem_duplicateKeyBehavior t index value
  · exact addItem_duplicateKeyBehavior t index value

theorem remove_duplicateKeyBehavior (t : HashTable Index Value) (index : Index) :
    (t.remove index).2.duplicateKeyBehavior = t.duplicateKeyBehavior := by
  simp only [HashTable.remove]
  split
  · rfl
  · exact fixIterator_duplicateKeyBehavior t _ _

theorem unlink_perm {p : Option Nat} (h : unlink index prev chain = some (b, p, rest)) :
    b.index = index ∧ chain.Perm (b :: rest) := by
  induction chain generalizing prev rest with
  | nil => cases h
  | cons c chain ih =>
    simp only [unlink] at h
    split at h
    · next here =>
        cases h
        exact ⟨here, .refl _⟩
    · obtain ⟨⟨b', p', rest'⟩, found, same⟩ := Option.map_eq_some_iff.mp h
      cases same
      obtain ⟨key, perm⟩ := ih found
      exact ⟨key, (perm.cons c).trans (.swap _ c rest')⟩

theorem unlink_eq_none (h : unlink index prev chain = none) : ∀ b ∈ chain, b.index ≠ index := by
  induction chain generalizing prev with
  | nil => simp
  | cons c chain ih =>
    simp only [unlink] at h
    split at h
    · cases h
    · next other =>
        intro b hb
        rcases List.mem_cons.mp hb with rfl | later
        · exact other
        · exact ih (Option.map_eq_none_iff.mp h) b later

theorem Chained.lookup_of_unlink_none (h : t.Chained)
    (missing : unlink index none (t.ht (t.slot index)) = none) : t.lookup index = none :=
  h.lookup_eq_none_iff.mpr
    (h.findIn_eq_none_iff.mp (HashTable.findIn_eq_none_iff.mpr (unlink_eq_none missing)))

/-- What `remove` changes, apart from the iterator, when it finds the key. -/
theorem remove_unlinked (size_pos : 0 < t.tableSize)
    (found : unlink index none (t.ht (t.slot index)) = some (b, prev, rest)) :
    (t.remove index).2.tableSize = t.tableSize ∧ (∀ k, (t.remove index).2.slot k = t.slot k) ∧
      (t.remove index).2.ht = Function.update t.ht (t.slot index) rest ∧
      (t.remove index).2.numElems = t.numElems - 1 ∧
      t.buckets.Perm (b :: (t.remove index).2.buckets) := by
  have size : (t.remove index).2.tableSize = t.tableSize := by simp [HashTable.remove, found]
  have chains : (t.remove index).2.ht = Function.update t.ht (t.slot index) rest := by
    simp [HashTable.remove, found]
  have hash : (t.remove index).2.hashfcn = t.hashfcn := by simp [HashTable.remove, found]
  refine ⟨size, fun k => by rw [slot, slot, hash, size], chains,
    by simp [HashTable.remove, found], ?_⟩
  rw [buckets, buckets, size]
  refine flatMap_perm_cons (slot_lt size_pos index) ?_ ?_
  · intro i hi
    rw [chains, Function.update_of_ne hi]
  · rw [chains, Function.update_self]
    exact (unlink_perm found).2

/-- `remove` takes the key out and leaves every other key alone. -/
theorem Chained.remove (h : t.Chained) (index : Index) :
    (t.remove index).2.Chained ∧
      ∀ k, (t.remove index).2.lookup k = if k = index then none else t.lookup k := by
  cases found : unlink index none (t.ht (t.slot index)) with
  | none =>
    simp only [HashTable.remove, found]
    refine ⟨h, fun k => ?_⟩
    by_cases here : k = index
    · rw [if_pos here, here]
      exact h.lookup_of_unlink_none found
    · rw [if_neg here]
  | some result =>
    obtain ⟨b, prev, rest⟩ := result
    obtain ⟨key, chain⟩ := unlink_perm found
    obtain ⟨size, slots, chains, counted, perm⟩ := remove_unlinked h.size_pos found
    generalize (t.remove index).2 = t' at *
    have distinct := (perm.map HashBucket.index).nodup_iff.mp h.distinct
    rw [List.map_cons, List.nodup_cons] at distinct
    have smaller : t'.Chained := by
      refine ⟨size ▸ h.size_pos, ?_, ?_, distinct.2⟩
      · intro i c hc
        rw [slots]
        by_cases here : i = t.slot index
        · subst here
          rw [chains, Function.update_self] at hc
          exact h.home _ c (chain.mem_iff.mpr (List.mem_cons_of_mem b hc))
        · rw [chains, Function.update_of_ne here] at hc
          exact h.home i c hc
      · rw [counted, h.count, perm.length_eq]
        rfl
    refine ⟨smaller, fun k => ?_⟩
    split
    · next here =>
        subst here
        refine smaller.lookup_eq_none_iff.mpr fun c hc same => distinct.1 ?_
        exact List.mem_map.mpr ⟨c, hc, same.trans key.symm⟩
    · next other =>
        refine (h.lookup_congr smaller fun c hc => ?_).symm
        rw [perm.mem_iff, List.mem_cons]
        constructor
        · rintro (rfl | old)
          · exact absurd (hc.symm.trans key) other
          · exact old
        · exact Or.inr

theorem Chained.remove_found (h : t.Chained) (present : t.lookup index = some value) :
    (t.remove index).1 = true := by
  simp only [HashTable.remove]
  cases found : unlink index none (t.ht (t.slot index)) with
  | some result => rfl
  | none =>
    rw [h.lookup_of_unlink_none found] at present
    cases present

/-! ## The stored values

A table of pointers whose objects are stored in place. -/

/-- An assignment through the pointer that `lookup` returns. -/
def assign (t : HashTable Index Value) (index : Index) (value : Value) : HashTable Index Value :=
  { t with
    ht := Function.update t.ht (t.slot index) (updateIn index value (t.ht (t.slot index))) }

theorem updateIn_map_index (index : Index) (value : Value) (chain : List (HashBucket Index Value)) :
    (updateIn index value chain).map HashBucket.index = chain.map HashBucket.index := by
  induction chain with
  | nil => rfl
  | cons b chain ih =>
    rw [updateIn]
    split
    · rfl
    · rw [List.map_cons, List.map_cons, ih]

theorem findIn_updateIn (index : Index) (value : Value) (chain : List (HashBucket Index Value))
    (k : Index) :
    (findIn (updateIn index value chain) k).map HashBucket.value =
      if k = index then (findIn chain index).map fun _ => value
      else (findIn chain k).map HashBucket.value := by
  induction chain with
  | nil => simp [updateIn, findIn]
  | cons b chain ih =>
    simp only [findIn] at ih
    rw [updateIn]
    by_cases here : b.index = index
    · rw [if_pos here]
      by_cases same : k = index
      · simp [findIn, same, here]
      · simp [findIn, same, here, Ne.symm same]
    · rw [if_neg here]
      by_cases same : k = index
      · subst same
        simpa [findIn, here] using ih
      · rw [if_neg same] at ih
        by_cases this : b.index = k
        · simp [findIn, same, this]
        · simpa [findIn, same, this] using ih

theorem lookup_assign (t : HashTable Index Value) (index : Index) (value : Value) (k : Index) :
    (t.assign index value).lookup k =
      if k = index then (t.lookup index).map fun _ => value else t.lookup k := by
  have chain : findIn ((t.assign index value).ht (t.slot k)) k =
      if t.slot k = t.slot index then findIn (updateIn index value (t.ht (t.slot index))) k
      else findIn (t.ht (t.slot k)) k := by
    split
    · next here => simp only [here, assign, Function.update_self]
    · next other => simp only [assign, Function.update_of_ne other]
  change (if t.numElems = 0 then none
    else (findIn ((t.assign index value).ht (t.slot k)) k).map HashBucket.value) = _
  rw [chain, lookup, lookup]
  by_cases empty : t.numElems = 0
  · simp [empty]
  · simp only [empty, if_false]
    by_cases here : t.slot k = t.slot index
    · rw [if_pos here, findIn_updateIn, Option.map_map, here]
      rfl
    · have other : k ≠ index := by
        rintro rfl
        exact here rfl
      rw [if_neg here, if_neg other]

theorem Chained.assign (h : t.Chained) (index : Index) (value : Value) :
    (t.assign index value).Chained := by
  have indices : ∀ i, ((t.assign index value).ht i).map HashBucket.index =
      (t.ht i).map HashBucket.index := by
    intro i
    by_cases here : i = t.slot index
    · subst here
      simp only [HashTable.assign, Function.update_self, updateIn_map_index]
    · simp only [HashTable.assign, Function.update_of_ne here]
  have all : (t.assign index value).buckets.map HashBucket.index =
      t.buckets.map HashBucket.index := by
    simp only [buckets, List.map_flatMap]
    exact List.flatMap_congr fun i _ => indices i
  refine ⟨h.size_pos, ?_, ?_, all ▸ h.distinct⟩
  · intro i b hb
    have member : b.index ∈ (t.ht i).map HashBucket.index := by
      rw [← indices i]
      exact List.mem_map_of_mem hb
    obtain ⟨c, hc, same⟩ := List.mem_map.mp member
    have home := h.home i c hc
    rw [same] at home
    exact home
  · have lengths := congrArg List.length all
    rw [List.length_map, List.length_map] at lengths
    exact h.count.trans lengths.symm

/-- `clear` leaves no key, and the table usable. -/
theorem Chained.clear (h : t.Chained) : t.clear.Chained ∧ ∀ k, t.clear.lookup k = none := by
  have empty : t.clear.buckets = [] := List.flatMap_eq_nil_iff.mpr fun _ _ => rfl
  refine ⟨⟨h.size_pos, fun i b hb => ?_, ?_, ?_⟩, fun k => ?_⟩
  · cases hb
  · rw [empty]
    rfl
  · rw [empty]
    exact List.nodup_nil
  · rw [lookup]
    rfl

theorem lookup_create (hashF : Index → Nat) (behavior : DuplicateKeyBehavior) (k : Index) :
    (HashTable.create hashF behavior : HashTable Index Value).lookup k = none := rfl

section MapValues
variable {Value' : Type*}

def mapBucket (f : Value → Value') (b : HashBucket Index Value) : HashBucket Index Value' :=
  ⟨b.addr, b.index, f b.value⟩

def mapValues (f : Value → Value') (t : HashTable Index Value) : HashTable Index Value' where
  tableSize := t.tableSize
  ht i := (t.ht i).map (mapBucket f)
  hashfcn := t.hashfcn
  duplicateKeyBehavior := t.duplicateKeyBehavior
  currentBucket := t.currentBucket
  currentItem := t.currentItem
  numElems := t.numElems
  nextAddr := t.nextAddr

variable (f : Value → Value')

omit [DecidableEq Index] in
theorem map_update (ht : Nat → List (HashBucket Index Value)) (idx : Nat)
    (chain : List (HashBucket Index Value)) :
    (fun i => (Function.update ht idx chain i).map (mapBucket f)) =
      Function.update (fun i => (ht i).map (mapBucket f)) idx (chain.map (mapBucket f)) := by
  funext i
  by_cases here : i = idx
  · subst here
    simp
  · simp [Function.update_of_ne here]

omit [DecidableEq Index] in
theorem buckets_mapValues (t : HashTable Index Value) :
    (t.mapValues f).buckets = t.buckets.map (mapBucket f) := by
  simp [buckets, mapValues, List.map_flatMap]

theorem findIn_map (chain : List (HashBucket Index Value)) (index : Index) :
    findIn (chain.map (mapBucket f)) index = (findIn chain index).map (mapBucket f) := by
  simp only [findIn, List.find?_map]
  rfl

theorem lookup_mapValues (t : HashTable Index Value) (index : Index) :
    (t.mapValues f).lookup index = (t.lookup index).map f := by
  simp only [lookup, mapValues, slot, findIn_map]
  split
  · rfl
  · cases findIn (t.ht (t.hashfcn index % t.tableSize)) index <;> rfl

theorem updateIn_map (index : Index) (value : Value) (chain : List (HashBucket Index Value)) :
    (updateIn index value chain).map (mapBucket f) =
      updateIn index (f value) (chain.map (mapBucket f)) := by
  induction chain with
  | nil => rfl
  | cons b chain ih =>
    simp only [updateIn, List.map_cons]
    by_cases here : b.index = index
    · simp [here, mapBucket]
    · simp [here, mapBucket, ih]

theorem mapValues_assign (t : HashTable Index Value) (index : Index) (value : Value) :
    (t.assign index value).mapValues f = (t.mapValues f).assign index (f value) := by
  simp only [assign, mapValues, slot, map_update, updateIn_map]

omit [DecidableEq Index] in
theorem relink_map (n : Nat) (l : List (HashBucket Index Value))
    (ht : Nat → List (HashBucket Index Value)) :
    (fun i => (l.foldl (relink hashfcn n) ht i).map (mapBucket f)) =
      (l.map (mapBucket f)).foldl (relink hashfcn n) fun i => (ht i).map (mapBucket f) := by
  induction l generalizing ht with
  | nil => rfl
  | cons b l ih =>
    simp only [List.foldl_cons, List.map_cons]
    rw [ih]
    simp only [relink, map_update, List.map_cons]
    rfl

omit [DecidableEq Index] in
theorem mapValues_addItem (t : HashTable Index Value) (index : Index) (value : Value) :
    (t.addItem index value).mapValues f = (t.mapValues f).addItem index (f value) := by
  have pushed : (t.pushItem index value).mapValues f =
      (t.mapValues f).pushItem index (f value) := by
    simp only [pushItem, mapValues, slot, map_update, List.map_cons]
    rfl
  have grown : ∀ u : HashTable Index Value,
      u.resizeHashTable.mapValues f = (u.mapValues f).resizeHashTable := by
    intro u
    simp only [resizeHashTable, mapValues, relink_map, List.map_flatMap, List.map_nil]
  have same : ((t.mapValues f).pushItem index (f value)).needsResizing =
      (t.pushItem index value).needsResizing := rfl
  simp only [addItem, same]
  split
  · rw [grown, pushed]
  · exact pushed

theorem mapValues_insert {t : HashTable Index Value}
    (allow : t.duplicateKeyBehavior = .allowDuplicateKeys) (index : Index) (value : Value) :
    (t.insert index value).2.mapValues f = ((t.mapValues f).insert index (f value)).2 := by
  have allow' : (t.mapValues f).duplicateKeyBehavior = .allowDuplicateKeys := allow
  simp only [insert, allow, allow']
  exact mapValues_addItem f t index value

theorem unlink_map (index : Index) (prev : Option Nat) (chain : List (HashBucket Index Value)) :
    unlink index prev (chain.map (mapBucket f)) =
      (unlink index prev chain).map fun (b, p, rest) =>
        (mapBucket f b, p, rest.map (mapBucket f)) := by
  induction chain generalizing prev with
  | nil => rfl
  | cons b chain ih =>
    simp only [unlink, List.map_cons]
    by_cases here : b.index = index
    · simp [here, mapBucket]
    · have inner := ih (some b.addr)
      simp only [mapBucket, here, if_false] at inner ⊢
      rw [inner]
      cases unlink index (some b.addr) chain <;> rfl

theorem mapValues_remove (t : HashTable Index Value) (index : Index) :
    (t.remove index).2.mapValues f = ((t.mapValues f).remove index).2 := by
  have chain : (t.mapValues f).ht ((t.mapValues f).slot index) =
      (t.ht (t.slot index)).map (mapBucket f) := rfl
  simp only [remove, chain, unlink_map]
  cases unlink index none (t.ht (t.slot index)) with
  | none => rfl
  | some found =>
    obtain ⟨b, prev, rest⟩ := found
    simp only [Option.map_some, fixIterator, mapValues, slot, mapBucket]
    by_cases here : t.currentItem = some b.addr
    · cases prev <;> simp [here, map_update]
    · simp [here, map_update]

end MapValues
end HashTable
end Condor.Utils
