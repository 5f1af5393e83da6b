import Mathlib.Data.List.Nodup
import Condor.Utils.HashTable

/-! `startIterations` puts the iterator before the first chain, `iterate` moves it to the next
bucket, and `remove` steps it back from the bucket it takes out. What the iterator has before it is
a list, from which `iterate` takes the first element and `remove` the element of its key. -/
namespace Condor.Utils.HashTable
variable {Index Value : Type*}

def withCursor (t : HashTable Index Value) (bucket : Int) (item : Option Nat) :
    HashTable Index Value :=
  { t with currentBucket := bucket, currentItem := item }

def startIterations (t : HashTable Index Value) : HashTable Index Value := t.withCursor (-1) none

def after (addr : Nat) (chain : List (HashBucket Index Value)) : List (HashBucket Index Value) :=
  (chain.dropWhile (·.addr ≠ addr)).tail

def sameChain (t : HashTable Index Value) : List (HashBucket Index Value) :=
  t.currentItem.elim [] fun addr => after addr (t.ht t.currentBucket.toNat)

def chainsFrom (t : HashTable Index Value) (position : Int) : List Nat :=
  (List.range t.tableSize).drop position.toNat

/-- The loop of `iterate` over the chains, to the first that is not empty. -/
def findChain (t : HashTable Index Value) :
    List Nat → Option (HashBucket Index Value) × HashTable Index Value
  | [] => (none, t.startIterations)
  | i :: chains =>
    match t.ht i with
    | [] => t.findChain chains
    | b :: _ => (some b, t.withCursor i (some b.addr))

def iterate (t : HashTable Index Value) : Option (HashBucket Index Value) × HashTable Index Value :=
  match t.sameChain with
  | b :: _ => (some b, t.withCursor t.currentBucket (some b.addr))
  | [] => t.findChain (t.chainsFrom (t.currentBucket + 1))

def ahead (t : HashTable Index Value) : List (HashBucket Index Value) :=
  t.sameChain ++ (t.chainsFrom (t.currentBucket + 1)).flatMap t.ht

/-- A table with distinct keys and addresses, and an iterator that is at one of its buckets
or before a chain. -/
structure Iterating (t : HashTable Index Value) : Prop where
  chained : t.Chained
  addresses : (t.buckets.map HashBucket.addr).Nodup
  low : -1 ≤ t.currentBucket
  high : t.currentBucket < t.tableSize
  item : ∀ a, t.currentItem = some a →
    0 ≤ t.currentBucket ∧ ∃ b ∈ t.ht t.currentBucket.toNat, b.addr = a

section Iterate
variable {t : HashTable Index Value} {b : HashBucket Index Value}
  {u v : List (HashBucket Index Value)}

theorem after_split
    (distinct : ((u ++ b :: v).map HashBucket.addr).Nodup) : after b.addr (u ++ b :: v) = v := by
  have before : ∀ c ∈ u, c.addr ≠ b.addr := by
    intro c member same
    rw [List.map_append, List.map_cons] at distinct
    exact List.disjoint_of_nodup_append distinct (List.mem_map_of_mem member)
      (same ▸ List.mem_cons_self)
  rw [after, List.dropWhile_append_of_pos (by simpa using before),
    List.dropWhile_cons_of_neg (by simp), List.tail_cons]

theorem Iterating.startIterations (chained : t.Chained)
    (addresses : (t.buckets.map HashBucket.addr).Nodup) :
    t.startIterations.Iterating ∧ t.startIterations.ahead = t.buckets := by
  refine ⟨⟨{ chained with }, addresses,
    Int.le_refl _, ?_, ?_⟩, ?_⟩
  · simp only [HashTable.startIterations, withCursor]
    omega
  · rintro a ⟨⟩
  · simp [ahead, sameChain, chainsFrom, HashTable.startIterations, withCursor, buckets]

variable {i : Nat}

theorem chain_sublist (inside : i < t.tableSize) : List.Sublist (t.ht i) t.buckets :=
  List.sublist_flatten_of_mem (List.mem_map_of_mem (List.mem_range.mpr inside))

theorem Iterating.chain_addresses (h : t.Iterating) (inside : i < t.tableSize) :
    ((t.ht i).map HashBucket.addr).Nodup :=
  ((chain_sublist inside).map HashBucket.addr).nodup h.addresses

theorem Iterating.chain_keys (h : t.Iterating) (inside : i < t.tableSize) :
    ((t.ht i).map HashBucket.index).Nodup :=
  ((chain_sublist inside).map HashBucket.index).nodup h.chained.distinct

theorem Iterating.mem_buckets (h : t.Iterating) (member : b ∈ t.ht i) : b ∈ t.buckets :=
  h.chained.mem_buckets.mpr (h.chained.home i b member ▸ member)

theorem Iterating.moved (h : t.Iterating) (member : b ∈ t.ht i) :
    (t.withCursor i (some b.addr)).Iterating := by
  have inside : i < t.tableSize :=
    h.chained.home i b member ▸ slot_lt h.chained.size_pos b.index
  refine ⟨⟨h.chained.size_pos, h.chained.home, h.chained.count, h.chained.distinct⟩, h.addresses,
    ?_, Int.ofNat_lt.mpr inside, ?_⟩
  · simp only [withCursor]
    omega
  · rintro a ⟨⟩
    exact ⟨Int.natCast_nonneg i, b, member, rfl⟩

/-- A bucket that stays, among those that stay, is followed by what followed it. -/
theorem Iterating.after_filter (h : t.Iterating) (chain : t.ht i = u ++ b :: v)
    {p : HashBucket Index Value → Bool} (stays : p b = true) :
    after b.addr ((t.ht i).filter p) = v.filter p := by
  have inside : i < t.tableSize := h.chained.home i b (by simp [chain]) ▸
    slot_lt h.chained.size_pos b.index
  have distinct := ((List.filter_sublist (p := p)).map HashBucket.addr).nodup
    (h.chain_addresses inside)
  rw [chain, List.filter_append, List.filter_cons_of_pos stays] at distinct ⊢
  exact after_split distinct

theorem Iterating.sameChain_eq (h : t.Iterating) (current : t.currentItem = some b.addr)
    (chain : t.ht t.currentBucket.toNat = u ++ b :: v) : t.sameChain = v := by
  rw [sameChain, current, Option.elim_some]
  simpa using h.after_filter chain (p := fun _ => true) rfl

theorem Iterating.split (h : t.Iterating) {a : Nat} (cursor : t.currentItem = some a) :
    ∃ b u v, b.addr = a ∧ t.ht t.currentBucket.toNat = u ++ b :: v ∧ t.sameChain = v := by
  obtain ⟨-, b, member, rfl⟩ := h.item a cursor
  obtain ⟨u, v, chain⟩ := List.append_of_mem member
  exact ⟨b, u, v, rfl, chain, h.sameChain_eq cursor chain⟩

theorem findChain_cases {position : Nat} {chains : List Nat}
    (rest : chains = (List.range t.tableSize).drop position) :
    (chains.flatMap t.ht = [] ∧ (t.findChain chains).1 = none) ∨
    ∃ (i : Nat) (b : HashBucket Index Value) (tail : List (HashBucket Index Value)),
      t.ht i = b :: tail ∧ t.findChain chains = (some b, t.withCursor i (some b.addr)) ∧
      chains.flatMap t.ht = b :: (tail ++ (t.chainsFrom (i + 1)).flatMap t.ht) := by
  induction chains generalizing position with
  | nil => exact .inl ⟨rfl, rfl⟩
  | cons i chains ih =>
    have inside : position < (List.range t.tableSize).length := by
      rw [← List.drop_eq_nil_iff.not.trans Nat.not_le, ← rest]
      exact List.cons_ne_nil _ _
    rw [List.drop_eq_getElem_cons inside, List.getElem_range] at rest
    obtain ⟨rfl, later⟩ := List.cons.inj rest
    rw [List.flatMap_cons, findChain]
    cases chain : t.ht i with
    | nil => exact ih later
    | cons b tail =>
      refine .inr ⟨i, b, tail, chain, rfl, ?_⟩
      rw [chainsFrom, ← Int.natCast_succ, Int.toNat_natCast, ← later]
      rfl

/-- `iterate` takes off the first of what is ahead. -/
theorem Iterating.iterate (h : t.Iterating) :
    (t.ahead = [] ∧ t.iterate.1 = none) ∨
    ∃ b, t.iterate.1 = some b ∧ t.iterate.2.Iterating ∧ t.ahead = b :: t.iterate.2.ahead := by
  unfold HashTable.iterate
  cases same : t.sameChain with
  | nil =>
    rw [ahead, same, List.nil_append]
    rcases findChain_cases (t := t) rfl with none | ⟨i, b, tail, chain, found, first⟩
    · exact .inl none
    · simp only [chainsFrom] at *
      rw [found]
      have member : b ∈ t.ht i := chain ▸ List.mem_cons_self
      have moved := h.moved member
      refine .inr ⟨b, rfl, moved, first.trans ?_⟩
      rw [ahead, moved.sameChain_eq (u := []) rfl (by simpa [withCursor] using chain)]
      rfl
  | cons b tail =>
    cases cursor : t.currentItem with
    | none => simp [sameChain, cursor] at same
    | some a =>
      obtain ⟨c, u, v, rfl, chain, behind⟩ := h.split cursor
      obtain rfl := behind.symm.trans same
      have moved := h.moved (b := b) (i := t.currentBucket.toNat) (by simp [chain])
      rw [Int.toNat_of_nonneg (h.item _ cursor).1] at moved
      refine .inr ⟨b, rfl, moved, ?_⟩
      have later := moved.sameChain_eq rfl (chain.trans (List.append_cons u c (b :: tail)))
      rw [ahead, same, ahead, later]
      rfl

end Iterate

section Remove
variable [DecidableEq Index] {t : HashTable Index Value} {b : HashBucket Index Value}
  {u v : List (HashBucket Index Value)}

theorem unlink_split {index : Index} {prev p : Option Nat}
    {chain rest : List (HashBucket Index Value)}
    (found : unlink index prev chain = some (b, p, rest)) :
    b.index = index ∧ ∃ u v, chain = u ++ b :: v ∧ rest = u ++ v ∧
      p = (u.getLast?.map HashBucket.addr).or prev := by
  induction chain generalizing prev rest with
  | nil => cases found
  | cons c chain ih =>
    rw [unlink] at found
    split at found
    · next here =>
        cases found
        exact ⟨here, [], chain, rfl, rfl, rfl⟩
    · obtain ⟨⟨b', p', rest'⟩, later, same⟩ := Option.map_eq_some_iff.mp found
      cases same
      obtain ⟨key, u, v, rfl, rfl, before⟩ := ih later
      refine ⟨key, c :: u, v, rfl, rfl, before.trans ?_⟩
      cases u with
      | nil => rfl
      | cons c' u => simp [List.getLast?_cons]

structure Unlinked (t : HashTable Index Value) (index : Index) (b : HashBucket Index Value)
    (u v : List (HashBucket Index Value)) : Prop where
  key : b.index = index
  chain : t.ht (t.slot index) = u ++ b :: v
  removed : (t.remove index).2 =
    { t.fixIterator b.addr (u.getLast?.map HashBucket.addr) with
      ht := Function.update t.ht (t.slot index) (u ++ v), numElems := t.numElems - 1 }

theorem remove_cases (t : HashTable Index Value) (index : Index) :
    ((t.remove index).2 = t ∧ ∀ b ∈ t.ht (t.slot index), b.index ≠ index) ∨
      ∃ b u v, t.Unlinked index b u v := by
  cases found : unlink index none (t.ht (t.slot index)) with
  | none => exact .inl ⟨by simp only [remove, found], unlink_eq_none found⟩
  | some result =>
    obtain ⟨b, p, rest⟩ := result
    obtain ⟨key, u, v, chain, rfl, rfl⟩ := unlink_split found
    exact .inr ⟨b, u, v, key, chain, by simp only [remove, found, Option.or_none]⟩

theorem filter_split
    (distinct : ((u ++ b :: v).map HashBucket.index).Nodup) :
    (u ++ b :: v).filter (·.index ≠ b.index) = u ++ v := by
  rw [List.map_append, List.map_cons, List.nodup_middle, ← List.map_append] at distinct
  have others : ∀ c ∈ u ++ v, c.index ≠ b.index := fun c member same =>
    (List.nodup_cons.mp distinct).1 (same ▸ List.mem_map_of_mem member)
  rw [List.filter_append, List.filter_cons_of_neg (by simp), ← List.filter_append,
    List.filter_eq_self.mpr (by simpa using others)]

/-- Keys are distinct, so every chain loses the buckets of the key. -/
theorem Iterating.remove_ht (h : t.Iterating) (index : Index) (i : Nat) :
    (t.remove index).2.ht i = (t.ht i).filter (·.index ≠ index) := by
  have elsewhere (other : i ≠ t.slot index) : (t.ht i).filter (·.index ≠ index) = t.ht i := by
    rw [List.filter_eq_self]
    intro c member
    refine decide_eq_true fun same => other ?_
    rw [← h.chained.home i c member, same]
  rcases remove_cases t index with ⟨same, absent⟩ | ⟨b, u, v, found⟩
  · rw [same]
    by_cases here : i = t.slot index
    · rw [here, List.filter_eq_self.mpr (by simpa using absent)]
    · rw [elsewhere here]
  · rw [found.removed]
    by_cases here : i = t.slot index
    · have distinct := h.chain_keys (slot_lt h.chained.size_pos index)
      rw [found.chain] at distinct
      simp only [here, Function.update_self]
      rw [found.chain, ← found.key, filter_split distinct]
    · rw [elsewhere here]
      exact Function.update_of_ne here _ _

theorem remove_tableSize (t : HashTable Index Value) (index : Index) :
    (t.remove index).2.tableSize = t.tableSize := by
  rcases remove_cases t index with ⟨same, -⟩ | ⟨b, u, v, found⟩
  · rw [same]
  · rw [found.removed]
    exact fixIterator_tableSize ..

theorem Iterating.remove_chains (h : t.Iterating) (index : Index) (position : Int) :
    ((t.remove index).2.chainsFrom position).flatMap (t.remove index).2.ht =
      ((t.chainsFrom position).flatMap t.ht).filter (·.index ≠ index) := by
  rw [List.filter_flatMap, chainsFrom, chainsFrom, remove_tableSize]
  exact List.flatMap_congr fun i _ => h.remove_ht index i

/-- The bucket of the iterator is taken out, or it stays. -/
theorem Iterating.remove_cursor (h : t.Iterating) (index : Index) :
    ((t.remove index).2.currentBucket = t.currentBucket ∧
      (t.remove index).2.currentItem = t.currentItem ∧
      ∀ b ∈ t.ht t.currentBucket.toNat, t.currentItem = some b.addr → b.index ≠ index) ∨
    ∃ b u v, b.index = index ∧ t.currentItem = some b.addr ∧
      t.ht t.currentBucket.toNat = u ++ b :: v ∧
      ((u = [] ∧ (t.remove index).2.currentBucket = t.currentBucket - 1 ∧
          (t.remove index).2.currentItem = none) ∨
        ∃ u' c, u = u' ++ [c] ∧ (t.remove index).2.currentBucket = t.currentBucket ∧
          (t.remove index).2.currentItem = some c.addr) := by
  rcases remove_cases t index with ⟨same, absent⟩ | ⟨b, u, v, found⟩
  · refine .inl ⟨by rw [same], by rw [same], fun b member _ key => ?_⟩
    refine absent b ?_ key
    rw [← key, h.chained.home _ b member]
    exact member
  · by_cases current : t.currentItem = some b.addr
    · have here : t.currentBucket.toNat = t.slot index := by
        obtain ⟨-, c, member, same⟩ := h.item _ current
        have inTable : b ∈ t.buckets := h.mem_buckets (i := t.slot index) (by simp [found.chain])
        obtain rfl := List.inj_on_of_nodup_map h.addresses (h.mem_buckets member) inTable same
        rw [← found.key, h.chained.home _ c member]
      refine .inr ⟨b, u, v, found.key, current, here ▸ found.chain, ?_⟩
      rcases List.eq_nil_or_concat' u with rfl | ⟨u', c, rfl⟩
      · refine .inl ⟨rfl, ?_⟩
        rw [found.removed]
        simp [fixIterator, current]
      · refine .inr ⟨u', c, rfl, ?_⟩
        rw [found.removed]
        simp [fixIterator, current]
    · refine .inl ⟨?_, ?_, fun c member at_ key => current ?_⟩
      · simp [found.removed, fixIterator, current]
      · simp [found.removed, fixIterator, current]
      · have inTable : b ∈ t.buckets := h.mem_buckets (i := t.slot index) (by simp [found.chain])
        have same := List.inj_on_of_nodup_map h.chained.distinct (h.mem_buckets member) inTable
          (key.trans found.key.symm)
        rw [← same, at_]

/-- `remove` takes the key out of what is ahead, wherever the iterator is. -/
theorem Iterating.remove (h : t.Iterating) (index : Index) :
    (t.remove index).2.Iterating ∧
      (t.remove index).2.ahead = t.ahead.filter (·.index ≠ index) := by
  have chained := (h.chained.remove index).1
  have addresses : ((t.remove index).2.buckets.map HashBucket.addr).Nodup := by
    have all : (t.remove index).2.buckets = t.buckets.filter (·.index ≠ index) := by
      simpa [chainsFrom, buckets] using h.remove_chains index 0
    rw [all]
    exact (List.filter_sublist.map HashBucket.addr).nodup h.addresses
  have size := remove_tableSize t index
  have low := h.low
  have high := h.high
  rcases h.remove_cursor index with ⟨bucket, item, stays⟩ |
    ⟨b, u, v, key, current, chain, ⟨rfl, bucket, item⟩ | ⟨u', c, rfl, bucket, item⟩⟩
  · refine ⟨⟨chained, addresses, by omega, by omega, fun a cursor => ?_⟩, ?_⟩
    · rw [item] at cursor
      obtain ⟨b, u, v, rfl, chain, -⟩ := h.split cursor
      have member : b ∈ t.ht t.currentBucket.toNat := by simp [chain]
      refine ⟨bucket ▸ (h.item _ cursor).1, b, ?_, rfl⟩
      rw [bucket, h.remove_ht]
      exact List.mem_filter.mpr ⟨member, by simpa using stays b member cursor⟩
    · rw [ahead, ahead, List.filter_append, bucket, h.remove_chains]
      congr 1
      rw [sameChain, item, bucket]
      cases cursor : t.currentItem with
      | none => simp [sameChain, cursor]
      | some a =>
        obtain ⟨b, u, v, rfl, chain, behind⟩ := h.split cursor
        rw [behind, Option.elim_some, h.remove_ht]
        exact h.after_filter chain (by simpa using stays b (by simp [chain]) cursor)
  · have nonneg := (h.item _ current).1
    refine ⟨⟨chained, addresses, by omega, by omega, fun a cursor => ?_⟩, ?_⟩
    · rw [item] at cursor
      cases cursor
    · have first : t.chainsFrom t.currentBucket =
          t.currentBucket.toNat :: t.chainsFrom (t.currentBucket + 1) := by
        have inside : t.currentBucket.toNat < (List.range t.tableSize).length := by
          rw [List.length_range]
          omega
        rw [chainsFrom, List.drop_eq_getElem_cons inside, List.getElem_range, chainsFrom,
          Int.toNat_add nonneg (by decide)]
        rfl
      rw [ahead, sameChain, item, bucket, h.remove_chains, Int.sub_add_cancel, first,
        List.flatMap_cons, chain, ahead, h.sameChain_eq current chain]
      simp [key]
  · have nonneg := (h.item _ current).1
    have chain' : t.ht t.currentBucket.toNat = u' ++ c :: b :: v := by simpa using chain
    have other : c.index ≠ index := by
      have distinct := h.chain_keys (i := t.currentBucket.toNat) (by omega)
      rw [chain', List.map_append, List.map_cons, List.map_cons] at distinct
      intro same
      refine (List.nodup_cons.mp (List.nodup_append.mp distinct).2.1).1 ?_
      rw [same, ← key]
      exact List.mem_cons_self
    refine ⟨⟨chained, addresses, by omega, by omega, fun a cursor => ?_⟩, ?_⟩
    · rw [item] at cursor
      cases cursor
      refine ⟨bucket ▸ nonneg, c, ?_, rfl⟩
      rw [bucket, h.remove_ht, chain']
      simp [other]
    · rw [ahead, ahead, List.filter_append, bucket, h.remove_chains, h.sameChain_eq current chain]
      congr 1
      rw [sameChain, item, bucket, Option.elim_some, h.remove_ht,
        h.after_filter chain' (by simpa using other)]
      simp [key]

/-- `while( iterate(v) )` for at most so many turns, where after each element the keys of
the first list are removed; what it visits, once it has ended. -/
def visits : Nat → (Nat → List Index) → HashTable Index Value →
    Option (List (HashBucket Index Value))
  | 0, _, _ => none
  | turns + 1, between, t =>
    match t.iterate with
    | (none, _) => some []
    | (some b, t') =>
      (visits turns (fun i => between (i + 1))
        ((between 0).foldl (fun t index => (t.remove index).2) t')).map (b :: ·)

theorem Iterating.removeAll (h : t.Iterating) (keys : List Index) :
    (keys.foldl (fun t index => (t.remove index).2) t).Iterating ∧
      (keys.foldl (fun t index => (t.remove index).2) t).ahead =
        t.ahead.filter (·.index ∉ keys) := by
  induction keys generalizing t with
  | nil => exact ⟨h, by simp⟩
  | cons index keys ih =>
    obtain ⟨iterating, ahead⟩ := h.remove index
    obtain ⟨iterating', ahead'⟩ := ih iterating
    refine ⟨iterating', ahead'.trans ?_⟩
    rw [ahead, List.filter_filter]
    refine List.filter_congr fun c _ => ?_
    simp [Bool.and_comm]

/-- What a loop visits of the elements it has before it. -/
structure Visited (between : Nat → List Index) (before visited : List (HashBucket Index Value)) :
    Prop where
  order : visited.Sublist before
  missed : ∀ b ∈ before, b ∉ visited → ∃ i < visited.length, b.index ∈ between i
  removed : ∀ i j b, i < j → visited[j]? = some b → b.index ∉ between i

theorem Iterating.visits (h : t.Iterating) {turns : Nat} (between : Nat → List Index)
    (enough : t.ahead.length < turns) :
    ∃ visited, HashTable.visits turns between t = some visited ∧
      Visited between t.ahead visited := by
  induction turns generalizing t between with
  | zero => exact absurd enough (Nat.not_lt_zero _)
  | succ turns ih =>
    rcases h.iterate with ⟨nothing, atEnd⟩ | ⟨b, found, iterating, ahead⟩
    · have ended : t.iterate = (none, t.iterate.2) := Prod.ext atEnd rfl
      refine ⟨[], by rw [HashTable.visits, ended], List.nil_sublist _, ?_, ?_⟩
      · simp [nothing]
      · simp
    · have step : t.iterate = (some b, t.iterate.2) := Prod.ext found rfl
      obtain ⟨smaller, rest⟩ := iterating.removeAll (between 0)
      have fewer := t.iterate.2.ahead.length_filter_le fun c => decide (c.index ∉ between 0)
      rw [ahead, List.length_cons] at enough
      obtain ⟨visited, run, order, missed, removed⟩ :=
        ih smaller (fun i => between (i + 1)) (by rw [rest]; omega)
      rw [rest] at order missed
      refine ⟨b :: visited, ?_, ?_, ?_, ?_⟩
      · rw [HashTable.visits, step]
        exact congrArg (Option.map (b :: ·)) run
      · rw [ahead]
        exact (order.trans List.filter_sublist).cons_cons b
      · intro c member unseen
        rw [ahead] at member
        simp only [List.mem_cons, not_or] at unseen
        have later : c ∈ t.iterate.2.ahead := (List.mem_cons.mp member).resolve_left unseen.1
        by_cases first : c.index ∈ between 0
        · exact ⟨0, Nat.succ_pos _, first⟩
        · obtain ⟨i, below, taken⟩ :=
            missed c (List.mem_filter.mpr ⟨later, by simpa using first⟩) unseen.2
          exact ⟨i + 1, Nat.succ_lt_succ below, taken⟩
      · intro i j c less seen
        obtain ⟨j, rfl⟩ := Nat.exists_eq_succ_of_ne_zero (Nat.ne_of_gt (Nat.zero_lt_of_lt less))
        rw [List.getElem?_cons_succ] at seen
        cases i with
        | zero =>
          have member := order.subset (List.mem_of_getElem? seen)
          simpa using (List.mem_filter.mp member).2
        | succ i => exact removed i j c (Nat.lt_of_succ_lt_succ less) seen

theorem visits_mono {turns more : Nat} {between : Nat → List Index}
    {visited : List (HashBucket Index Value)} (run : visits turns between t = some visited)
    (le : turns ≤ more) : visits more between t = some visited := by
  induction turns generalizing t between visited more with
  | zero => cases run
  | succ turns ih =>
    obtain ⟨more, rfl⟩ := Nat.exists_eq_succ_of_ne_zero (show more ≠ 0 by omega)
    rw [visits] at run ⊢
    split at run
    · exact run
    · obtain ⟨rest, later, rfl⟩ := Option.map_eq_some_iff.mp run
      rw [ih later (by omega), Option.map_some]

/-- A loop in which keys are removed between the calls of `iterate`: it ends, it visits
nothing twice, it misses only what was removed, and nothing that was removed is visited. -/
theorem iteration_with_removals (chained : t.Chained)
    (addresses : (t.buckets.map HashBucket.addr).Nodup) (between : Nat → List Index) :
    ∃ visited,
      (∀ turns, t.buckets.length < turns →
        visits turns between t.startIterations = some visited) ∧
      visited.Nodup ∧ (∀ b ∈ visited, b ∈ t.buckets) ∧
      (∀ b ∈ t.buckets, b ∉ visited → ∃ i < visited.length, b.index ∈ between i) ∧
      ∀ i j b, i < j → visited[j]? = some b → b.index ∉ between i := by
  obtain ⟨iterating, all⟩ := Iterating.startIterations chained addresses
  obtain ⟨visited, run, order, missed, removed⟩ :=
    iterating.visits between (Nat.lt_succ_self _)
  rw [all] at run order missed
  exact ⟨visited, fun turns enough => visits_mono run enough,
    order.nodup (List.Nodup.of_map _ chained.distinct), fun _ member => order.subset member,
    missed, removed⟩

/-- Three keys, two of them in one chain; after each turn the keys 8 and 2 are removed. -/
theorem iteration_with_removals_chain :
    ∃ t : HashTable Nat Char, t.Chained ∧ t.buckets.map HashBucket.index = [8, 1, 2] ∧
      ∃ visited, (∀ turns, 3 < turns →
          visits turns (fun _ => [8, 2]) t.startIterations = some visited) ∧
        visited.Nodup ∧ ∀ b ∈ t.buckets, b ∉ visited → ∃ i < visited.length, b.index ∈ [8, 2] := by
  have none : (create id .rejectDuplicateKeys : HashTable Nat Char).Chained := .create id _
  have one := (none.insert_reject rfl 1 'a').1
  have two := (one.insert_reject rfl 8 'b').1
  have three := (two.insert_reject rfl 2 'c').1
  obtain ⟨visited, run, nodup, -, missed, -⟩ :=
    iteration_with_removals three (by decide) fun _ => [8, 2]
  exact ⟨_, three, rfl, visited, run, nodup, missed⟩

end Remove

end Condor.Utils.HashTable
