import Mathlib.Algebra.GroupWithZero.Nat
import Condor.Authorization.IpVerify

/-! `PunchHole` calls itself for every level it implies: a hole at `DAEMON` counts twice at `READ`.
`FillHole` retraces the visits. A level is open to an id exactly when an unfilled hole visits it. -/
namespace Condor.Authorization
open Condor.Utils

def visits : Nat → DCpermission → List DCpermission
  | 0, _ => []
  | fuel + 1, perm => perm :: (IpVerify.lowerLevels perm).flatMap (visits fuel)

abbrev Holes := List (DCpermission × String)

namespace Holes

def after (holes : Holes) : Call → Holes
  | .verify _ _ _ => holes
  | .punchHole perm id => (perm, id) :: holes
  | .fillHole perm id => holes.erase (perm, id)

/-- Every fill matches a hole that is still open. -/
def Balanced : Holes → List Call → Prop
  | _, [] => True
  | holes, call :: calls =>
    (∀ perm id, call = .fillHole perm id → (perm, id) ∈ holes) ∧ Balanced (holes.after call) calls

def count (holes : Holes) (perm : DCpermission) (id : String) : Nat :=
  (holes.map fun hole =>
    if hole.2 = id then (visits DCpermission.lastPerm hole.1).count perm else 0).sum

theorem count_cons (hole : DCpermission × String) (holes : Holes) (perm : DCpermission)
    (id : String) :
    count (hole :: holes) perm id =
      (if hole.2 = id then (visits DCpermission.lastPerm hole.1).count perm else 0) +
        holes.count perm id := rfl

theorem count_erase {holes : Holes} {hole : DCpermission × String} (member : hole ∈ holes)
    (perm : DCpermission) (id : String) :
    holes.count perm id =
      (if hole.2 = id then (visits DCpermission.lastPerm hole.1).count perm else 0) +
        count (holes.erase hole) perm id := by
  have perm := (List.perm_cons_erase member).map fun hole : DCpermission × String =>
    if hole.2 = id then (visits DCpermission.lastPerm hole.1).count perm else 0
  exact perm.sum_nat

end Holes

theorem count_visits_succ (fuel : Nat) (perm q : DCpermission) :
    (visits (fuel + 1) perm).count q =
      [perm].count q + ((IpVerify.lowerLevels perm).flatMap (visits fuel)).count q := by
  rw [← List.count_append, visits, List.singleton_append]

theorem mem_visits_iff : ∀ {p q : DCpermission},
    q ∈ visits DCpermission.lastPerm p ↔ q ∈ p.getImpliedPerms := by
  decide +kernel

theorem length_lowerLevels_lt : ∀ {p q : DCpermission}, q ∈ IpVerify.lowerLevels p →
    (IpVerify.lowerLevels q).length < (IpVerify.lowerLevels p).length := by
  decide +kernel

theorem length_lowerLevels_lt_lastPerm : ∀ p : DCpermission,
    (IpVerify.lowerLevels p).length < DCpermission.lastPerm := by
  decide

variable {holes : Holes} {perm : DCpermission} {id : String}

/-- A level is visited by an open hole exactly when a hole is open there or at a
level that implies it. -/
theorem Holes.count_pos_iff : 0 < holes.count perm id ↔ ∃ p, (p, id) ∈ holes ∧ p.Implies perm := by
  induction holes with
  | nil => simp [Holes.count]
  | cons hole holes ih =>
    obtain ⟨p, i⟩ := hole
    rw [Holes.count_cons, Nat.add_pos_iff_pos_or_pos, ih]
    constructor
    · rintro (here | ⟨q, member, implies⟩)
      · split at here
        · next same =>
            have visited := mem_visits_iff.mp (List.count_pos_iff.mp here)
            exact ⟨p, same ▸ List.mem_cons_self, DCpermission.mem_getImpliedPerms_iff.mp visited⟩
        · exact absurd here (Nat.lt_irrefl 0)
      · exact ⟨q, List.mem_cons_of_mem _ member, implies⟩
    · rintro ⟨q, member, implies⟩
      rcases List.mem_cons.mp member with same | later
      · cases same
        rw [if_pos rfl]
        exact Or.inl (List.count_pos_iff.mpr
          (mem_visits_iff.mpr (DCpermission.mem_getImpliedPerms_iff.mpr implies)))
      · exact Or.inr ⟨q, later, implies⟩

namespace IpVerify

def entry (n : Nat) : Option Nat := if n = 0 then none else some n

/-- The hole tables hold the given reference counts, and no entry for a count of zero. -/
def Tracks (s : IpVerify) (counts : DCpermission → String → Nat) : Prop :=
  ∀ perm, match s.punchedHoleArray perm with
    | none => ∀ id, counts perm id = 0
    | some table => table.Chained ∧ ∀ id, table.lookup id = entry (counts perm id)

def SameRules (s s' : IpVerify) : Prop :=
  s'.didInit = s.didInit ∧ s'.permTypeArray = s.permTypeArray ∧ s'.permHashTable = s.permHashTable

theorem SameRules.trans {s t u : IpVerify} (first : SameRules s t) (second : SameRules t u) :
    SameRules s u :=
  ⟨second.1.trans first.1, second.2.1.trans first.2.1, second.2.2.trans first.2.2⟩

variable {s : IpVerify} {counts : DCpermission → String → Nat}

theorem Tracks.congr {counts' : DCpermission → String → Nat} (tracks : s.Tracks counts)
    (same : ∀ perm id, counts perm id = counts' perm id) : s.Tracks counts' := by
  have : counts = counts' := funext fun perm => funext fun id => same perm id
  exact this ▸ tracks

theorem Tracks.table (tracks : s.Tracks counts) (site : Site) (perm : DCpermission) :
    ((s.punchedHoleArray perm).getD
        (.create site.computeHostHash .rejectDuplicateKeys)).Chained ∧
      ∀ id, ((s.punchedHoleArray perm).getD
        (.create site.computeHostHash .rejectDuplicateKeys)).lookup id =
          entry (counts perm id) := by
  have here := tracks perm
  cases present : s.punchedHoleArray perm with
  | none =>
    rw [present] at here
    refine ⟨HashTable.Chained.create _ _, fun id => ?_⟩
    rw [here id]
    rfl
  | some table =>
    rw [present] at here
    exact here

variable {n : Nat}

theorem Tracks.update {table : HolePunchTable} (tracks : s.Tracks counts) (chained : table.Chained)
    (lookups : ∀ k, table.lookup k = if k = id then entry n else entry (counts perm k)) :
    ({ s with punchedHoleArray := Function.update s.punchedHoleArray perm (some table) } :
      IpVerify).Tracks fun q i => if q = perm ∧ i = id then n else counts q i := by
  intro q
  by_cases here : q = perm
  · subst here
    simp only [Function.update_self, true_and]
    refine ⟨chained, fun k => ?_⟩
    rw [lookups k]
    split <;> rfl
  · simp only [Function.update_of_ne here, here, false_and, if_false]
    exact tracks q

theorem entry_eq_none_iff : entry n = none ↔ n = 0 := by
  rw [entry]
  split <;> simp_all

theorem takeCount_eq {table : HolePunchTable} (chained : table.Chained)
    (counted : table.lookup id = entry n) :
    ∃ small, takeCount table id = some (n, small) ∧ small.Chained ∧
      ∀ k, small.lookup k = if k = id then none else table.lookup k := by
  rw [takeCount]
  cases present : table.lookup id with
  | none =>
    have zero : n = 0 := entry_eq_none_iff.mp (counted.symm.trans present)
    refine ⟨table, by rw [zero], chained, fun k => ?_⟩
    split
    · next here => rw [here, present]
    · rfl
  | some stored =>
    have same : stored = n := by
      rw [counted, entry] at present
      split at present
      · cases present
      · exact (Option.some.inj present).symm
    have success := chained.remove_found present
    obtain ⟨smallChained, smallLookups⟩ := chained.remove id
    generalize table.remove id = result at success smallChained smallLookups ⊢
    obtain ⟨ok, small⟩ := result
    cases success
    exact ⟨small, by rw [same], smallChained, smallLookups⟩

theorem Tracks.putCount {small : HolePunchTable} (tracks : s.Tracks counts) (positive : n ≠ 0)
    (chained : small.Chained)
    (lookups : ∀ k, small.lookup k = if k = id then none else entry (counts perm k)) :
    ∃ s', s.putCount perm small id n = some s' ∧ SameRules s s' ∧
      s'.Tracks fun q i => if q = perm ∧ i = id then n else counts q i := by
  have absent : small.lookup id = none := by rw [lookups, if_pos rfl]
  obtain ⟨success, bigChained, bigLookups⟩ := chained.insert_absent absent n
  rw [IpVerify.putCount]
  generalize small.insert id n = result at success bigChained bigLookups ⊢
  obtain ⟨ok, big⟩ := result
  cases success
  refine ⟨_, rfl, ⟨rfl, rfl, rfl⟩, tracks.update bigChained fun k => ?_⟩
  rw [bigLookups k, lookups k]
  split
  · rw [entry, if_neg positive]
  · rfl

theorem ite_count_singleton (change : Nat → Nat → Nat) (unit : ∀ n, change n 0 = n)
    (counts : DCpermission → String → Nat) (perm q : DCpermission) (id i : String) :
    (if q = perm ∧ i = id then change (counts perm id) 1 else counts q i) =
      change (counts q i) (if i = id then [perm].count q else 0) := by
  by_cases here : i = id
  · subst here
    by_cases level : q = perm
    · subst level
      simp
    · simp [level, unit, Ne.symm level]
  · simp [here, unit]

theorem punchLevel_tracks (tracks : s.Tracks counts) (site : Site) (perm : DCpermission)
    (id : String) :
    ∃ s', s.punchLevel site perm id = some s' ∧ SameRules s s' ∧
      s'.Tracks fun q i => counts q i + if i = id then [perm].count q else 0 := by
  obtain ⟨chained, lookups⟩ := tracks.table site perm
  obtain ⟨small, taken, smallChained, smallLookups⟩ := takeCount_eq chained (lookups id)
  obtain ⟨s', put, same, tracks'⟩ := tracks.putCount (Nat.succ_ne_zero (counts perm id))
    smallChained fun k => by rw [smallLookups k, lookups k]
  refine ⟨s', ?_, same, tracks'.congr fun q i =>
    ite_count_singleton (· + ·) Nat.add_zero counts perm q id i⟩
  rw [punchLevel, taken]
  exact put

theorem fillLevel_tracks (tracks : s.Tracks counts) (isOpen : 0 < counts perm id) :
    ∃ s', s.fillLevel perm id = some (true, s') ∧ SameRules s s' ∧
      s'.Tracks fun q i => counts q i - if i = id then [perm].count q else 0 := by
  have counted := ite_count_singleton (· - ·) Nat.sub_zero counts perm
  have here := tracks perm
  cases array : s.punchedHoleArray perm with
  | none =>
    rw [array] at here
    exact absurd (here id) (Nat.ne_of_gt isOpen)
  | some table =>
    rw [array] at here
    obtain ⟨chained, lookups⟩ := here
    have present : table.lookup id ≠ none := by
      rw [lookups id, Ne, entry_eq_none_iff]
      exact Nat.ne_of_gt isOpen
    obtain ⟨small, taken, smallChained, smallLookups⟩ := takeCount_eq chained (lookups id)
    have smallCounts : ∀ k, small.lookup k = if k = id then none else entry (counts perm k) :=
      fun k => by rw [smallLookups k, lookups k]
    simp only [fillLevel, array, if_neg present, taken, Option.bind_some]
    by_cases last : counts perm id - 1 = 0
    · rw [if_neg (not_not.mpr last)]
      refine ⟨_, rfl, ⟨rfl, rfl, rfl⟩,
        (tracks.update (n := counts perm id - 1) smallChained ?_).congr (counted · id ·)⟩
      intro k
      rw [smallCounts k, last]
      rfl
    · obtain ⟨s', put, same, tracks'⟩ := tracks.putCount last smallChained smallCounts
      rw [if_pos last, put]
      exact ⟨s', rfl, same, tracks'.congr (counted · id ·)⟩

variable {fuel : Nat} {addr : InAddr} {user : Option String}

theorem punchHole_tracks (site : Site) (id : String) (enough : (lowerLevels perm).length < fuel)
    (tracks : s.Tracks counts) :
    ∃ s', s.punchHole site fuel perm id = some s' ∧ SameRules s s' ∧
      s'.Tracks fun q i => counts q i + if i = id then (visits fuel perm).count q else 0 := by
  induction fuel generalizing s counts perm with
  | zero => exact absurd enough (Nat.not_lt_zero _)
  | succ fuel ih =>
    obtain ⟨s₁, punched, same₁, tracks₁⟩ := punchLevel_tracks tracks site perm id
    rw [punchHole, punched, Option.bind_some]
    -- the loop over the lower levels, whose own visits are shorter
    have loop : ∀ (lowers : List DCpermission) (s : IpVerify) (counts : _ → String → Nat),
        (∀ lower ∈ lowers, lower ∈ lowerLevels perm) → s.Tracks counts →
        ∃ s', lowers.foldlM (fun s lower => s.punchHole site fuel lower id) s = some s' ∧
          SameRules s s' ∧ s'.Tracks fun q i =>
            counts q i + if i = id then (lowers.flatMap (visits fuel)).count q else 0 := by
      intro lowers
      induction lowers with
      | nil =>
        intro s counts _ tracks
        exact ⟨s, rfl, ⟨rfl, rfl, rfl⟩, tracks.congr fun q i => by simp⟩
      | cons lower lowers ihLowers =>
        intro s counts below tracks
        have shorter := length_lowerLevels_lt (below lower List.mem_cons_self)
        obtain ⟨s₁, first, same₁, tracks₁⟩ := ih
          (Nat.lt_of_lt_of_le shorter (Nat.le_of_lt_succ enough)) tracks
        obtain ⟨s₂, rest, same₂, tracks₂⟩ := ihLowers s₁ _
          (fun other member => below other (List.mem_cons_of_mem _ member)) tracks₁
        refine ⟨s₂, ?_, same₁.trans same₂, tracks₂.congr fun q i => ?_⟩
        · rw [List.foldlM_cons, first]
          exact rest
        · rw [List.flatMap_cons, List.count_append]
          split <;> omega
    obtain ⟨s₂, lower, same₂, tracks₂⟩ := loop (lowerLevels perm) s₁ _ (fun _ h => h) tracks₁
    refine ⟨s₂, lower, same₁.trans same₂, tracks₂.congr fun q i => ?_⟩
    rw [count_visits_succ]
    split <;> omega

theorem fillHole_tracks (enough : (lowerLevels perm).length < fuel) (tracks : s.Tracks counts)
    (isOpen : ∀ q, (visits fuel perm).count q ≤ counts q id) :
    ∃ s', s.fillHole fuel perm id = some (true, s') ∧ SameRules s s' ∧
      s'.Tracks fun q i => counts q i - if i = id then (visits fuel perm).count q else 0 := by
  induction fuel generalizing s counts perm with
  | zero => exact absurd enough (Nat.not_lt_zero _)
  | succ fuel ih =>
    have here : 0 < counts perm id := by
      have := isOpen perm
      rw [count_visits_succ, List.count_singleton_self] at this
      omega
    obtain ⟨s₁, filled, same₁, tracks₁⟩ := fillLevel_tracks tracks here
    have loop : ∀ (lowers : List DCpermission) (s : IpVerify) (counts : _ → String → Nat),
        (∀ lower ∈ lowers, lower ∈ lowerLevels perm) → s.Tracks counts →
        (∀ q, (lowers.flatMap (visits fuel)).count q ≤ counts q id) →
        ∃ s', lowers.foldlM (fun s lower => (s.fillHole fuel lower id).map Prod.snd) s = some s' ∧
          SameRules s s' ∧ s'.Tracks fun q i =>
            counts q i - if i = id then (lowers.flatMap (visits fuel)).count q else 0 := by
      intro lowers
      induction lowers with
      | nil =>
        intro s counts _ tracks _
        exact ⟨s, rfl, ⟨rfl, rfl, rfl⟩, tracks.congr fun q i => by simp⟩
      | cons lower lowers ihLowers =>
        intro s counts below tracks isOpen
        have shorter := length_lowerLevels_lt (below lower List.mem_cons_self)
        simp only [List.flatMap_cons, List.count_append] at isOpen
        obtain ⟨s₁, first, same₁, tracks₁⟩ := ih
          (Nat.lt_of_lt_of_le shorter (Nat.le_of_lt_succ enough)) tracks
          fun q => le_trans (Nat.le_add_right _ _) (isOpen q)
        obtain ⟨s₂, rest, same₂, tracks₂⟩ := ihLowers s₁ _
          (fun other member => below other (List.mem_cons_of_mem _ member)) tracks₁
          (fun q => by have := isOpen q; simp only [if_true]; omega)
        refine ⟨s₂, ?_, same₁.trans same₂, tracks₂.congr fun q i => ?_⟩
        · rw [List.foldlM_cons, first]
          exact rest
        · rw [List.flatMap_cons, List.count_append]
          split <;> omega
    obtain ⟨s₂, lower, same₂, tracks₂⟩ := loop (lowerLevels perm) s₁ _ (fun _ h => h) tracks₁
      (fun q => by have := isOpen q; rw [count_visits_succ] at this; simp only [if_true]; omega)
    refine ⟨s₂, ?_, same₁.trans same₂, tracks₂.congr fun q i => ?_⟩
    · simp only [fillHole, filled]
      rw [lower]
      rfl
    · rw [count_visits_succ]
      split <;> omega

theorem Tracks.holeFound_iff (tracks : s.Tracks holes.count) :
    s.holeFound perm addr user = true ↔
      ∃ p, ∃ id ∈ holeIds addr user, (p, id) ∈ holes ∧ p.Implies perm := by
  have found : s.holeFound perm addr user = true ↔
      ∃ id ∈ holeIds addr user, 0 < holes.count perm id := by
    have here := tracks perm
    rw [holeFound]
    cases array : s.punchedHoleArray perm with
    | none =>
      rw [array] at here
      simp [here]
    | some table =>
      rw [array] at here
      simp only [List.any_eq_true, here.2, entry]
      refine exists_congr fun id => and_congr_right fun _ => ?_
      by_cases zero : holes.count perm id = 0
      · simp [zero]
      · simp [zero, Nat.pos_of_ne_zero zero]
  rw [found]
  constructor
  · rintro ⟨id, member, positive⟩
    obtain ⟨p, isOpen, implies⟩ := Holes.count_pos_iff.mp positive
    exact ⟨p, id, member, isOpen, implies⟩
  · rintro ⟨p, id, member, isOpen, implies⟩
    exact ⟨id, member, Holes.count_pos_iff.mpr ⟨p, isOpen, implies⟩⟩

/-- A hole at a level is also found at every level it directly implies. -/
theorem Tracks.holeFound_of_parent (tracks : s.Tracks holes.count) {parent : DCpermission}
    (direct : parent ∈ perm.getPermsIAmDirectlyImpliedBy)
    (found : s.holeFound parent addr user = true) : s.holeFound perm addr user = true := by
  obtain ⟨p, id, member, isOpen, implies⟩ := tracks.holeFound_iff.mp found
  exact tracks.holeFound_iff.mpr ⟨p, id, member, isOpen, implies.tail direct⟩

end IpVerify
end Condor.Authorization
