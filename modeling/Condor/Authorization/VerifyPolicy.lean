import Condor.Authorization.PunchedHoles
import Condor.Lib.Run

/-! The policy of a level is a function of the lists and of the name service. The cache holds only
its answers: a hole is found before anything is cached, also at the levels that the recursion climbs
to. -/
namespace Condor.Authorization
open Condor.Utils Condor.Lib

namespace Site
variable (site : Site)

def allowList (perm : DCpermission) : Option AccessList := (site.allowText perm).map site.fillTable

def denyList (perm : DCpermission) : Option AccessList := (site.denySetting perm).map site.fillTable

def matchesList (list : Option AccessList) (addr : InAddr) (user : String) : Bool :=
  site.lookupUserIp list user addr.ntoa ||
    (site.sinToHostname addr).any fun host => site.lookupUserHost list user host

def policy (addr : InAddr) (user : String) (perm : DCpermission) : Bool :=
  if site.allowList perm = none ∧ site.denyList perm = none then decide (perm ≠ .config)
  else if site.matchesList (site.denyList perm) addr user then false
  else if site.matchesList (site.allowList perm) addr user then true
  else if site.allowList perm = none ∧ perm ≠ .config then true
  else perm.getPermsIAmDirectlyImpliedBy.attach.any fun parent => policy addr user parent.1
termination_by perm.rank
decreasing_by exact DCpermission.rank_of_mem_getPermsIAmDirectlyImpliedBy parent.2

theorem policy_of_unmatched {addr : InAddr} {user : String} {perm : DCpermission}
    (lists : ¬ (site.allowList perm = none ∧ site.denyList perm = none))
    (notDenied : site.matchesList (site.denyList perm) addr user = false)
    (notAllowed : site.matchesList (site.allowList perm) addr user = false)
    (notOnlyDenies : ¬ (site.allowList perm = none ∧ perm ≠ .config)) :
    site.policy addr user perm =
      perm.getPermsIAmDirectlyImpliedBy.any fun parent => site.policy addr user parent := by
  rw [policy, if_neg lists, notDenied, notAllowed, if_neg notOnlyDenies]
  simp

theorem behavior_permTypeEntry (perm : DCpermission) :
    (site.permTypeEntry perm).behavior =
      if site.allowList perm = none ∧ site.denyList perm = none then
        if perm = .config then .deny else .allow
      else if site.allowList perm = none ∧ perm ≠ .config then .onlyDenies
      else .useTable := by
  simp only [permTypeEntry, allowList, denyList, Option.map_eq_none_iff]
  by_cases allow : site.allowText perm = none
  · by_cases deny : site.denySetting perm = none
    · simp [allow, deny]
    · simp [allow, deny]
  · simp [allow]

end Site

/-! ## Masks -/

def maskOf (perm : DCpermission) (allowed denied : Bool) : PermMask :=
  (if allowed then allowMask perm else 0) ||| (if denied then denyMask perm else 0)

theorem consider_maskOf : ∀ (perm : DCpermission) (denied allowed a d : Bool),
    consider perm denied allowed (maskOf perm a d) =
      maskOf perm (a || (allowed && !(d || denied))) (d || denied) := by
  decide +kernel

theorem maskOf_eq_zero_iff : ∀ {perm : DCpermission} {a d : Bool},
    maskOf perm a d = 0 ↔ a = false ∧ d = false := by
  decide +kernel

theorem maskOf_or_allowMask : ∀ perm : DCpermission,
    maskOf perm false false ||| allowMask perm = maskOf perm true false := by
  decide +kernel

theorem maskOf_or_denyMask : ∀ perm : DCpermission,
    maskOf perm false false ||| denyMask perm = maskOf perm false true := by
  decide +kernel

theorem maskOf_and_denyMask : ∀ {perm : DCpermission} {a d : Bool},
    maskOf perm a d &&& denyMask perm = 0 ↔ d = false := by
  decide +kernel

theorem decodeMask_maskOf : ∀ (perm : DCpermission) (a d : Bool),
    decodeMask perm (maskOf perm a d) = (a && !d) := by
  decide +kernel

theorem maskOf_and_of_ne : ∀ {perm q : DCpermission} {a d : Bool}, q ≠ perm →
    maskOf perm a d &&& allowMask q = 0 ∧ maskOf perm a d &&& denyMask q = 0 := by
  decide +kernel

variable {x y : PermMask}

theorem or_eq_zero_iff : x ||| y = 0 ↔ x = 0 ∧ y = 0 := BitVec.or_eq_zero_iff

theorem and_or_eq_zero_iff {m : PermMask} :
    m &&& (x ||| y) = 0 ↔ m &&& x = 0 ∧ m &&& y = 0 := by
  rw [BitVec.and_or_distrib_left, or_eq_zero_iff]

variable {perm : DCpermission} {old : PermMask} {a d : Bool}

theorem decodeMask_or_right {new : PermMask} (allow : old &&& allowMask perm = 0)
    (deny : old &&& denyMask perm = 0) :
    decodeMask perm (old ||| new) = decodeMask perm new := by
  rw [decodeMask, decodeMask, BitVec.and_or_distrib_right, BitVec.and_or_distrib_right, allow, deny]
  simp

theorem decodeMask_or_same (same : decodeMask perm old = (a && !d))
    (known : ¬ old &&& (allowMask perm ||| denyMask perm) = 0) :
    decodeMask perm (old ||| maskOf perm a d) = decodeMask perm old := by
  rw [and_or_eq_zero_iff] at known
  by_cases deny : old &&& denyMask perm = 0
  · have allow : ¬ old &&& allowMask perm = 0 := fun zero => known ⟨zero, deny⟩
    have answer : decodeMask perm old = true := by
      rw [decodeMask, if_neg (not_not.mpr deny), decide_eq_true allow]
    have notDenied : d = false := by
      rw [answer] at same
      cases d
      · rfl
      · simp at same
    rw [answer, decodeMask, BitVec.and_or_distrib_right, BitVec.and_or_distrib_right, if_neg,
      decide_eq_true]
    · exact fun zero => allow (or_eq_zero_iff.mp zero).1
    · exact not_not.mpr (or_eq_zero_iff.mpr ⟨deny, maskOf_and_denyMask.mpr notDenied⟩)
  · rw [decodeMask, decodeMask, BitVec.and_or_distrib_right, if_pos, if_pos deny]
    exact fun zero => deny (or_eq_zero_iff.mp zero).1

theorem foldl_consider (perm : DCpermission) (denied allowed : String → Bool) (hosts : List String)
    (a d : Bool) :
    ∃ a', hosts.foldl (fun mask host => consider perm (denied host) (allowed host) mask)
        (maskOf perm a d) = maskOf perm a' (d || hosts.any denied) ∧
      ((d || hosts.any denied) = false → a' = (a || hosts.any allowed)) := by
  induction hosts generalizing a d with
  | nil => exact ⟨a, by simp, by simp⟩
  | cons host hosts ih =>
    rw [List.foldl_cons, consider_maskOf]
    obtain ⟨a', folded, exact'⟩ :=
        ih (a || (allowed host && !(d || denied host))) (d || denied host)
    refine ⟨a', ?_, fun none => ?_⟩
    · rw [folded, List.any_cons, Bool.or_assoc]
    · rw [List.any_cons, ← Bool.or_assoc] at none
      rw [exact' none]
      have here : (d || denied host) = false := (Bool.or_eq_false_iff.mp none).1
      rw [here, List.any_cons]
      simp [Bool.or_assoc]

/-- The lists of a level set its deny bit exactly when the request matches the deny
list; otherwise its allow bit tells whether it matches the allow list. -/
theorem Site.matchMask_eq (site : Site) (perm : DCpermission) (addr : InAddr) (user : String) :
    ∃ a, site.matchMask (site.permTypeEntry perm) perm addr user =
        maskOf perm a (site.matchesList (site.denyList perm) addr user) ∧
      (site.matchesList (site.denyList perm) addr user = false →
        a = site.matchesList (site.allowList perm) addr user) := by
  have start : (0 : PermMask) = maskOf perm false false := by simp [maskOf]
  have deny : (site.permTypeEntry perm).denyUsers = site.denyList perm := rfl
  have allow : (site.permTypeEntry perm).allowUsers = site.allowList perm := rfl
  rw [matchMask, start, consider_maskOf, deny, allow]
  simp only [matchesList, Bool.false_or]
  generalize site.lookupUserIp (site.denyList perm) user addr.ntoa = ipDenied
  generalize site.lookupUserIp (site.allowList perm) user addr.ntoa = ipAllowed
  cases ipDenied with
  | true =>
    -- a denied address needs no host names
    refine ⟨false, ?_, by simp⟩
    have skip : ¬ (maskOf perm (ipAllowed && !true) true &&& (allowMask perm ||| denyMask perm) =
          maskOf perm false false ∨
        maskOf perm (ipAllowed && !true) true &&& denyMask perm = maskOf perm false false) := by
      rw [← start, and_or_eq_zero_iff, maskOf_and_denyMask]
      simp
    rw [if_neg skip]
    simp
  | false =>
    have scan : maskOf perm (ipAllowed && !false) false &&& (allowMask perm ||| denyMask perm) =
          maskOf perm false false ∨
        maskOf perm (ipAllowed && !false) false &&& denyMask perm = maskOf perm false false := by
      rw [← start, maskOf_and_denyMask]
      exact Or.inr rfl
    rw [if_pos scan]
    obtain ⟨a, folded, exact'⟩ := foldl_consider perm
      (fun host => site.lookupUserHost (site.denyList perm) user host)
      (fun host => site.lookupUserHost (site.allowList perm) user host)
      (site.sinToHostname addr) (ipAllowed && !false) false
    refine ⟨a, folded, fun none => ?_⟩
    rw [exact' none]
    simp

/-! ## The cache -/

namespace IpVerify
variable {site : Site} {s : IpVerify}

def Agrees (site : Site) (addr : InAddr) (user : String) (mask : PermMask) : Prop :=
  ∀ perm, mask &&& (allowMask perm ||| denyMask perm) ≠ 0 →
    decodeMask perm mask = site.policy addr user perm

def Sound (site : Site) (addr : InAddr) (table : UserPerm) : Prop :=
  table.Chained ∧ ∀ user mask, table.lookup user = some mask → Agrees site addr user mask

/-- The lists are the configured ones, and the cache holds only answers of the policy. -/
structure Resolved (site : Site) (s : IpVerify) : Prop where
  lists : s.didInit = true → ∀ perm, s.permTypeArray perm = some (site.permTypeEntry perm)
  chained : s.permHashTable.Chained
  sound : ∀ addr table, s.permHashTable.lookup addr = some table → Sound site addr table

theorem Resolved.construct (site : Site) : (construct site).Resolved site where
  lists := fun started => absurd started (by simp [IpVerify.construct])
  chained := HashTable.Chained.create _ _
  sound := fun addr table found => by
    rw [IpVerify.construct, HashTable.lookup_create] at found
    cases found

theorem Resolved.init (resolved : s.Resolved site) : (s.init site).Resolved site where
  lists := fun _ _ => rfl
  chained := resolved.chained.clear.1
  sound := fun addr table found => by
    rw [IpVerify.init, resolved.chained.clear.2 addr] at found
    cases found

theorem Resolved.of_sameRules {s' : IpVerify} (resolved : s.Resolved site)
    (same : SameRules s s') : s'.Resolved site where
  lists := by rw [same.1, same.2.1]; exact resolved.lists
  chained := by rw [same.2.2]; exact resolved.chained
  sound := by rw [same.2.2]; exact resolved.sound

variable {addr : InAddr} {user : String} {holes : Holes}

theorem agrees_or (before : Agrees site addr user old)
    (answer : (a && !d) = site.policy addr user perm) :
    Agrees site addr user (old ||| maskOf perm a d) := by
  intro q known
  by_cases here : q = perm
  · subst here
    by_cases unknown : old &&& (allowMask q ||| denyMask q) = 0
    · obtain ⟨allow, deny⟩ := and_or_eq_zero_iff.mp unknown
      rw [decodeMask_or_right allow deny, decodeMask_maskOf]
      exact answer
    · -- a mask that knows the level already gives the same answer
      have agreed := before q unknown
      rw [decodeMask_or_same (agreed.trans answer.symm) unknown, agreed]
  · obtain ⟨allow, deny⟩ := maskOf_and_of_ne (a := a) (d := d) here
    rw [BitVec.or_comm, decodeMask_or_right allow deny]
    refine before q fun zero => known ?_
    rw [BitVec.and_or_distrib_right, zero, and_or_eq_zero_iff.mpr ⟨allow, deny⟩]
    exact BitVec.or_self

theorem addUserMask_sound {table : UserPerm} (sound : Sound site addr table)
    (answer : (a && !d) = site.policy addr user perm) :
    Sound site addr (addUserMask table user (maskOf perm a d)) := by
  obtain ⟨chained, agrees⟩ := sound
  rw [addUserMask]
  cases found : table.lookup user with
  | none =>
    obtain ⟨-, chained', lookups⟩ := chained.insert_absent found (0 ||| maskOf perm a d)
    refine ⟨chained', fun user' mask present => ?_⟩
    simp only [lookups user'] at present
    split at present
    · next here =>
        cases present
        subst here
        exact agrees_or (fun q known => absurd BitVec.zero_and known) answer
    · exact agrees user' mask present
  | some old =>
    obtain ⟨chained₁, lookups₁⟩ := chained.remove user
    have absent : (table.remove user).2.lookup user = none := by rw [lookups₁, if_pos rfl]
    obtain ⟨-, chained₂, lookups₂⟩ := chained₁.insert_absent absent (old ||| maskOf perm a d)
    refine ⟨chained₂, fun user' mask present => ?_⟩
    simp only [lookups₂ user', lookups₁ user'] at present
    split at present
    · next here =>
        cases present
        subst here
        exact agrees_or (agrees user' old found) answer
    · exact agrees user' mask present

theorem Resolved.lookupCachedVerifyResult (resolved : s.Resolved site) {mask : PermMask}
    (cached : s.lookupCachedVerifyResult perm addr user = some mask) :
    decodeMask perm mask = site.policy addr user perm := by
  rw [IpVerify.lookupCachedVerifyResult] at cached
  cases found : s.permHashTable.lookup addr with
  | none =>
    rw [found] at cached
    cases cached
  | some table =>
    simp only [found] at cached
    cases present : table.lookup user with
    | none =>
      rw [present] at cached
      cases cached
    | some stored =>
      simp only [present] at cached
      split at cached
      · next known =>
          cases cached
          exact (resolved.sound addr table found).2 user _ present perm known
      · cases cached

theorem Resolved.addHashEntry (resolved : s.Resolved site)
    (answer : (a && !d) = site.policy addr user perm) :
    (s.addHashEntry site addr user (maskOf perm a d)).Resolved site := by
  rw [IpVerify.addHashEntry]
  cases found : s.permHashTable.lookup addr with
  | some table =>
    have sound := addUserMask_sound (resolved.sound addr table found) answer
    refine ⟨resolved.lists, resolved.chained.assign _ _, fun addr' table' present => ?_⟩
    simp only [HashTable.lookup_assign, found] at present
    split at present
    · next here =>
        cases present
        subst here
        exact sound
    · exact resolved.sound addr' table' present
  | none =>
    have empty : Sound site addr (.create site.computeHostHash .allowDuplicateKeys) := by
      refine ⟨HashTable.Chained.create _ _, fun user mask present => ?_⟩
      rw [HashTable.lookup_create] at present
      cases present
    have sound := addUserMask_sound empty answer
    obtain ⟨success, chained, lookups⟩ := resolved.chained.insert_absent found
      (addUserMask (.create site.computeHostHash .allowDuplicateKeys) user (maskOf perm a d))
    simp only
    generalize s.permHashTable.insert addr _ = result at success chained lookups ⊢
    obtain ⟨ok, table⟩ := result
    cases success
    refine ⟨resolved.lists, chained, fun addr' table' present => ?_⟩
    simp only [lookups addr'] at present
    split at present
    · next here =>
        cases present
        subst here
        exact sound
    · exact resolved.sound addr' table' present

theorem addHashEntry_punchedHoleArray (s : IpVerify) (site : Site) (addr : InAddr) (user : String)
    (mask : PermMask) :
    (s.addHashEntry site addr user mask).punchedHoleArray = s.punchedHoleArray := by
  rw [addHashEntry]
  split
  · rfl
  · simp only
    split <;> rfl

theorem addHashEntry_didInit (s : IpVerify) (site : Site) (addr : InAddr) (user : String)
    (mask : PermMask) : (s.addHashEntry site addr user mask).didInit = s.didInit := by
  rw [addHashEntry]
  split
  · rfl
  · simp only
    split <;> rfl

/-! ## Answers -/

def Answers (site : Site) (s : IpVerify) (result : Option (Bool × IpVerify)) (answer : Bool) :
    Prop :=
  ∃ s', result = some (answer, s') ∧ s'.Resolved site ∧ s'.didInit = true ∧
    s'.punchedHoleArray = s.punchedHoleArray

theorem Resolved.conclude (resolved : s.Resolved site) (started : s.didInit = true)
    (answer : (a && !d) = site.policy addr user perm) :
    Answers site s (some (s.conclude site perm addr user (maskOf perm a d)))
      (site.policy addr user perm) := by
  refine ⟨_, ?_, resolved.addHashEntry answer, ?_, addHashEntry_punchedHoleArray s _ _ _ _⟩
  · rw [IpVerify.conclude, decodeMask_maskOf, answer]
  · rw [addHashEntry_didInit, started]

variable {verify : IpVerify → DCpermission → Option (Bool × IpVerify)}

theorem anyParent_answers {parents : List DCpermission}
    {holes : DCpermission → Option HolePunchTable}
    (each : ∀ parent ∈ parents, ∀ s : IpVerify, s.Resolved site → s.didInit = true →
      s.punchedHoleArray = holes →
      Answers site s (verify s parent) (site.policy addr user parent)) (resolved : s.Resolved site)
    (started : s.didInit = true) (unchanged : s.punchedHoleArray = holes) :
    Answers site s (anyParent verify parents s)
      (parents.any fun parent => site.policy addr user parent) := by
  induction parents generalizing s with
  | nil => exact ⟨s, rfl, resolved, started, rfl⟩
  | cons parent parents ih =>
    obtain ⟨s₁, answered, resolved₁, started₁, same₁⟩ :=
      each parent List.mem_cons_self s resolved started unchanged
    rw [List.any_cons]
    cases allowed : site.policy addr user parent with
    | true =>
      rw [allowed] at answered
      refine ⟨s₁, ?_, resolved₁, started₁, same₁⟩
      simp only [anyParent, answered, Bool.true_or]
    | false =>
      rw [allowed] at answered
      obtain ⟨s₂, rest, resolved₂, started₂, same₂⟩ :=
        ih (fun other member => each other (List.mem_cons_of_mem _ member)) resolved₁ started₁
          (same₁.trans unchanged)
      refine ⟨s₂, ?_, resolved₂, started₂, same₂.trans same₁⟩
      simp only [anyParent, answered, rest, Bool.false_or]

/-- The address, the host names and then the parents decide as the policy does, and
the answer that is cached is that of the policy. -/
theorem resolve_answers (lists : ¬ (site.allowList perm = none ∧ site.denyList perm = none))
    (resolved : s.Resolved site) (started : s.didInit = true)
    (each : ∀ parent ∈ perm.getPermsIAmDirectlyImpliedBy, ∀ t : IpVerify, t.Resolved site →
      t.didInit = true → t.punchedHoleArray = s.punchedHoleArray →
      Answers site t (verify t parent) (site.policy addr user parent)) :
    Answers site s (s.resolve site verify (site.permTypeEntry perm) perm addr user)
      (site.policy addr user perm) := by
  obtain ⟨a, mask, allowed⟩ := site.matchMask_eq perm addr user
  have behavior := site.behavior_permTypeEntry perm
  rw [if_neg lists] at behavior
  rw [resolve, mask]
  cases denied : site.matchesList (site.denyList perm) addr user with
  | true =>
    have answer : (a && !true) = site.policy addr user perm := by
      rw [Site.policy, if_neg lists, denied]
      simp
    rw [if_pos (maskOf_eq_zero_iff.not.mpr (by simp))]
    exact resolved.conclude started answer
  | false =>
    obtain rfl := allowed denied
    cases allowed : site.matchesList (site.allowList perm) addr user with
    | true =>
      have answer : (true && !false) = site.policy addr user perm := by
        rw [Site.policy, if_neg lists, denied, allowed]
        simp
      rw [if_pos (maskOf_eq_zero_iff.not.mpr (by simp))]
      exact resolved.conclude started answer
    | false =>
      rw [if_neg (not_not.mpr (maskOf_eq_zero_iff.mpr ⟨rfl, rfl⟩)), maskOf_or_allowMask]
      by_cases onlyDenies : site.allowList perm = none ∧ perm ≠ .config
      · have answer : (true && !false) = site.policy addr user perm := by
          rw [Site.policy, if_neg lists, denied, allowed, if_pos onlyDenies]
          simp
        rw [if_pos (behavior.trans (if_pos onlyDenies))]
        exact resolved.conclude started answer
      · obtain ⟨s₁, answered, resolved₁, started₁, same₁⟩ :=
          anyParent_answers each resolved started rfl
        rw [if_neg (by rw [behavior, if_neg onlyDenies]; decide), answered, Option.map_some]
        have policy := site.policy_of_unmatched lists denied allowed onlyDenies
        rw [← policy]
        have decided : (maskOf perm false false |||
            if site.policy addr user perm = true then allowMask perm else denyMask perm) =
            maskOf perm (site.policy addr user perm) (!site.policy addr user perm) := by
          cases site.policy addr user perm
          · exact maskOf_or_denyMask perm
          · exact maskOf_or_allowMask perm
        simp only [decided]
        have answer : (site.policy addr user perm && !(!site.policy addr user perm)) =
            site.policy addr user perm := by simp
        obtain ⟨s₂, concluded, resolved₂, started₂, same₂⟩ :=
          resolved₁.conclude started₁ answer
        exact ⟨s₂, concluded, resolved₂, started₂, same₂.trans same₁⟩

/-- `Verify` answers from the holes and the policy, whatever the cache holds. -/
theorem verify_answers {fuel : Nat} {user : Option String} (enough : perm.rank < fuel)
    (resolved : s.Resolved site) (tracks : s.Tracks holes.count) :
    Answers site s (s.verify site fuel perm addr user)
      (decide (perm = .allow) || s.holeFound perm addr user ||
        site.policy addr (who user) perm) := by
  induction fuel generalizing s perm with
  | zero => exact absurd enough (Nat.not_lt_zero _)
  | succ fuel ih =>
    rw [verify]
    -- the object after a first call has been initialised
    obtain ⟨s₁, started, resolved₁, same₁, begun⟩ : ∃ s₁ : IpVerify, s₁.didInit = true ∧
        s₁.Resolved site ∧ s₁.punchedHoleArray = s.punchedHoleArray ∧
        (if s.didInit = true then s else s.init site) = s₁ := by
      by_cases started : s.didInit = true
      · exact ⟨s, started, resolved, rfl, if_pos started⟩
      · exact ⟨s.init site, rfl, resolved.init, rfl, if_neg started⟩
    simp only [begun]
    have sameHole : ∀ p, s₁.holeFound p addr user = s.holeFound p addr user := by
      intro p
      rw [holeFound, holeFound, same₁]
    have stay : ∀ answer, Answers site s (some (answer, s₁)) answer := fun answer =>
      ⟨s₁, rfl, resolved₁, started, same₁⟩
    by_cases free : perm = .allow
    · rw [if_pos free]
      simpa [free] using stay true
    rw [if_neg free, resolved₁.lists started perm, decide_eq_false free, Bool.false_or]
    simp only
    by_cases hole : s₁.holeFound perm addr user = true
    · rw [if_pos hole, ← sameHole, hole]
      exact stay true
    have noHole : s.holeFound perm addr user = false := by
      rw [← sameHole]
      exact eq_false_of_ne_true hole
    rw [if_neg hole, noHole, Bool.false_or]
    have behavior := site.behavior_permTypeEntry perm
    by_cases noLists : site.allowList perm = none ∧ site.denyList perm = none
    · rw [if_pos noLists] at behavior
      by_cases config : perm = .config
      · rw [if_pos config] at behavior
        rw [behavior, if_neg (by decide), if_pos rfl, Site.policy, if_pos noLists]
        simpa [config] using stay false
      · rw [if_neg config] at behavior
        rw [behavior, if_pos rfl, Site.policy, if_pos noLists]
        simpa [config] using stay true
    rw [if_neg noLists] at behavior
    have notAllow : (site.permTypeEntry perm).behavior ≠ .allow := by
      rw [behavior]
      split <;> decide
    have notDeny : (site.permTypeEntry perm).behavior ≠ .deny := by
      rw [behavior]
      split <;> decide
    rw [if_neg notAllow, if_neg notDeny]
    cases cached : s₁.lookupCachedVerifyResult perm addr (who user) with
    | some mask =>
      simp only
      rw [resolved₁.lookupCachedVerifyResult cached]
      exact stay _
    | none =>
      obtain ⟨s₂, answered, resolved₂, started₂, same₂⟩ :=
        resolve_answers noLists resolved₁ started fun parent member t resolvedT _ sameT => by
          have higher := DCpermission.rank_of_mem_getPermsIAmDirectlyImpliedBy member
          have tracksT : t.Tracks holes.count := by
            rw [Tracks, sameT, same₁]
            exact tracks
          have shut : t.holeFound parent addr user = false := by
            refine eq_false_of_ne_true fun found => hole ?_
            have below := tracksT.holeFound_of_parent member found
            rwa [holeFound, sameT, ← holeFound] at below
          have answer := ih (Nat.lt_of_lt_of_le higher (Nat.le_of_lt_succ enough)) resolvedT
            tracksT
          have notAllow := DCpermission.ne_allow_of_mem_getPermsIAmDirectlyImpliedBy member
          rwa [shut, decide_eq_false notAllow, Bool.false_or, Bool.false_or] at answer
      exact ⟨s₂, answered, resolved₂, started₂, same₂.trans same₁⟩

/-! ## Runs -/

/-- The cache is sound, and the hole tables count the holes that are open. -/
def Implements (site : Site) (holes : Holes) (s : IpVerify) : Prop :=
  s.Resolved site ∧ s.Tracks holes.count

theorem Implements.construct (site : Site) : (construct site).Implements site [] :=
  ⟨.construct site, fun _ _ => rfl⟩

theorem Implements.step (implements : s.Implements site holes) {call : Call}
    (matched : ∀ perm id, call = .fillHole perm id → (perm, id) ∈ holes) :
    ∃ s', s.step site call = some s' ∧ s'.Implements site (holes.after call) := by
  obtain ⟨resolved, tracks⟩ := implements
  cases call with
  | verify perm addr user =>
    obtain ⟨s', answered, resolved', -, same⟩ :=
      verify_answers (perm.rank_lt_lastPerm) resolved tracks
    refine ⟨s', by rw [IpVerify.step, answered]; rfl, resolved', ?_⟩
    rw [Tracks, same]
    exact tracks
  | punchHole perm id =>
    obtain ⟨s', punched, same, tracks'⟩ :=
      punchHole_tracks site id (length_lowerLevels_lt_lastPerm perm) tracks
    refine ⟨s', punched, resolved.of_sameRules same, tracks'.congr fun q i => ?_⟩
    simp only [Holes.after, Holes.count_cons, @eq_comm _ i id, Nat.add_comm]
  | fillHole perm id =>
    have visited := Holes.count_erase (matched perm id rfl)
    obtain ⟨s', filled, same, tracks'⟩ :=
      fillHole_tracks (length_lowerLevels_lt_lastPerm perm) tracks fun q => by
        rw [visited, if_pos rfl]
        exact Nat.le_add_right _ _
    refine ⟨s', by rw [IpVerify.step, filled]; rfl, resolved.of_sameRules same,
      tracks'.congr fun q i => ?_⟩
    simp only [Holes.after, visited, @eq_comm _ i id, Nat.add_sub_cancel_left]

theorem Implements.run (implements : s.Implements site holes) {calls : List Call}
    (balanced : holes.Balanced calls) :
    ∃ s', execute (IpVerify.step site) s calls = some s' ∧
      s'.Implements site (calls.foldl Holes.after holes) := by
  induction calls generalizing s holes with
  | nil => exact ⟨s, rfl, implements⟩
  | cons call calls ih =>
    obtain ⟨s₁, taken, implements₁⟩ := implements.step balanced.1
    obtain ⟨s₂, rest, implements₂⟩ := ih implements₁ balanced.2
    exact ⟨s₂, by rw [execute, taken]; exact rest, implements₂⟩

end IpVerify

theorem Holes.Balanced.of_append {holes : Holes} {calls rest : List Call}
    (balanced : holes.Balanced (calls ++ rest)) : holes.Balanced calls := by
  induction calls generalizing holes with
  | nil => trivial
  | cons call calls ih => exact ⟨balanced.1, ih balanced.2⟩

def oneHostSite : Site where
  allowSetting := fun _ => some "10.0.0.1"
  denySetting := fun _ => none
  splitEntries := fun list => [(list, "*")]
  expandHostAddresses := fun host => [host]
  matchesWithnetwork := fun entry ip => entry == ip
  matchesAnycaseWithwildcard := fun pattern string => pattern == "*" || pattern == string
  sinToHostname := fun _ => []
  computeHostHash := String.length
  computePermHash := fun addr => addr.d.toNat

def holeCalls : List Call :=
  [.punchHole .daemon "10.0.0.2", .verify .read ⟨10, 0, 0, 2⟩ none,
    .fillHole .daemon "10.0.0.2", .verify .read ⟨10, 0, 0, 2⟩ none]

theorem holeCalls_balanced : Holes.Balanced [] holeCalls := by
  simp [holeCalls, Holes.Balanced, Holes.after]

example : ((execute (IpVerify.step oneHostSite) (.construct oneHostSite) (holeCalls.take 3)).bind
    fun s => (s.verify oneHostSite DCpermission.lastPerm .read ⟨10, 0, 0, 2⟩ none).map Prod.fst) =
      some false := by decide +kernel

end Condor.Authorization
