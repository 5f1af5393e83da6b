import Condor.Authorization.Permission
import Condor.Utils.HashTable

/-! `IpVerify` of condor_io: an allow and a deny list per level, a cache of answers per address and
user, and reference counted holes in a level and every level it implies. -/
namespace Condor.Authorization
open Condor.Utils

structure InAddr where
  a : UInt8
  b : UInt8
  c : UInt8
  d : UInt8
  deriving DecidableEq, Repr

def InAddr.ntoa (addr : InAddr) : String :=
  addr.a.toNat.repr ++ "." ++ addr.b.toNat.repr ++ "." ++ addr.c.toNat.repr ++ "." ++
    addr.d.toNat.repr

abbrev PermMask := BitVec 64

def allowMask (perm : DCpermission) : PermMask := 1#64 <<< (1 + 2 * perm.value)

def denyMask (perm : DCpermission) : PermMask := 1#64 <<< (2 + 2 * perm.value)

inductive Behavior where
  | useTable
  | onlyDenies
  | allow
  | deny
  deriving DecidableEq, Repr

/-- A host list with the user patterns of each host: `allow_hosts` and `allow_users`,
or `deny_hosts` and `deny_users`. -/
abbrev AccessList := List (String × List String)

structure PermTypeEntry where
  behavior : Behavior
  allowUsers : Option AccessList
  denyUsers : Option AccessList

/-- What authorization reads from outside: the configuration, the name service, and
the string matching of the lists. -/
structure Site where
  /-- `merge` of `ALLOW_%s` and `HOSTALLOW_%s` for a level. -/
  allowSetting : DCpermission → Option String
  /-- `merge` of `DENY_%s` and `HOSTDENY_%s` for a level. -/
  denySetting : DCpermission → Option String
  /-- The entries of a list, split into host and user by `split_entry`. -/
  splitEntries : String → List (String × String)
  expandHostAddresses : String → List String
  matchesWithnetwork : String → String → Bool
  matchesAnycaseWithwildcard : String → String → Bool
  sinToHostname : InAddr → List String
  computeHostHash : String → Nat
  computePermHash : InAddr → Nat

namespace Site
variable (site : Site)

/-- The loop body of `fill_table`: a new host gets a user list, a known one a further user. -/
def addUser (users : AccessList) (host user : String) : AccessList :=
  if users.any (·.1 = host) then
    users.map fun entry => if entry.1 = host then (host, entry.2 ++ [user]) else entry
  else users ++ [(host, [user])]

def fillTable (list : String) : AccessList :=
  (site.splitEntries list).foldl
    (fun users entry => (site.expandHostAddresses entry.1).foldl
      (fun users host => addUser users host entry.2) users) []

/-- The allow list of a level: "*" and "*/*" stand for an undefined list, except at
`CONFIG_PERM`. -/
def allowText (perm : DCpermission) : Option String :=
  match site.allowSetting perm with
  | some text =>
    if perm ≠ .config ∧ (text = "*" ∨ text = "*/*") then none else some text
  | none => none

def permTypeEntry (perm : DCpermission) : PermTypeEntry :=
  let allow := site.allowText perm
  let deny := site.denySetting perm
  { behavior :=
      if allow = none ∧ deny = none then
        if perm = .config then .deny else .allow
      else if deny ≠ none ∧ allow = none ∧ perm ≠ .config then .onlyDenies
      else .useTable
    allowUsers := allow.map site.fillTable
    denyUsers := deny.map site.fillTable }

def lookupUser (users : Option AccessList) (user : String) (hostMatches : String → Bool) : Bool :=
  match users with
  | none => false
  | some users => users.any fun entry =>
    hostMatches entry.1 && entry.2.any (site.matchesAnycaseWithwildcard · user)

def lookupUserIp (users : Option AccessList) (user ip : String) : Bool :=
  site.lookupUser users user (site.matchesWithnetwork · ip)

def lookupUserHost (users : Option AccessList) (user hostname : String) : Bool :=
  site.lookupUser users user (site.matchesAnycaseWithwildcard · hostname)

end Site

/-- One lookup in the deny list and one in the allow list, each skipped when the bits
it could set are decided. -/
def consider (perm : DCpermission) (denied allowed : Bool) (mask : PermMask) : PermMask :=
  let mask := if mask &&& denyMask perm = 0 ∧ denied then mask ||| denyMask perm else mask
  if mask &&& (allowMask perm ||| denyMask perm) = 0 ∧ allowed then mask ||| allowMask perm
  else mask

def Site.matchMask (site : Site) (pentry : PermTypeEntry) (perm : DCpermission) (addr : InAddr)
    (who : String) : PermMask :=
  let ip := addr.ntoa
  let mask := consider perm (site.lookupUserIp pentry.denyUsers who ip)
    (site.lookupUserIp pentry.allowUsers who ip) 0
  let names := if mask &&& (allowMask perm ||| denyMask perm) = 0 ∨ mask &&& denyMask perm = 0 then
    site.sinToHostname addr else []
  names.foldl
    (fun mask host => consider perm (site.lookupUserHost pentry.denyUsers who host)
      (site.lookupUserHost pentry.allowUsers who host) mask) mask

def decodeMask (perm : DCpermission) (mask : PermMask) : Bool :=
  if mask &&& denyMask perm ≠ 0 then false else decide (mask &&& allowMask perm ≠ 0)

def namedUser (user : Option String) : Option String :=
  user.filter (· ≠ "")

/-- `who`: `TotallyWild` stands for a null or empty user. -/
def who (user : Option String) : String := (namedUser user).getD "*"

def holeIds (addr : InAddr) (user : Option String) : List String :=
  match namedUser user with
  | some name => [name, name ++ "/" ++ addr.ntoa, addr.ntoa]
  | none => [addr.ntoa]

/-- `UserPerm_t` and `HolePunchTable_t`. -/
abbrev UserPerm := HashTable String PermMask
abbrev HolePunchTable := HashTable String Nat

structure IpVerify where
  didInit : Bool
  permTypeArray : DCpermission → Option PermTypeEntry
  permHashTable : HashTable InAddr UserPerm
  punchedHoleArray : DCpermission → Option HolePunchTable

namespace IpVerify

def construct (site : Site) : IpVerify where
  didInit := false
  permTypeArray := fun _ => none
  permHashTable := .create site.computePermHash .allowDuplicateKeys
  punchedHoleArray := fun _ => none

def init (s : IpVerify) (site : Site) : IpVerify :=
  { s with
    didInit := true
    permHashTable := s.permHashTable.clear
    permTypeArray := fun perm => some (site.permTypeEntry perm) }

def holeFound (s : IpVerify) (perm : DCpermission) (addr : InAddr) (user : Option String) : Bool :=
  match s.punchedHoleArray perm with
  | none => false
  | some hpt => (holeIds addr user).any fun id => (hpt.lookup id).isSome

/-- `LookupCachedVerifyResult`: a mask counts only if it says something about the level. -/
def lookupCachedVerifyResult (s : IpVerify) (perm : DCpermission) (addr : InAddr) (user : String) :
    Option PermMask :=
  match s.permHashTable.lookup addr with
  | none => none
  | some ptable =>
    match ptable.lookup user with
    | none => none
    | some mask => if mask &&& (allowMask perm ||| denyMask perm) ≠ 0 then some mask else none

def addUserMask (perm : UserPerm) (user : String) (newMask : PermMask) : UserPerm :=
  match perm.lookup user with
  | some oldMask => ((perm.remove user).2.insert user (oldMask ||| newMask)).2
  | none => (perm.insert user (0 ||| newMask)).2

def addHashEntry (s : IpVerify) (site : Site) (addr : InAddr) (user : String)
    (newMask : PermMask) : IpVerify :=
  match s.permHashTable.lookup addr with
  | some perm =>
    { s with permHashTable := s.permHashTable.assign addr (addUserMask perm user newMask) }
  | none =>
    let perm := addUserMask (.create site.computeHostHash .allowDuplicateKeys) user newMask
    match s.permHashTable.insert addr perm with
    | (true, table) => { s with permHashTable := table }
    | (false, _) => s

/-- The loop over the levels that directly imply a level: the first one that is
allowed ends it. -/
def anyParent (verify : IpVerify → DCpermission → Option (Bool × IpVerify)) :
    List DCpermission → IpVerify → Option (Bool × IpVerify)
  | [], s => some (false, s)
  | parent :: parents, s =>
    match verify s parent with
    | none => none
    | some (true, s') => some (true, s')
    | some (false, s') => anyParent verify parents s'

def conclude (s : IpVerify) (site : Site) (perm : DCpermission) (addr : InAddr) (user : String)
    (mask : PermMask) : Bool × IpVerify :=
  (decodeMask perm mask, s.addHashEntry site addr user mask)

/-- `Verify` on a level whose lists decide and for which no answer is cached. -/
def resolve (s : IpVerify) (site : Site)
    (verify : IpVerify → DCpermission → Option (Bool × IpVerify)) (pentry : PermTypeEntry)
      (perm : DCpermission)
    (addr : InAddr) (user : String) : Option (Bool × IpVerify) :=
  let mask := site.matchMask pentry perm addr user
  if mask ≠ 0 then some (s.conclude site perm addr user mask)
  else if pentry.behavior = .onlyDenies then
    some (s.conclude site perm addr user (mask ||| allowMask perm))
  else
    (anyParent verify perm.getPermsIAmDirectlyImpliedBy s).map fun (allowed, s') =>
      s'.conclude site perm addr user (mask ||| if allowed then allowMask perm else denyMask perm)

/-- `Verify`, where `none` is an EXCEPT. The recursion climbs the hierarchy, and the
fuel bounds its depth. -/
def verify (site : Site) : Nat → IpVerify → DCpermission → InAddr → Option String →
    Option (Bool × IpVerify)
  | 0, _, _, _, _ => none
  | fuel + 1, s₀, perm, addr, user =>
    let s := if s₀.didInit then s₀ else s₀.init site
    if perm = .allow then some (true, s)
    else
      match s.permTypeArray perm with
      | none => none
      | some pentry =>
        if s.holeFound perm addr user then some (true, s)
        else if pentry.behavior = .allow then some (true, s)
        else if pentry.behavior = .deny then some (false, s)
        else
          match s.lookupCachedVerifyResult perm addr (who user) with
          | some mask => some (decodeMask perm mask, s)
          | none =>
            s.resolve site (fun s parent => verify site fuel s parent addr user) pentry perm
              addr (who user)

/-- The count of an id and the table without it; `none` is an EXCEPT. -/
def takeCount (table : HolePunchTable) (id : String) : Option (Nat × HolePunchTable) :=
  match table.lookup id with
  | none => some (0, table)
  | some count =>
    match table.remove id with
    | (true, table) => some (count, table)
    | (false, _) => none

def putCount (s : IpVerify) (perm : DCpermission) (table : HolePunchTable) (id : String)
    (count : Nat) : Option IpVerify :=
  match table.insert id count with
  | (true, table) =>
    some { s with punchedHoleArray := Function.update s.punchedHoleArray perm (some table) }
  | (false, _) => none

def punchLevel (s : IpVerify) (site : Site) (perm : DCpermission) (id : String) : Option IpVerify :=
  let table := (s.punchedHoleArray perm).getD (.create site.computeHostHash .rejectDuplicateKeys)
  (takeCount table id).bind fun (count, table) => s.putCount perm table id (count + 1)

def lowerLevels (perm : DCpermission) : List DCpermission :=
  perm.getImpliedPerms.filter (perm ≠ ·)

def punchHole (site : Site) : Nat → IpVerify → DCpermission → String → Option IpVerify
  | 0, _, _, _ => none
  | fuel + 1, s, perm, id =>
    (s.punchLevel site perm id).bind fun s =>
      (lowerLevels perm).foldlM (fun s lower => punchHole site fuel s lower id) s

/-- `FillHole` at one level: `false` when there is no hole. -/
def fillLevel (s : IpVerify) (perm : DCpermission) (id : String) : Option (Bool × IpVerify) :=
  match s.punchedHoleArray perm with
  | none => some (false, s)
  | some table =>
    if table.lookup id = none then some (false, s)
    else
      (takeCount table id).bind fun (count, table) =>
        if count - 1 ≠ 0 then (s.putCount perm table id (count - 1)).map fun s => (true, s)
        else some (true, { s with
          punchedHoleArray := Function.update s.punchedHoleArray perm (some table) })

def fillHole : Nat → IpVerify → DCpermission → String → Option (Bool × IpVerify)
  | 0, _, _, _ => none
  | fuel + 1, s, perm, id =>
    match s.fillLevel perm id with
    | none => none
    | some (false, s) => some (false, s)
    | some (true, s) =>
      ((lowerLevels perm).foldlM
        (fun s lower => (fillHole fuel s lower id).map Prod.snd) s).map fun s => (true, s)

end IpVerify

inductive Call where
  | verify (perm : DCpermission) (addr : InAddr) (user : Option String)
  | punchHole (perm : DCpermission) (id : String)
  | fillHole (perm : DCpermission) (id : String)

def IpVerify.step (site : Site) (s : IpVerify) : Call → Option IpVerify
  | .verify perm addr user => (s.verify site DCpermission.lastPerm perm addr user).map Prod.snd
  | .punchHole perm id => s.punchHole site DCpermission.lastPerm perm id
  | .fillHole perm id => (s.fillHole DCpermission.lastPerm perm id).map Prod.snd

end Condor.Authorization
