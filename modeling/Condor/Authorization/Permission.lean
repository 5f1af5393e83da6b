import Mathlib.Data.Fintype.Defs
import Mathlib.Logic.Relation

/-! `condor_perms.h`: the levels and `DCpermissionHierarchy`, coded there twice: the levels a level
implies, and the levels that directly imply it. -/
namespace Condor.Authorization

inductive DCpermission where
  | allow
  | read
  | write
  | negotiator
  | administrator
  | owner
  | config
  | daemon
  | soap
  | default
  | client
  | advertiseStartd
  | advertiseSchedd
  | advertiseMaster
  deriving DecidableEq, Repr

namespace DCpermission

def value : DCpermission → Nat
  | allow => 0
  | read => 1
  | write => 2
  | negotiator => 3
  | administrator => 4
  | owner => 5
  | config => 6
  | daemon => 7
  | soap => 8
  | default => 9
  | client => 10
  | advertiseStartd => 11
  | advertiseSchedd => 12
  | advertiseMaster => 13

def levels : List DCpermission :=
  [allow, read, write, negotiator, administrator, owner, config, daemon, soap, default, client,
    advertiseStartd, advertiseSchedd, advertiseMaster]

instance : Fintype DCpermission :=
  ⟨⟨levels, by decide⟩, fun p => by cases p <;> decide⟩

def lastPerm : Nat := 14

def nextImplied : DCpermission → Option DCpermission
  | daemon => some write
  | administrator => some write
  | write => some read
  | negotiator => some read
  | config => some read
  | _ => none

/-- The loop that fills `m_implied_perms`, an array of `LAST_PERM` entries and a
terminator, from the last entry on. -/
def impliedFrom : Nat → DCpermission → List DCpermission
  | 0, perm => [perm]
  | room + 1, perm =>
    match perm.nextImplied with
    | some next => perm :: impliedFrom room next
    | none => [perm]

def getImpliedPerms (perm : DCpermission) : List DCpermission := impliedFrom (lastPerm - 1) perm

def getPermsIAmDirectlyImpliedBy : DCpermission → List DCpermission
  | read => [write, negotiator, config]
  | write => [administrator, daemon]
  | _ => []

def Implies : DCpermission → DCpermission → Prop :=
  Relation.ReflTransGen fun p q => p ∈ q.getPermsIAmDirectlyImpliedBy

def rank : DCpermission → Nat
  | read => 2
  | write => 1
  | _ => 0

theorem rank_of_mem_getPermsIAmDirectlyImpliedBy :
    ∀ {p q : DCpermission}, p ∈ q.getPermsIAmDirectlyImpliedBy → p.rank < q.rank := by
  decide +kernel

theorem rank_lt_lastPerm : ∀ p : DCpermission, p.rank < lastPerm := by
  decide

theorem ne_allow_of_mem_getPermsIAmDirectlyImpliedBy :
    ∀ {p q : DCpermission}, p ∈ q.getPermsIAmDirectlyImpliedBy → p ≠ allow := by
  decide +kernel

theorem getImpliedPerms_of_mem_getPermsIAmDirectlyImpliedBy :
    ∀ {p q : DCpermission}, p ∈ q.getPermsIAmDirectlyImpliedBy →
      p.getImpliedPerms = p :: q.getImpliedPerms := by
  decide +kernel

theorem nextImplied_eq_some :
    ∀ {p q : DCpermission}, p.nextImplied = some q → p ∈ q.getPermsIAmDirectlyImpliedBy := by
  decide +kernel

theorem self_mem_impliedFrom (room : Nat) (p : DCpermission) : p ∈ impliedFrom room p := by
  cases room with
  | zero => exact List.mem_singleton_self p
  | succ room =>
    rw [impliedFrom]
    split <;> exact List.mem_cons_self

variable {p q : DCpermission}

theorem implies_of_mem_impliedFrom {room : Nat} (member : q ∈ impliedFrom room p) :
    p.Implies q := by
  induction room generalizing p with
  | zero =>
    cases List.mem_singleton.mp member
    exact .refl
  | succ room ih =>
    rw [impliedFrom] at member
    split at member
    · next next_eq =>
        rcases List.mem_cons.mp member with rfl | later
        · exact .refl
        · exact .head (nextImplied_eq_some next_eq) (ih later)
    · cases List.mem_singleton.mp member
      exact .refl

/-- The downward list of a level holds exactly the levels that the upward lists
make it imply. -/
theorem mem_getImpliedPerms_iff : q ∈ p.getImpliedPerms ↔ p.Implies q := by
  constructor
  · exact implies_of_mem_impliedFrom
  · intro implied
    induction implied using Relation.ReflTransGen.head_induction_on with
    | refl => exact self_mem_impliedFrom _ q
    | head direct _ ih =>
      rw [getImpliedPerms_of_mem_getPermsIAmDirectlyImpliedBy direct]
      exact List.mem_cons_of_mem _ ih

end DCpermission
end Condor.Authorization
