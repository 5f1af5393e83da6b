import Mathlib.Logic.Function.Basic
import Mathlib.Data.List.Basic

/-! The attributes that the deltacloud job code uses, each with its value and dirty flag. -/
namespace Condor.GridManager

/-- `proc.h`: the values of `condorState`. -/
inductive JobStatus where
  | idle
  | running
  | removed
  | completed
  | held
  | transferringOutput
  deriving DecidableEq, Repr

/-- The job attributes used by `BaseJob` and `DCloudJob`. -/
inductive Attr where
  | jobStatus
  | enteredCurrentStatus
  | gridResource
  | gridJobId
  | gridJobStatus
  | globalJobId
  | jobManaged
  | jobMatched
  | currentHosts
  | nonessential
  | jobStatusOnRelease
  | holdReason
  | holdReasonCode
  | holdReasonSubCode
  | lastHoldReason
  | releaseReason
  | lastReleaseReason
  | numSystemHolds
  | removeReason
  | shadowBirthdate
  | numJobStarts
  | jobRemoteWallClock
  | jobWallClockCkpt
  | lastRemoteStatusUpdate
  | currentStatusUnknown
  | gridResourceUnavailableTime
  | jobLeaseExpiration
  | lastJobLeaseRenewalFailed
  | onExitBySignal
  | onExitCode
  | onExitSignal
  | deltacloudUsername
  | deltacloudPasswordFile
  | deltacloudImageId
  | deltacloudRealmId
  | deltacloudHardwareProfile
  | deltacloudHardwareProfileMemory
  | deltacloudHardwareProfileCpu
  | deltacloudHardwareProfileStorage
  | deltacloudKeyname
  | deltacloudUserData
  | deltacloudRetryTimeout
  | deltacloudProviderId
  | deltacloudPublicNetworkAddresses
  | deltacloudPrivateNetworkAddresses
  | deltacloudAvailableActions
  deriving DecidableEq, Repr

/-- Literal attribute values; `status` is the integer of a `JobStatus`. -/
inductive AdValue where
  | undefined
  | bool (b : Bool)
  | int (n : Int)
  | status (s : JobStatus)
  | string (s : String)
  deriving DecidableEq, Repr

structure JobAd where
  value : Attr → Option AdValue
  dirty : List Attr

namespace JobAd

def assign (ad : JobAd) (a : Attr) (v : AdValue) : JobAd where
  value := Function.update ad.value a (some v)
  dirty := a :: ad.dirty.filter (· ≠ a)

/-- `SetDirtyFlag( name, false )`. -/
def clean (ad : JobAd) (a : Attr) : JobAd :=
  { ad with dirty := ad.dirty.filter (· ≠ a) }

def clearAllDirtyFlags (ad : JobAd) : JobAd := { ad with dirty := [] }

/-- `GetDirtyFlag`: whether the attribute is in the ad and whether it is dirty. -/
def getDirtyFlag (ad : JobAd) (a : Attr) : Bool × Bool :=
  ((ad.value a).isSome, decide (a ∈ ad.dirty))

/-- Whether `NextDirtyExpr` finds an attribute right after `ResetExpr`. -/
def anyDirty (ad : JobAd) : Bool := !ad.dirty.isEmpty

def lookupString (ad : JobAd) (a : Attr) : Option String :=
  match ad.value a with
  | some (.string s) => some s
  | _ => none

def lookupInteger (ad : JobAd) (a : Attr) : Option Int :=
  match ad.value a with
  | some (.int n) => some n
  | _ => none

def lookupBool (ad : JobAd) (a : Attr) : Option Bool :=
  match ad.value a with
  | some (.bool b) => some b
  | _ => none

def lookupStatus (ad : JobAd) (a : Attr) : Option JobStatus :=
  match ad.value a with
  | some (.status s) => some s
  | _ => none

def stringOf (ad : JobAd) (a : Attr) : String := (ad.lookupString a).getD ""

variable (ad : JobAd)

@[simp] theorem value_assign_self (a : Attr) (v : AdValue) :
    (ad.assign a v).value a = some v := Function.update_self a _ _

variable {a b : Attr}

@[simp] theorem value_assign_of_ne (v : AdValue) (h : b ≠ a) :
    (ad.assign a v).value b = ad.value b := Function.update_of_ne h _ _

@[simp] theorem stringOf_assign_string (a : Attr) (s : String) :
    (ad.assign a (.string s)).stringOf a = s := by
  simp [stringOf, lookupString]

@[simp] theorem stringOf_assign_undefined (a : Attr) :
    (ad.assign a .undefined).stringOf a = "" := by
  simp [stringOf, lookupString]

@[simp] theorem stringOf_assign_of_ne (v : AdValue) (h : b ≠ a) :
    (ad.assign a v).stringOf b = ad.stringOf b := by
  simp only [stringOf, lookupString, value_assign_of_ne ad v h]

end JobAd
end Condor.GridManager
