import Condor.GridManager.EvaluateState

/-! The steps that touch one job: evaluations of its state, pass by pass, and between them status
changes, schedd updates, GAHP replies, status listings and the other jobs of the resource. -/
namespace Condor.GridManager
open Condor.Lib

/-- `held_removed_update_attrs` of `JobAdUpdateFromSchedd`. -/
def heldRemovedUpdateAttrs : List Attr :=
  [.jobStatus, .holdReason, .holdReasonCode, .holdReasonSubCode, .lastHoldReason, .releaseReason,
    .lastReleaseReason, .enteredCurrentStatus, .numSystemHolds, .removeReason]

/-- An update ad of the schedd for a job whose status changed there: the status and
values of the other `held_removed_update_attrs`. -/
structure ScheddUpdate where
  status : JobStatus
  other : Attr → Option AdValue
  fullAd : Bool

def ScheddUpdate.value (u : ScheddUpdate) (a : Attr) : Option AdValue :=
  if a = .jobStatus then some (.status u.status) else u.other a

namespace JobAd

def putClean (ad : JobAd) (a : Attr) (v : Option AdValue) : JobAd where
  value := Function.update ad.value a v
  dirty := ad.dirty.filter (· ≠ a)

def copyStatusAttrs (ad : JobAd) (u : ScheddUpdate) : JobAd :=
  heldRemovedUpdateAttrs.foldl (fun ad a => ad.putClean a (u.value a)) ad

/-- `MergeClassAds( jobAd, new_ad, true, false )`. -/
def mergeStatusAttrs (ad : JobAd) (u : ScheddUpdate) : JobAd :=
  heldRemovedUpdateAttrs.foldl
    (fun ad a => match u.value a with | some v => ad.putClean a (some v) | none => ad) ad

end JobAd

namespace DCloudJob

/-- `JobAdUpdateFromSchedd` when the job is to be removed or held. -/
def learnLeaving (j : DCloudJob) (u : ScheddUpdate) (time : Int) : DCloudJob :=
  let j₁ := { j with jobAd := j.jobAd.copyStatusAttrs u }
  let j₂ := if u.status = .held then { j₁ with holdLogged := true } else j₁
  let j₃ := if u.status = .removed ∧ j.condorState = .held ∧ .jobStatus ∈ j₂.jobAd.dirty then
    j₂.assign .jobStatusOnRelease (.status .removed) else j₂
  ({ j₃ with condorState := u.status }).updateRuntimeStats time

def jobAdUpdateFromSchedd (j : DCloudJob) (u : ScheddUpdate) (time : Int) : DCloudJob :=
  let merged := if u.fullAd then j else { j with jobAd := j.jobAd.mergeStatusAttrs u }
  if u.status = j.condorState then merged
  else if u.status = .removed ∧ j.condorState = .held ∧
      j.jobAd.lookupStatus .jobStatusOnRelease = some .removed then j
  else if u.status = .removed ∨ u.status = .held then j.learnLeaving u time
  else if u.status = .completed then { j with condorState := u.status }
  else merged

def jobLeaseReceivedExpired (j : DCloudJob) (time : Int) : DCloudJob :=
  ((j.enterStatus .removed time).assign .removeReason
    (.string "Job lease expired")).updateRuntimeStats time

def evalPeriodicJobExpr (j : DCloudJob) (action : PolicyAction) (reason : String) (time : Int) :
    DCloudJob :=
  match action with
  | .undefinedEval => j.jobHeld reason time
  | .staysInQueue => j
  | .removeFromQueue => j.jobRemoved reason time
  | .holdInQueue => j.jobHeld reason time
  | .releaseFromHold => j

/-- `CheckRemoteStatus`; `stale_limit` is 15 minutes. -/
def checkRemoteStatus (j : DCloudJob) (time : Int) : DCloudJob :=
  if j.lastRemoteStatusUpdate = 0 ∨ j.currentStatusUnknown then j
  else if j.lastRemoteStatusUpdate + 15 * 60 < time then
    ({ j with currentStatusUnknown := true }).assign .currentStatusUnknown (.bool true)
  else j

def notifyResourceDown (j : DCloudJob) (time : Int) : DCloudJob :=
  let j₁ := if j.resourceDown then j else j.assign .gridResourceUnavailableTime (.int time)
  { j₁ with resourceStateKnown := true, resourceDown := true, resourcePingPending := false }

def notifyResourceUp (j : DCloudJob) : DCloudJob :=
  let j₁ := if j.resourceDown then j.assign .gridResourceUnavailableTime .undefined else j
  { j₁ with resourceStateKnown := true, resourceDown := false, resourcePingPending := false }

def evaluationMode (j : DCloudJob) : Mode :=
  if j.resourceStateKnown = false ∨ j.resourcePingPending ∨ j.resourceDown then .resultsOnly
  else .normal

end DCloudJob

def BaseResource.reconfig (r : BaseResource) (limit : Nat) : BaseResource :=
  let free := limit - r.submitsAllowed.length
  { jobLimit := limit
    submitsAllowed := r.submitsAllowed ++ r.submitsWanted.take free
    submitsWanted := r.submitsWanted.drop free }

inductive Phase where
  | idle
  | evaluating (now : Int)
  deriving DecidableEq, Repr

structure System where
  world : World
  phase : Phase
  deleted : Bool

inductive Input where
  | evaluate (now : Int)
  | pass (inp : PassInput)
  | scheddStatus (u : ScheddUpdate) (time : Int)
  | leaseExpired (time : Int)
  | periodicPolicy (action : PolicyAction) (reason : String) (time : Int)
  | scheddCommit
  | gahpReply (argv : List String)
  | gahpSends (time : Int)
  | batchStatus (listing : List (String × String)) (time : Int)
  | checkRemoteStatus (time : Int)
  | resourceDown (time : Int)
  | resourceUp
  | otherRequest (other : JobRef)
  | otherCancel (other : JobRef)
  | reconfig (limit : Nat)

namespace World

def withJob (w : World) (f : DCloudJob → DCloudJob) : World := w.setJob (f w.job)

def withGahp (w : World) (f : GahpClient → GahpClient) : World := { w with gahp := f w.gahp }

def enterEvaluation (w : World) : World :=
  w.withGahp fun g => { g with mode := w.job.evaluationMode }

def environment (w : World) : Input → Option World
  | .scheddStatus u time => some (w.withJob (·.jobAdUpdateFromSchedd u time))
  | .leaseExpired time => some (w.withJob (·.jobLeaseReceivedExpired time))
  | .periodicPolicy action reason time =>
    some (w.withJob (·.evalPeriodicJobExpr action reason time))
  | .scheddCommit => some (w.withJob fun j => { j with jobAd := j.jobAd.clearAllDirtyFlags })
  | .gahpReply argv => some (w.withGahp (·.stash argv))
  | .gahpSends time => some (w.withGahp (·.sendWaiting time))
  | .batchStatus listing time => some (w.batchStatus listing time)
  | .checkRemoteStatus time => some (w.withJob (·.checkRemoteStatus time))
  | .resourceDown time => some (w.withJob (·.notifyResourceDown time))
  | .resourceUp => some (w.withJob (·.notifyResourceUp))
  | .otherRequest other =>
    if other = w.job.self then none
    else (w.resource.requestSubmit other).map fun answer => { w with resource := answer.2 }
  | .otherCancel other =>
    if other = w.job.self then none
    else some { w with resource := (w.resource.cancelSubmit other).1 }
  | .reconfig limit => some { w with resource := w.resource.reconfig limit }
  | .evaluate _ => none
  | .pass _ => none

end World

namespace System

/-- One step of the gridmanager. Nothing happens after an EXCEPT or once the job
object is gone, and nothing interrupts an evaluation. -/
def step (s : System) (input : Input) : Option System :=
  if s.deleted ∨ s.world.excepted.isSome then none
  else
    match s.phase, input with
    | .idle, .evaluate now =>
      some { s with world := s.world.enterEvaluation, phase := .evaluating now }
    | .evaluating now, .pass inp =>
      let w := s.world.pass now inp
      some { s with
        world := w
        phase := if w.job.gmState = s.world.job.gmState then .idle else .evaluating now }
    | .idle, .scheddCommit =>
      (s.world.environment .scheddCommit).map fun w =>
        { s with world := w, deleted := w.job.deleteFromGridmanager }
    | .idle, other => (s.world.environment other).map fun w => { s with world := w }
    | _, _ => none

def initial (w : World) : System := ⟨w, .idle, false⟩

abbrev Runs : System → List Input → System → Prop := Run (Takes step)

end System
end Condor.GridManager
