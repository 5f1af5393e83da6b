import Condor.GridManager.JobAd

/-! `BaseJob` and `DCloudJob` objects as one record, and the status changes that reach the job ad;
`time` is `time(NULL)`. Of the user log only the flags are kept. -/
namespace Condor.GridManager

inductive GMState where
  | init
  | unsubmitted
  | createVm
  | saveInstanceId
  | submitted
  | doneSave
  | cancel
  | stopped
  | delete
  | clearRequest
  | hold
  | probeJob
  | start
  | saveInstanceName
  | checkVm
  | startVm
  deriving DecidableEq, Repr

inductive PolicyAction where
  | undefinedEval
  | staysInQueue
  | removeFromQueue
  | holdInQueue
  | releaseFromHold
  deriving DecidableEq, Repr

structure DCloudJob where
  self : Nat
  jobAd : JobAd
  condorState : JobStatus
  submitLogged : Bool
  executeLogged : Bool
  submitFailedLogged : Bool
  terminateLogged : Bool
  abortLogged : Bool
  evictLogged : Bool
  holdLogged : Bool
  exitStatusKnown : Bool
  deleteFromGridmanager : Bool
  deleteFromSchedd : Bool
  wantResubmit : Bool
  doResubmit : Bool
  wantRematch : Bool
  resourceDown : Bool
  resourceStateKnown : Bool
  resourcePingPending : Bool
  lastRemoteStatusUpdate : Int
  currentStatusUnknown : Bool
  gmState : GMState
  probeNow : Bool
  probeErrorTime : Int
  lastProbeTime : Int
  lastSubmitAttempt : Int
  numSubmitAttempts : Nat
  errorString : String
  remoteJobState : String
  createdStopped : Bool
  serviceUrl : Option String
  instanceId : Option String
  instanceName : Option String
  imageId : Option String
  realmId : Option String
  hwpId : Option String
  hwpMemory : Option String
  hwpCpu : Option String
  hwpStorage : Option String
  username : Option String
  password : Option String
  keyname : Option String
  userdata : Option String

def JobStatus.leaving (s : JobStatus) : Bool := decide (s = .removed ∨ s = .held)

namespace DCloudJob

def assign (j : DCloudJob) (a : Attr) (v : AdValue) : DCloudJob :=
  { j with jobAd := j.jobAd.assign a v }

def enterStatus (j : DCloudJob) (s : JobStatus) (time : Int) : DCloudJob :=
  (({ j with condorState := s }).assign .jobStatus (.status s)).assign .enteredCurrentStatus
    (.int time)

def updateRuntimeStats (j : DCloudJob) (time : Int) : DCloudJob :=
  let shadowBirthdate := (j.jobAd.lookupInteger .shadowBirthdate).getD 0
  if j.condorState = .running ∧ shadowBirthdate = 0 then
    let starts := (j.jobAd.lookupInteger .numJobStarts).getD 0
    (j.assign .shadowBirthdate (.int time)).assign .numJobStarts (.int (starts + 1))
  else if j.condorState ≠ .running ∧ shadowBirthdate ≠ 0 then
    let accum := (j.jobAd.lookupInteger .jobRemoteWallClock).getD 0
    ((j.assign .jobRemoteWallClock (.int (accum + (time - shadowBirthdate)))).assign
      .jobWallClockCkpt .undefined).assign .shadowBirthdate (.int 0)
  else j

def jobRunning (j : DCloudJob) (time : Int) : DCloudJob :=
  if j.condorState ≠ .running ∧ j.condorState ≠ .held ∧ j.condorState ≠ .removed then
    { (j.enterStatus .running time).updateRuntimeStats time with executeLogged := true }
  else j

def jobIdle (j : DCloudJob) (time : Int) : DCloudJob :=
  if j.condorState ≠ .idle ∧ j.condorState ≠ .held ∧ j.condorState ≠ .removed then
    let j' := (j.enterStatus .idle time).updateRuntimeStats time
    if j.condorState = .running then { j' with executeLogged := false } else j'
  else j

/-- `UpdateJobLeaseSent( 0 )`; `TIMER_UNSET` is `-1`. -/
def updateJobLeaseSentZero (j : DCloudJob) : DCloudJob :=
  let old := (j.jobAd.lookupInteger .jobLeaseExpiration).getD (-1)
  if old ≠ -1 then
    (j.assign .jobLeaseExpiration .undefined).assign .lastJobLeaseRenewalFailed .undefined
  else j

def jobEvicted (j : DCloudJob) (time : Int) : DCloudJob :=
  { (j.updateRuntimeStats time).updateJobLeaseSentZero with evictLogged := true }

def jobCompleted (j : DCloudJob) (time : Int) : DCloudJob :=
  if j.condorState ≠ .completed ∧ j.condorState ≠ .held ∧ j.condorState ≠ .removed then
    (j.enterStatus .completed time).updateRuntimeStats time
  else j

def jobRemoved (j : DCloudJob) (reason : String) (time : Int) : DCloudJob :=
  if j.condorState ≠ .removed then
    ((j.enterStatus .removed time).assign .removeReason (.string reason)).updateRuntimeStats time
  else j

/-- The part of `JobHeld` that puts the job on hold. -/
def enterHeld (j : DCloudJob) (reason : String) (time : Int) : DCloudJob :=
  let j₁ := if j.condorState = .removed then j.assign .jobStatusOnRelease (.status .removed) else j
  let j₂ := (((j₁.enterStatus .held time).assign .holdReason (.string reason)).assign
    .holdReasonCode (.int 0)).assign .holdReasonSubCode (.int 0)
  let j₃ := match j₂.jobAd.lookupString .releaseReason with
    | some release => j₂.assign .lastReleaseReason (.string release)
    | none => j₂
  let j₄ := j₃.assign .releaseReason .undefined
  let holds := (j₄.jobAd.lookupInteger .numSystemHolds).getD 0
  { (j₄.assign .numSystemHolds (.int (holds + 1))).updateRuntimeStats time with
    holdLogged := true }

/-- `JobHeld`: a nonessential job is removed instead. -/
def jobHeld (j : DCloudJob) (reason : String) (time : Int) : DCloudJob :=
  if j.jobAd.lookupBool .nonessential = some true then j.jobRemoved reason time
  else if j.condorState ≠ .held then j.enterHeld reason time
  else j

/-- `EvalOnExitJobExpr`, with the action and the firing reason of the user policy.
`none` is the EXCEPT on an unknown action. -/
def evalOnExitJobExpr (j : DCloudJob) (action : PolicyAction) (reason : String) (time : Int) :
    Option DCloudJob :=
  let j₁ :=
    if j.jobAd.lookupInteger .onExitSignal = none ∧ j.jobAd.lookupInteger .onExitCode = none then
      (({ j with exitStatusKnown := false }).assign .onExitBySignal (.bool false)).assign
        .onExitCode (.int 0)
    else { j with exitStatusKnown := true }
  let j₂ :=
    if action ≠ .removeFromQueue then
      ((j₁.assign .onExitBySignal (.bool false)).assign .onExitCode .undefined).assign
        .onExitSignal .undefined
    else j₁
  match action with
  | .undefinedEval => some (j₂.jobHeld reason time)
  | .staysInQueue => some j₂
  | .removeFromQueue => some (j₂.jobCompleted time)
  | .holdInQueue => some (j₂.jobHeld reason time)
  | .releaseFromHold => none

def jobTerminated (j : DCloudJob) (action : PolicyAction) (reason : String) (time : Int) :
    Option DCloudJob :=
  if j.condorState ≠ .held ∧ j.condorState ≠ .completed ∧ j.condorState ≠ .removed then
    j.evalOnExitJobExpr action reason time
  else some j

/-- `DoneWithJob`; `none` is the EXCEPT on an unexpected status. -/
def doneWithJob (j : DCloudJob) : Option DCloudJob :=
  let j' := { j with deleteFromGridmanager := true }
  match j.condorState with
  | .completed =>
    some { j'.assign .jobManaged (.string "ScheddDone") with
      terminateLogged := true, deleteFromSchedd := true }
  | .removed =>
    some { j'.assign .jobManaged (.string "ScheddDone") with
      abortLogged := true, deleteFromSchedd := true }
  | .held => some { j'.assign .jobManaged (.string "Schedd") with holdLogged := true }
  | .idle => some (j'.assign .jobManaged (.string "Schedd"))
  | _ => none

def setGridJobId (j : DCloudJob) (newJobId : String) (time : Int) : DCloudJob :=
  let oldJobId := j.jobAd.stringOf .gridJobId
  if oldJobId = newJobId then j
  else
    let j₁ :=
      if oldJobId ≠ "" then j.assign .gridJobId .undefined
      else ({ j with lastRemoteStatusUpdate := time }).assign .lastRemoteStatusUpdate (.int time)
    if newJobId ≠ "" then j₁.assign .gridJobId (.string newJobId)
    else
      (({ j₁ with lastRemoteStatusUpdate := 0, currentStatusUnknown := false }).assign
        .lastRemoteStatusUpdate (.int 0)).assign .currentStatusUnknown (.bool false)

def noteStatusUpdate (j : DCloudJob) (status : Option String) (time : Int) : DCloudJob :=
  match status with
  | none => j
  | some _ =>
    let j' := ({ j with lastRemoteStatusUpdate := time }).assign .lastRemoteStatusUpdate
      (.int time)
    if j.currentStatusUnknown then
      ({ j' with currentStatusUnknown := false }).assign .currentStatusUnknown (.bool false)
    else j'

/-- `SetRemoteJobStatus`; the flag says whether the status changed. A NULL status
is `none`. -/
def setRemoteJobStatus (j : DCloudJob) (status : Option String) (time : Int) : Bool × DCloudJob :=
  let j₁ := j.noteStatusUpdate status time
  let oldStatus := j₁.jobAd.stringOf .gridJobStatus
  let newStatus := status.getD ""
  if oldStatus = newStatus then (false, j₁)
  else
    let j₂ := if oldStatus ≠ "" then j₁.assign .gridJobStatus .undefined else j₁
    (true, if newStatus ≠ "" then j₂.assign .gridJobStatus (.string newStatus) else j₂)

end DCloudJob
end Condor.GridManager
