import Condor.GridManager.DCloudJob
import Condor.Lib.Run

/-! Each case of the switch is one function on the world of the job. One execution of the loop body
is a `pass`. Between evaluations the schedd, the GAHP and the resource act on the job; an evaluation
may start at any time. -/
namespace Condor.GridManager

structure PassInput where
  time : Int
  /-- The result of `gahp->Startup()`. -/
  startupOk : Bool
  /-- `num_pending_requests >= max_pending_requests`. -/
  serverFull : Bool
  accepted : Bool
  policy : PolicyAction
  policyReason : String
  /-- The value of the `Rematch` expression, when it has one. -/
  rematchCheck : Option Bool
  /-- The entries of `COLLECTOR_HOST`. -/
  collectors : Option (List String)

def maxSubmitAttempts : Nat := 1

def submitInterval : Int := 300

/-- `GahpClient::getErrorString`. -/
def escapeErrorString (s : String) : String :=
  String.ofList (s.toList.flatMap fun c =>
    if c = '\n' then ['\\', 'n'] else if c = '\r' then ['\\', 'r'] else [c])

def buildInstanceName (j : DCloudJob) (collectors : Option (List String)) : String :=
  let poolName := match collectors with
    | some hosts => ",".intercalate hosts
    | none => "NoPool"
  "Condor_" ++ poolName ++ "_" ++ j.jobAd.stringOf .globalJobId

namespace World

def gahpCall (w : World) (inp : PassInput) (command : Command) (args : List String) :
    GahpClient.Poll × World :=
  let (poll, issued, gahp) := w.gahp.call command args inp.serverFull inp.time
  let w₁ := { w with gahp := gahp }
  let w₂ := if issued then w₁.record (.issued command args w.job.condorState) else w₁
  let w₃ := match poll with
    | .reply sent _ => w₂.record (.answered command sent)
    | .timedOut sent => w₂.record (.timedOut command sent)
    | _ => w₂
  if issued && !inp.serverFull && !inp.accepted then (poll, w₃.except "Bad Request")
  else (poll, w₃)

def noteError (w : World) : Option String → World
  | some message => { w with gahp := { w.gahp with errorString := message } }
  | none => w

def finishCall {α : Type} (timeoutText : String)
    (read : List String → CallResult α × Option String) :
    GahpClient.Poll × World → CallResult α × World
  | (.reply _ argv, w) => ((read argv).1, w.noteError (read argv).2)
  | (.timedOut _, w) => (.timedOut, w.noteError (some timeoutText))
  | (.waiting, w) => (.pending, w)
  | (.notSubmitted, w) => (.notSubmitted, w)

def dcloudFind (w : World) (inp : PassInput) (instanceName : Option String) :
    CallResult (Option String) × World :=
  finishCall "DELTACLOUD_VM_FIND timed out" readFindReply
    (w.gahpCall inp .vmFind [gahpArg w.job.serviceUrl, gahpArg w.job.username,
      gahpArg w.job.password, gahpArg instanceName])

def dcloudSubmit (w : World) (inp : PassInput) : CallResult (List String) × World :=
  finishCall "DELTACLOUD_VM_SUBMIT timed out" (readAttrsReply "DELTACLOUD_VM_SUBMIT")
    (w.gahpCall inp .vmSubmit [gahpArg w.job.serviceUrl, gahpArg w.job.username,
      gahpArg w.job.password, gahpArg w.job.imageId, gahpArg w.job.instanceName,
      gahpArg w.job.realmId, gahpArg w.job.hwpId, gahpArg w.job.hwpMemory, gahpArg w.job.hwpCpu,
      gahpArg w.job.hwpStorage, gahpArg w.job.keyname, gahpArg w.job.userdata])

def actionArgs (j : DCloudJob) (action : String) : List String :=
  [gahpArg j.serviceUrl, gahpArg j.username, gahpArg j.password, gahpArg j.instanceId, action]

def dcloudAction (w : World) (inp : PassInput) (action : String) : CallResult Unit × World :=
  finishCall "DELTACLOUD_VM_ACTION timed out" readActionReply
    (w.gahpCall inp .vmAction (actionArgs w.job action))

def dcloudInfo (w : World) (inp : PassInput) : CallResult (List String) × World :=
  finishCall "DELTACLOUD_VM_INFO timed out" (readAttrsReply "DELTACLOUD_VM_INFO")
    (w.gahpCall inp .vmInfo [gahpArg w.job.serviceUrl, gahpArg w.job.username,
      gahpArg w.job.password, gahpArg w.job.instanceId])

/-- `errorString = gahp->getErrorString()`. -/
def takeErrorString (w : World) : World :=
  w.setJob { w.job with errorString := escapeErrorString w.gahp.errorString }

def cancelSubmit (w : World) : World :=
  { w with resource := (w.resource.cancelSubmit w.job.self).1 }

/-- A name that has not been set, or that was saved while it was NULL. -/
def unnamed (j : DCloudJob) : Bool :=
  decide (j.instanceName = none ∨ j.instanceName = some nullString)

def unsaved (j : DCloudJob) (a : Attr) : Bool :=
  (j.jobAd.getDirtyFlag a).1 && (j.jobAd.getDirtyFlag a).2

def gmInit (w : World) (inp : PassInput) : World :=
  if inp.startupOk then w.goto .start
  else (w.setJob (w.job.assign .holdReason (.string "Failed to start GAHP"))).goto .hold

def gmStart (w : World) : World :=
  let j := { w.job with errorString := "" }
  if unnamed j then (w.setJob j).goto .clearRequest
  else if j.instanceId = none then (w.setJob j).goto .checkVm
  else
    let j₁ := { j with submitLogged := true }
    let j₂ := if j.condorState = .running ∨ j.condorState = .completed then
      { j₁ with executeLogged := true } else j₁
    (w.setJob j₂).goto .submitted

/-- `GM_CHECK_VM`: the find request is made with the instance id, which is NULL here. -/
def gmCheckVm (w : World) (inp : PassInput) : World :=
  match w.dcloudFind inp w.job.instanceId with
  | (.pending, w₁) => w₁
  | (.notSubmitted, w₁) => w₁
  | (.excepted message, w₁) => w₁.except message
  | (.ok (some id), w₁) =>
    if id = "" then w₁.goto .createVm
    else
      let w₂ := w₁.setInstanceId (some id) inp.time
      let w₃ := { w₂ with resource := w₂.resource.alreadySubmitted w₂.job.self }
      (w₃.setJob { w₃.job with probeNow := true }).goto .saveInstanceId
  | (.ok none, w₁) => w₁.goto .createVm
  | (.failed, w₁) => w₁.takeErrorString.goto .hold
  | (.timedOut, w₁) => w₁.takeErrorString.goto .hold

def gmUnsubmitted (w : World) : World :=
  if w.job.condorState.leaving then w.goto .delete else w.goto .saveInstanceName

/-- `GM_SAVE_INSTANCE_NAME`. There is no `break` after the state is set to
`GM_DELETE`, so the rest of the case is executed as well. -/
def gmSaveInstanceName (w : World) (inp : PassInput) : World :=
  let w₁ := if w.job.condorState.leaving then w.goto .delete else w
  match w₁.resource.requestSubmit w₁.job.self with
  | none => w₁.except "SubmitsWanted is not empty and SubmitsAllowed is not full"
  | some (false, r) => { w₁ with resource := r }
  | some (true, r) =>
    let w₂ := { w₁ with resource := r }
    let w₃ := if unnamed w₂.job then
        w₂.setInstanceName (some (buildInstanceName w₂.job inp.collectors)) inp.time
      else w₂
    if unsaved w₃.job .gridJobId then w₃ else w₃.goto .createVm

def instanceCreated (w : World) (attrs : List String) (time : Int) : World :=
  let w₁ := w.processInstanceAttrs attrs time
  if w₁.job.instanceId = none then w₁.except "Assertion ERROR on (m_instanceId)"
  else if w₁.job.remoteJobState = vmStopped then
    (w₁.setJob { w₁.job with createdStopped := true }).goto .startVm
  else w₁.goto .saveInstanceId

/-- `lastSubmitAttempt = time(NULL)`. -/
def submitAttempted (w : World) (time : Int) : World :=
  w.setJob { w.job with lastSubmitAttempt := time }

def submitInstance (w : World) (inp : PassInput) : World :=
  match w.dcloudSubmit inp with
  | (.pending, w₁) => w₁
  | (.notSubmitted, w₁) => w₁
  | (.excepted message, w₁) => w₁.except message
  | (.ok attrs, w₁) => (w₁.submitAttempted inp.time).instanceCreated attrs inp.time
  | (.failed, w₁) => (w₁.submitAttempted inp.time).takeErrorString.goto .hold
  | (.timedOut, w₁) => (w₁.submitAttempted inp.time).takeErrorString.goto .hold

def gmCreateVm (w : World) (now : Int) (inp : PassInput) : World :=
  if maxSubmitAttempts ≤ w.job.numSubmitAttempts then w.goto .hold
  else if w.job.lastSubmitAttempt + submitInterval ≤ now then
    match w.resource.requestSubmit w.job.self with
    | none => w.except "SubmitsWanted is not empty and SubmitsAllowed is not full"
    | some (false, r) =>
      let w₁ := { w with resource := r }
      if w.job.condorState.leaving then w₁.cancelSubmit.goto .stopped else w₁
    | some (true, r) => ({ w with resource := r }).submitInstance inp
  else if w.job.condorState.leaving then w.goto .stopped
  else w

def gmStartVm (w : World) (inp : PassInput) : World :=
  match w.dcloudAction inp "start" with
  | (.pending, w₁) => w₁
  | (.notSubmitted, w₁) => w₁
  | (.excepted message, w₁) => w₁.except message
  | (.ok _, w₁) => w₁.goto .saveInstanceId
  | (.failed, w₁) => w₁.takeErrorString.goto .hold
  | (.timedOut, w₁) => w₁.takeErrorString.goto .hold

def gmSaveInstanceId (w : World) : World :=
  if unsaved w.job .gridJobId then w else w.goto .submitted

def gmSubmitted (w : World) : World :=
  let w₁ :=
    if w.job.createdStopped = false ∧
        (w.job.remoteJobState = vmFinish ∨ w.job.remoteJobState = vmStopped) then
      w.goto .doneSave
    else if w.job.condorState.leaving then w.goto .cancel
    else if w.job.probeNow then w.goto .probeJob
    else w
  w₁.setJob { w₁.job with createdStopped := false }

/-- `JobTerminated` in `GM_DONE_SAVE`, for a job that is not going away. -/
def terminated (w : World) (inp : PassInput) : Option World :=
  if w.job.condorState.leaving then some w
  else (w.job.jobTerminated inp.policy inp.policyReason inp.time).map w.setJob

/-- `SetInstanceId( NULL ); SetInstanceName( NULL )`, when there is an id. -/
def forgetInstance (w : World) (time : Int) : World :=
  if w.job.instanceId = none then w
  else (w.setInstanceId none time).setInstanceName none time

def leaveDoneSave (w : World) (time : Int) : World :=
  let w₁ := w.cancelSubmit
  if w₁.job.condorState = .completed ∨ w₁.job.condorState = .removed then w₁.goto .stopped
  else (w₁.forgetInstance time).goto .clearRequest

def gmDoneSave (w : World) (inp : PassInput) : World :=
  match w.terminated inp with
  | none => w.except "Unknown action in BaseJob::EvalAtExitJobExpr"
  | some w₁ =>
    if w.job.condorState.leaving = false ∧ w₁.job.condorState = .completed ∧
        unsaved w₁.job .jobStatus then w₁
    else w₁.leaveDoneSave inp.time

def takeResubmit (w : World) (inp : PassInput) : World :=
  let rematch := if w.job.wantResubmit || w.job.doResubmit then
    inp.rematchCheck.getD w.job.wantRematch else w.job.wantRematch
  w.setJob { w.job with
    wantRematch := rematch, wantResubmit := false, doResubmit := false, errorString := "" }

/-- `JobIdle`, and `JobEvicted` for a job that was submitted. -/
def idleAgain (w : World) (time : Int) : World :=
  let j := w.job.jobIdle time
  w.setJob (if j.submitLogged then j.jobEvicted time else j)

/-- The attributes by which the schedd finds a new match. -/
def requestRematch (w : World) : World :=
  match w.job.jobAd.lookupBool .jobMatched with
  | none => w
  | some _ => w.setJob ((w.job.assign .jobMatched (.bool false)).assign .currentHosts (.int 0))

def startOver (w : World) (time : Int) : World :=
  let j := if w.job.remoteJobState ≠ "" then
    (({ w.job with remoteJobState := "" }).setRemoteJobStatus none time).2 else w.job
  (w.setJob { j with
    submitLogged := false
    executeLogged := false
    submitFailedLogged := false
    terminateLogged := false
    abortLogged := false
    evictLogged := false }).goto .unsubmitted

def clearRequest (w : World) (inp : PassInput) : World :=
  let w₁ := (((w.takeResubmit inp).cancelSubmit).forgetInstance inp.time).idleAgain inp.time
  if w₁.job.wantRematch then w₁.requestRematch.goto .delete
  else if w₁.job.jobAd.anyDirty then w₁
  else w₁.startOver inp.time

def gmClearRequest (w : World) (inp : PassInput) : World :=
  if w.job.wantRematch then w
  else if w.job.instanceId ≠ none ∧ w.job.condorState ≠ .removed ∧
      w.job.wantResubmit = false ∧ w.job.doResubmit = false then w.goto .hold
  else w.clearRequest inp

def probeFailed (w : World) (now : Int) (inp : PassInput) : World :=
  let w₁ := w.takeErrorString
  if w₁.job.probeErrorTime = 0 then w₁.setJob { w₁.job with probeErrorTime := inp.time }
  else
    let retryTime := (w₁.job.jobAd.lookupInteger .deltacloudRetryTimeout).getD 90
    if retryTime < now - w₁.job.probeErrorTime then w₁.goto .hold else w₁

/-- `lastProbeTime = now`. -/
def probed (w : World) (now : Int) : World := w.setJob { w.job with lastProbeTime := now }

def probeInstance (w : World) (now : Int) (inp : PassInput) : World :=
  match w.dcloudInfo inp with
  | (.pending, w₁) => w₁
  | (.notSubmitted, w₁) => w₁
  | (.excepted message, w₁) => w₁.except message
  | (.ok attrs, w₁) =>
    let w₂ := w₁.probed now
    ((w₂.setJob { w₂.job with probeErrorTime := 0 }).processInstanceAttrs attrs inp.time).goto
      .submitted
  | (.failed, w₁) => (w₁.probed now).probeFailed now inp
  | (.timedOut, w₁) => (w₁.probed now).probeFailed now inp

def gmProbeJob (w : World) (now : Int) (inp : PassInput) : World :=
  let w₁ := w.setJob { w.job with probeNow := false }
  if w₁.job.condorState.leaving then w₁.goto .cancel
  else if now < w₁.job.lastProbeTime + 30 then w₁
  else w₁.probeInstance now inp

def gmCancel (w : World) (inp : PassInput) : World :=
  match w.dcloudAction inp "stop" with
  | (.pending, w₁) => w₁
  | (.notSubmitted, w₁) => w₁
  | (.excepted message, w₁) => w₁.except message
  | (.ok _, w₁) => w₁.goto .stopped
  | (.failed, w₁) => w₁.takeErrorString.goto .hold
  | (.timedOut, w₁) => w₁.takeErrorString.goto .hold

/-- The hold reason of `GM_HOLD`; it is cut at 1023 bytes. -/
def holdReason (j : DCloudJob) : String :=
  let known := j.jobAd.stringOf .holdReason
  if known = "" ∧ j.errorString ≠ "" then String.ofList (j.errorString.toList.take 1023)
  else if known = "" then "Unspecified gridmanager error"
  else String.ofList (known.toList.take 1023)

def gmHold (w : World) (inp : PassInput) : World :=
  if w.job.condorState ≠ .held then
    (w.setJob (w.job.jobHeld (holdReason w.job) inp.time)).goto .delete
  else w.goto .delete

/-- `GM_STOPPED` once the instance is known to be gone or has been destroyed. -/
def instanceGone (w : World) (time : Int) : World :=
  let w₁ := ((w.cancelSubmit).setInstanceId none time).setInstanceName none time
  if w₁.job.condorState = .removed ∨ w₁.job.condorState = .completed then w₁.goto .delete
  else w₁.goto .clearRequest

/-- After the destroy request, whatever its result was, the instance counts as gone. -/
def destroyed (w : World) (time : Int) : World :=
  (w.setJob (w.job.statusUpdate (some vmFinish) time)).instanceGone time

def gmStopped (w : World) (inp : PassInput) : World :=
  if w.job.remoteJobState = vmFinish then w.instanceGone inp.time
  else
    match w.dcloudAction inp "destroy" with
    | (.pending, w₁) => w₁
    | (.notSubmitted, w₁) => w₁
    | (.excepted message, w₁) => w₁.except message
    | (.ok _, w₁) => w₁.destroyed inp.time
    | (.failed, w₁) => w₁.destroyed inp.time
    | (.timedOut, w₁) => w₁.destroyed inp.time

def gmDelete (w : World) : World :=
  match w.job.doneWithJob with
  | some j => w.setJob j
  | none => w.except "BaseJob::DoneWithJob called with unexpected state"

/-- The body of the loop of `doEvaluateState`. -/
def pass (w : World) (now : Int) (inp : PassInput) : World :=
  match w.job.gmState with
  | .init => w.gmInit inp
  | .start => w.gmStart
  | .checkVm => w.gmCheckVm inp
  | .unsubmitted => w.gmUnsubmitted
  | .saveInstanceName => w.gmSaveInstanceName inp
  | .createVm => w.gmCreateVm now inp
  | .startVm => w.gmStartVm inp
  | .saveInstanceId => w.gmSaveInstanceId
  | .submitted => w.gmSubmitted
  | .doneSave => w.gmDoneSave inp
  | .clearRequest => w.gmClearRequest inp
  | .probeJob => w.gmProbeJob now inp
  | .cancel => w.gmCancel inp
  | .hold => w.gmHold inp
  | .stopped => w.gmStopped inp
  | .delete => w.gmDelete

end World
end Condor.GridManager
