import Condor.GridManager.BaseJob
import Condor.GridManager.BaseResource
import Condor.GridManager.GahpClient
import Condor.Utils.HashTable

/-! `dcloudjob.cpp` without its state machine. The world of one job is the job, its GAHP client, its
resource, the table `JobsByInstanceId` and the history of what the job did, newest first, which is
not in the source. -/
namespace Condor.GridManager
open Condor.Utils (HashTable)

/-- `DCLOUD_VM_STATE_RUNNING`, `DCLOUD_VM_STATE_STOPPED` and `DCLOUD_VM_STATE_FINISH`. -/
def vmRunning : String := "RUNNING"
def vmStopped : String := "STOPPED"
def vmFinish : String := "FINISH"

inductive HistoryEvent where
  | issued (command : Command) (args : List String) (status : JobStatus)
  | answered (command : Command) (args : List String)
  | timedOut (command : Command) (args : List String)
  | reported (status : String)
  /-- The job, which had no instance id, got one. -/
  | created (id : String)
  /-- `SetInstanceId( NULL )` on a job that had this id. -/
  | cleared (id : String)
  deriving DecidableEq, Repr

structure World where
  job : DCloudJob
  gahp : GahpClient
  resource : BaseResource
  jobsByInstanceId : HashTable String JobRef
  history : List HistoryEvent
  excepted : Option String

/-- The key `url#id` of `JobsByInstanceId`; `%s` prints a NULL URL as `(null)`. -/
def instanceKey (serviceUrl : Option String) (instanceId : String) : String :=
  serviceUrl.getD "(null)" ++ "#" ++ instanceId

namespace DCloudJob

def fullJobId (instanceName instanceId : Option String) : String :=
  match instanceName with
  | none => ""
  | some name =>
    if name = "" then ""
    else
      match instanceId with
      | none => "deltacloud " ++ name
      | some id => if id = "" then "deltacloud " ++ name else "deltacloud " ++ name ++ " " ++ id

def setRemoteJobId (j : DCloudJob) (time : Int) : DCloudJob :=
  j.setGridJobId (fullJobId j.instanceName j.instanceId) time

def setInstanceName (j : DCloudJob) (name : Option String) (time : Int) : DCloudJob :=
  ({ j with instanceName := name }).setRemoteJobId time

def rekey (j : DCloudJob) (table : HashTable String JobRef) (id : Option String) :
    HashTable String JobRef :=
  let table₁ := match j.instanceId with
    | some old => (table.remove (instanceKey j.serviceUrl old)).2
    | none => table
  match id with
  | some new => (table₁.insert (instanceKey j.serviceUrl new) j.self).2
  | none => table₁

def setInstanceId (j : DCloudJob) (id : Option String) (time : Int) : DCloudJob :=
  ({ j with instanceId := id }).setRemoteJobId time

/-- `StatusUpdate`; a NULL status is `none`. -/
def statusUpdate (j : DCloudJob) (status : Option String) (time : Int) : DCloudJob :=
  match status with
  | none => { j with probeNow := true }
  | some new =>
    match j.setRemoteJobStatus (some new) time with
    | (false, j') => j'
    | (true, j') =>
      let j'' :=
        if new.toList.map Char.toUpper = vmRunning.toList then j'.jobRunning time else j'
      { j'' with remoteJobState := new, probeNow := true }

end DCloudJob

/-- The rest of a line after a tag such as `id=`, when the line starts with it. -/
def afterTag (tag line : String) : Option String :=
  if tag.toList.isPrefixOf line.toList then
    some (String.ofList (line.toList.drop tag.toList.length))
  else none

namespace World

def record (w : World) (e : HistoryEvent) : World := { w with history := e :: w.history }

def setJob (w : World) (j : DCloudJob) : World := { w with job := j }

def except (w : World) (message : String) : World := { w with excepted := some message }

/-- `gmState = state`. -/
def goto (w : World) (state : GMState) : World := { w with job := { w.job with gmState := state } }

/-- What the history says about `SetInstanceId`. -/
def noteInstanceId (w : World) (id : Option String) : World :=
  match w.job.instanceId, id with
  | some old, none => w.record (.cleared old)
  | none, some new => w.record (.created new)
  | _, _ => w

def setInstanceId (w : World) (id : Option String) (time : Int) : World :=
  let w' := w.noteInstanceId id
  { w' with
    job := w.job.setInstanceId id time
    jobsByInstanceId := w.job.rekey w.jobsByInstanceId id }

def setInstanceName (w : World) (name : Option String) (time : Int) : World :=
  w.setJob (w.job.setInstanceName name time)

/-- The body of the loop of `ProcessInstanceAttrs`, with `new_status`. -/
def processLine (time : Int) (acc : World × Option String) (line : String) :
    World × Option String :=
  let (w, newStatus) := acc
  match afterTag "state=" line with
  | some status => (w, some status)
  | none =>
    match afterTag "id=" line with
    | some id =>
      let w' := w.setInstanceId (some id) time
      (w'.setJob (w'.job.assign .deltacloudProviderId (.string id)), newStatus)
    | none =>
      match afterTag "public_addresses=" line with
      | some addresses =>
        (w.setJob (w.job.assign .deltacloudPublicNetworkAddresses (.string addresses)),
          newStatus)
      | none =>
        match afterTag "private_addresses=" line with
        | some addresses =>
          (w.setJob (w.job.assign .deltacloudPrivateNetworkAddresses (.string addresses)),
            newStatus)
        | none =>
          match afterTag "actions=" line with
          | some actions =>
            (w.setJob (w.job.assign .deltacloudAvailableActions (.string actions)),
              newStatus)
          | none => (w, newStatus)

/-- A state that the cloud reports reaches `StatusUpdate`. -/
def report (w : World) (status : String) (time : Int) : World :=
  (w.record (.reported status)).setJob (w.job.statusUpdate (some status) time)

/-- `ProcessInstanceAttrs`: everything else is read before the status is updated, and
no attributes at all mean that the instance is gone. -/
def processInstanceAttrs (w : World) (attrs : List String) (time : Int) : World :=
  let (w₁, newStatus) := attrs.foldl (processLine time) (w, none)
  let w₂ := match newStatus with
    | some status => w₁.report status time
    | none => w₁
  if attrs.isEmpty then w₂.report vmFinish time else w₂

/-- The entry of `StartBatchStatus` for this job: the state listed for its instance, or
nothing when the listing does not have it. A RUNNING instance of a job that is not
known to run is probed instead. -/
def batchStatus (w : World) (listing : List (String × String)) (time : Int) : World :=
  match w.job.instanceId with
  | none => w.setJob (w.job.statusUpdate none time)
  | some id =>
    match listing.find? (fun entry => entry.1 = id) with
    | none => w.setJob (w.job.statusUpdate none time)
    | some (_, status) =>
      if status.toList.map Char.toUpper = vmRunning.toList ∧ w.job.condorState ≠ .running then
        w.setJob { w.job with probeNow := true }
      else w.report status time

end World

/-- `MyString::GetNextToken( " ", false )` until it returns NULL. -/
def blankTokens (s : String) : List String :=
  if s = "" then [] else (s.toList.splitOn ' ').map String.ofList

def isDeltacloud (token : String) : Bool :=
  decide (token.toList.map Char.toLower = "deltacloud".toList)

/-- The ways the constructor ends at `error_exit`. -/
inductive ConstructError where
  | noGahp
  | gridResourceType
  | gridResourceMissing
  | missing (a : Attr)
  | gridJobIdType
  deriving DecidableEq, Repr

def ConstructError.text : ConstructError → String
  | .noGahp => "DELTACLOUD_GAHP not defined"
  | .gridResourceType => "GridResource not of type deltacloud"
  | .gridResourceMissing => "GridResource is not set in the job ad"
  | .missing .deltacloudUsername => "DeltacloudUsername is not set in the job ad"
  | .missing .deltacloudPasswordFile => "DeltacloudPasswordFile is not set in the job ad"
  | .missing .deltacloudImageId => "DeltacloudImageId is not set in the job ad"
  | .missing _ => ""
  | .gridJobIdType => "GridJobId not of type deltacloud"

namespace DCloudJob

/-- The members as `BaseJob` and the initialisation of `DCloudJob` leave them. The
dirty flags are cleared; `resubmit` is the value of the `GlobusResubmit` expression. -/
def blank (self : JobRef) (ad : JobAd) (resubmit : Bool) : DCloudJob where
  self := self
  jobAd := ad.clearAllDirtyFlags
  condorState := (ad.lookupStatus .jobStatus).getD .idle
  submitLogged := false
  executeLogged := false
  submitFailedLogged := false
  terminateLogged := false
  abortLogged := false
  evictLogged := false
  holdLogged := false
  exitStatusKnown := false
  deleteFromGridmanager := false
  deleteFromSchedd := false
  wantResubmit := resubmit
  doResubmit := false
  wantRematch := false
  resourceDown := (ad.lookupInteger .gridResourceUnavailableTime).isSome
  resourceStateKnown := false
  resourcePingPending := false
  lastRemoteStatusUpdate := (ad.lookupInteger .lastRemoteStatusUpdate).getD 0
  currentStatusUnknown := (ad.lookupBool .currentStatusUnknown).getD false
  gmState := .init
  probeNow := false
  probeErrorTime := 0
  lastProbeTime := 0
  lastSubmitAttempt := 0
  numSubmitAttempts := 0
  errorString := ""
  remoteJobState := ""
  createdStopped := false
  serviceUrl := none
  instanceId := none
  instanceName := none
  imageId := none
  realmId := none
  hwpId := none
  hwpMemory := none
  hwpCpu := none
  hwpStorage := none
  username := none
  password := none
  keyname := none
  userdata := none

/-- A hold reason left from an earlier hold is unset. -/
def forgetHoldReason (j : DCloudJob) : DCloudJob :=
  if j.condorState ≠ .held ∧ (j.jobAd.lookupString .holdReason).isSome then
    j.assign .holdReason .undefined
  else j

/-- The URL of `GridResource`. A resource without URL is noted in `error_string` only. -/
def parseGridResource (resource : String) : Except ConstructError (Option String) :=
  match blankTokens resource with
  | [] => .error .gridResourceMissing
  | token :: rest => if isDeltacloud token then .ok rest.head? else .error .gridResourceType

/-- Instance name and id of `GridJobId`; both are NULL when it is not set. -/
def parseGridJobId (jobId : String) : Except ConstructError (Option String × Option String) :=
  match blankTokens jobId with
  | [] => .ok (none, none)
  | token :: rest =>
    if isDeltacloud token then .ok (rest.head?, rest.tail.head?) else .error .gridJobIdType

/-- The members read from the job ad before `GridJobId`. -/
def readAd (j : DCloudJob) : Except ConstructError DCloudJob := do
  let serviceUrl ← parseGridResource (j.jobAd.stringOf .gridResource)
  let some username := j.jobAd.lookupString .deltacloudUsername
    | .error (.missing .deltacloudUsername)
  let some password := j.jobAd.lookupString .deltacloudPasswordFile
    | .error (.missing .deltacloudPasswordFile)
  let some imageId := j.jobAd.lookupString .deltacloudImageId
    | .error (.missing .deltacloudImageId)
  .ok { j with
    serviceUrl := serviceUrl
    username := some username
    password := some password
    imageId := some imageId
    realmId := j.jobAd.lookupString .deltacloudRealmId
    hwpId := j.jobAd.lookupString .deltacloudHardwareProfile
    hwpCpu := j.jobAd.lookupString .deltacloudHardwareProfileCpu
    hwpMemory := j.jobAd.lookupString .deltacloudHardwareProfileMemory
    hwpStorage := j.jobAd.lookupString .deltacloudHardwareProfileStorage
    keyname := j.jobAd.lookupString .deltacloudKeyname
    userdata := j.jobAd.lookupString .deltacloudUserData }

def errorExit (j : DCloudJob) (e : ConstructError) : DCloudJob :=
  ({ j with gmState := .hold }).assign .holdReason (.string e.text)

end DCloudJob

namespace World

/-- The end of the constructor: name and id from `GridJobId`, the submit slot of a job
that has an instance, and the last known state of that instance. -/
def restoreInstance (w : World) (name id : Option String) (time : Int) : World :=
  let w₁ := match name with
    | some n => w.setInstanceName (some n) time
    | none => w
  let w₂ := match id with
    | some i => w₁.setInstanceId (some i) time
    | none => w₁
  let w₃ := match w₂.job.instanceId with
    | some _ => { w₂ with resource := w₂.resource.alreadySubmitted w₂.job.self }
    | none => w₂
  w₃.setJob { w₃.job with remoteJobState := w₃.job.jobAd.stringOf .gridJobStatus }

/-- `DCloudJob::DCloudJob`. The instance of a restored id is not a new one, so the
history of the job starts empty. -/
def construct (self : JobRef) (ad : JobAd) (resubmit gahpDefined : Bool) (time : Int)
    (resource : BaseResource) (table : HashTable String JobRef) : World :=
  let j := (DCloudJob.blank self ad resubmit).forgetHoldReason
  let w : World := ⟨j, ⟨.normal, none, ""⟩, resource, table, [], none⟩
  if !gahpDefined then w.setJob (j.errorExit .noGahp)
  else
    match j.readAd with
    | .error e => w.setJob (j.errorExit e)
    | .ok j' =>
      match DCloudJob.parseGridJobId (j'.jobAd.stringOf .gridJobId) with
      | .error e => w.setJob (j'.errorExit e)
      | .ok (name, id) =>
        { (w.setJob j').restoreInstance name id time with history := [] }

end World
end Condor.GridManager
