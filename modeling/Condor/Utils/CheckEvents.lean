import Mathlib.Logic.Function.Basic

/-! The events of `condor_event.h` that DAGMan distinguishes, and `CheckEvents`, which judges each
event by the counts for its job id. -/
namespace Condor.Utils

structure CondorID where
  cluster : Int := -1
  proc : Int := -1
  subproc : Int := -1
  deriving DecidableEq, Repr

inductive ULogEventBody where
  /-- With the node name that `sscanf` finds in `submitEventLogNotes`. -/
  | submit (dagNode : Option String)
  | execute
  | executableError
  | jobEvicted
  | jobSuspended
  | shadowException
  | jobHeld
  | jobReleased
  | jobAborted
  | jobTerminated (normal : Bool) (returnValue signalNumber : Int)
  | postScriptTerminated (normal : Bool) (returnValue signalNumber : Int) (dagNodeName : String)
  /-- The events that DAGMan only prints. -/
  | other
  deriving DecidableEq, Repr

structure ULogEvent where
  id : CondorID
  body : ULogEventBody
  deriving DecidableEq, Repr

namespace CheckEvents

structure AllowEvents where
  almostAll : Bool := false
  termAbort : Bool := false
  runAfterTerm : Bool := false
  garbage : Bool := false
  execBeforeSubmit : Bool := false
  doubleTerminate : Bool := false
  duplicateEvents : Bool := false
  deriving DecidableEq, Repr

namespace AllowEvents
variable (a : AllowEvents)

def extraAborts : Bool := a.almostAll || a.termAbort

def extraRuns : Bool := a.runAfterTerm

def allowGarbage : Bool := a.almostAll || a.garbage

def execSubmit : Bool := a.almostAll || a.execBeforeSubmit

def doubleTerm : Bool := a.almostAll || a.doubleTerminate

def duplicates : Bool := a.almostAll || a.duplicateEvents

end AllowEvents

inductive Result where
  | okay
  | badEvent
  | error
  | warning
  deriving DecidableEq, Repr

structure JobInfo where
  submitCount : Nat := 0
  errorCount : Nat := 0
  abortCount : Nat := 0
  termCount : Nat := 0
  postScriptCount : Nat := 0
  deriving DecidableEq, Repr

def JobInfo.totalEndCount (info : JobInfo) : Nat := info.abortCount + info.termCount

def noSubmitId : CondorID := ⟨-1, 0, 0⟩

variable (allow : AllowEvents)

/-- `allowed ? EVENT_BAD_EVENT : EVENT_ERROR`. -/
def badOr (allowed : Bool) : Result := if allowed then .badEvent else .error

/-- `allowed ? EVENT_WARNING : EVENT_ERROR`. -/
def warnOr (allowed : Bool) : Result := if allowed then .warning else .error

def checkJobSubmit (info : JobInfo) (result : Result) : Result :=
  let result := if info.submitCount ≠ 1 then badOr allow.duplicates else result
  if info.totalEndCount ≠ 0 then badOr allow.execSubmit else result

def checkJobExecute (info : JobInfo) (result : Result) : Result :=
  let result := if info.submitCount < 1 then warnOr (allow.execSubmit || allow.allowGarbage)
    else result
  if info.totalEndCount ≠ 0 then badOr allow.extraRuns else result

def endCountResult (info : JobInfo) : Result :=
  if allow.extraAborts ∧ info.abortCount = 1 ∧ info.termCount = 1 then .badEvent
  else if allow.doubleTerm ∧ info.termCount = 2 then .badEvent
  else if allow.extraRuns then .badEvent
  else if allow.duplicates then .badEvent
  else .error

def checkJobEnd (info : JobInfo) (result : Result) : Result :=
  let result := if info.submitCount < 1 then
      warnOr (allow.execSubmit || (allow.allowGarbage && decide (info.submitCount ≤ 1)))
    else result
  let result := if info.totalEndCount ≠ 1 then endCountResult allow info else result
  if info.postScriptCount ≠ 0 then badOr allow.duplicates else result

def checkPostTerm (id : CondorID) (info : JobInfo) (result : Result) : Result :=
  if id = noSubmitId ∧ info.submitCount = 0 ∧ info.termCount = 0 ∧ 1 ≤ info.postScriptCount then
    result
  else
    let result := if info.submitCount < 1 then
        badOr (allow.duplicates || (allow.allowGarbage && decide (info.submitCount ≤ 1)))
      else result
    let result := if info.totalEndCount < 1 then badOr allow.almostAll else result
    if 1 < info.postScriptCount then badOr (allow.duplicates || allow.allowGarbage) else result

def finalCountResult (info : JobInfo) : Result :=
  if allow.extraAborts ∧ info.abortCount = 1 ∧ info.termCount = 1 then .badEvent
  else if allow.doubleTerm ∧ info.termCount = 2 then .badEvent
  else if allow.extraRuns then .badEvent
  else if allow.allowGarbage ∧ info.totalEndCount = 0 then .badEvent
  else if allow.duplicates then .badEvent
  else .error

def checkJobFinal (id : CondorID) (info : JobInfo) (result : Result) : Result :=
  if id = noSubmitId ∧ info.submitCount = 0 ∧ info.termCount = 0 ∧ 1 ≤ info.postScriptCount then
    result
  -- A node of the parallel universe.
  else if id.subproc ≠ 0 then result
  else
    let result := if info.submitCount ≠ 1 then
        badOr (allow.almostAll || (allow.allowGarbage && decide (info.submitCount ≤ 1)))
      else result
    let result := if info.totalEndCount ≠ 1 then finalCountResult allow info else result
    if 1 < info.postScriptCount then badOr (allow.duplicates || allow.allowGarbage) else result

def JobInfo.count (info : JobInfo) : ULogEventBody → JobInfo
  | .submit _ => { info with submitCount := info.submitCount + 1 }
  | .executableError => { info with errorCount := info.errorCount + 1 }
  | .jobAborted => { info with abortCount := info.abortCount + 1 }
  | .jobTerminated _ _ _ => { info with termCount := info.termCount + 1 }
  | .postScriptTerminated _ _ _ _ => { info with postScriptCount := info.postScriptCount + 1 }
  | _ => info

def check (id : CondorID) (info : JobInfo) : ULogEventBody → Result
  | .submit _ => checkJobSubmit allow info .okay
  | .execute => checkJobExecute allow info .okay
  | .jobAborted => checkJobEnd allow info .okay
  | .jobTerminated _ _ _ => checkJobEnd allow info .okay
  | .postScriptTerminated _ _ _ _ => checkPostTerm allow id info .okay
  | _ => .okay

end CheckEvents

open CheckEvents in
/-- `CheckEvents`: a job that is not in `jobHash` has all counts 0. -/
structure CheckEvents where
  allowEvents : AllowEvents
  jobHash : CondorID → JobInfo

open CheckEvents in
def CheckEvents.checkAnEvent (c : CheckEvents) (event : ULogEvent) : Result × CheckEvents :=
  let info := (c.jobHash event.id).count event.body
  (CheckEvents.check c.allowEvents event.id info event.body,
    { c with jobHash := Function.update c.jobHash event.id info })

end Condor.Utils
