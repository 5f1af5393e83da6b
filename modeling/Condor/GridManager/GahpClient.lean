import Condor.GridManager.JobAd

/-! A client keeps at most one request. A call with the name of the pending command asks for its
result, whatever its arguments; another name drops the request and issues a new one. -/
namespace Condor.GridManager

/-- The requests of the deltacloud GAHP. Its COMMANDS reply lists all of them, so
`GAHPCLIENT_COMMAND_NOT_SUPPORTED` is never returned for one. -/
inductive Command where
  | vmSubmit
  | vmStatusAll
  | vmAction
  | vmInfo
  | vmFind
  deriving DecidableEq, Repr

/-- `NULLSTRING`: what a NULL argument is written as. -/
def nullString : String := "NULL"

def gahpArg (arg : Option String) : String := arg.getD nullString

/-- `GahpClient::mode`; deltacloud jobs never block. -/
inductive Mode where
  | normal
  | resultsOnly
  deriving DecidableEq, Repr

/-- The `pending_` fields. A request without a result is outstanding; `submitted` is
`pending_submitted_to_gahp`, and `timeout` is meaningful once it is set. -/
structure PendingRequest where
  command : Command
  args : List String
  submitted : Bool
  timeout : Int
  result : Option (List String)
  deriving DecidableEq, Repr

structure GahpClient where
  mode : Mode
  pending : Option PendingRequest
  errorString : String
  deriving DecidableEq, Repr

/-- The outcomes of a GAHP call: a completed reply, the negative codes that stand for
no reply, and the EXCEPT on a malformed one. `α` is what a good reply carries. -/
inductive CallResult (α : Type) where
  | ok (a : α)
  | failed
  | timedOut
  | pending
  | notSubmitted
  | excepted (message : String)
  deriving DecidableEq, Repr

namespace GahpClient

/-- `m_timeout`, set to `DCloudJob::gahpCallTimeout`. -/
def timeoutSeconds : Int := 600

/-- `is_pending`: only the command name is compared. -/
def isPending (g : GahpClient) (command : Command) : Bool :=
  match g.pending with
  | some p => decide (p.command = command)
  | none => false

def clearPending (g : GahpClient) : GahpClient := { g with pending := none }

/-- `now_pending` with a new command. When the server has too many requests
outstanding the request waits in a queue. -/
def nowPending (g : GahpClient) (command : Command) (args : List String) (serverFull : Bool)
    (time : Int) : GahpClient :=
  { g with pending := some ⟨command, args, !serverFull, time + timeoutSeconds, none⟩ }

def sendWaiting (g : GahpClient) (time : Int) : GahpClient :=
  match g.pending with
  | some p =>
    if p.submitted then g
    else { g with pending := some { p with submitted := true, timeout := time + timeoutSeconds } }
  | none => g

/-- `GahpServer::poll` stores the reply to the outstanding request. Replies to
requests that were dropped find no client in the request table. -/
def stash (g : GahpClient) (argv : List String) : GahpClient :=
  match g.pending with
  | some p =>
    if p.submitted ∧ p.result = none then
      { g with pending := some { p with result := some argv } }
    else g
  | none => g

/-- `check_pending_timeout`. -/
def pendingTimedOut (p : PendingRequest) (time : Int) : Bool :=
  p.result.isNone && p.submitted && decide (p.timeout < time)

inductive Poll where
  | reply (args : List String) (argv : List String)
  | timedOut (args : List String)
  | waiting
  | notSubmitted
  deriving DecidableEq, Repr

/-- The common part of every `dcloud_` call: issue the request unless one of that name
is pending, then look for the result and for the time-out. The flag says whether a
new request was issued. -/
def call (g : GahpClient) (command : Command) (args : List String) (serverFull : Bool)
    (time : Int) : Poll × Bool × GahpClient :=
  match g.pending with
  | some p =>
    if p.command = command then
      match p.result with
      | some argv => (.reply p.args argv, false, g.clearPending)
      | none =>
        if pendingTimedOut p time then (.timedOut p.args, false, g.clearPending)
        else (.waiting, false, g)
    else if g.mode = .resultsOnly then (.notSubmitted, false, g)
    else (.waiting, true, g.nowPending command args serverFull time)
  | none =>
    if g.mode = .resultsOnly then (.notSubmitted, false, g)
    else (.waiting, true, g.nowPending command args serverFull time)

end GahpClient

/-- The reply of `DELTACLOUD_VM_ACTION`: `req_id NULL` or `req_id <error message>`. -/
def readActionReply (argv : List String) : CallResult Unit × Option String :=
  match argv with
  | [_, message] =>
    if message = nullString then (.ok (), none) else (.failed, some message)
  | _ => (.excepted "Bad DELTACLOUD_VM_ACTION result", none)

/-- The reply of `DELTACLOUD_VM_SUBMIT` and `DELTACLOUD_VM_INFO`:
`req_id NULL <attr>=<value> ...` or `req_id <error message>`. -/
def readAttrsReply (command : String) (argv : List String) :
    CallResult (List String) × Option String :=
  match argv with
  | [_, message] =>
    if message = nullString then (.excepted ("Bad " ++ command ++ " result"), none)
    else (.failed, some message)
  | _ :: message :: attr :: attrs =>
    if message = nullString then (.ok (attr :: attrs), none)
    else (.excepted ("Bad " ++ command ++ " result"), none)
  | _ => (.excepted ("Bad " ++ command ++ " result"), none)

/-- The reply of `DELTACLOUD_VM_FIND`: `req_id NULL <instance-id>`, where the id NULL
means that there is none, or `req_id <error message>`. -/
def readFindReply (argv : List String) : CallResult (Option String) × Option String :=
  match argv with
  | [_, message] =>
    if message = nullString then (.excepted "Bad DELTACLOUD_VM_FIND result", none)
    else (.failed, some message)
  | [_, message, id] =>
    if message = nullString then
      (.ok (if id = nullString then none else some id), none)
    else (.excepted "Bad DELTACLOUD_VM_FIND result", none)
  | _ => (.excepted "Bad DELTACLOUD_VM_FIND result", none)

end Condor.GridManager
