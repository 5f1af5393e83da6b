import Mathlib.Data.Set.Card
import Condor.Lib.Run
import Condor.Utils.HashTable
import Condor.Utils.Stdio

/-! How the request ids of the clients are given out, entered in `requestTable`, sent or queued,
answered by `poll` and abandoned. The unanswered request lines are recorded beside the state. -/
namespace Condor.GridManager
open Condor.Lib Condor.Utils

inductive PrioLevel where
  | high
  | medium
  | low
  deriving DecidableEq, Repr

/-- The members of a `GahpClient` that describe its pending request. -/
structure Requester where
  timeout : Nat := 0
  pendingCommand : Option String := none
  pendingArgs : Option String := none
  pendingReqId : Int := 0
  pendingResult : Option (List String) := none
  pendingTimeout : Nat := 0
  pendingSubmittedToGahp : Bool := false
  deriving DecidableEq, Repr

def hashFuncInt (n : Int) : Nat := n.natAbs

structure GahpServer where
  maxPendingRequests : Int
  numPendingRequests : Int
  nextReqId : Int
  rotatedReqIds : Bool
  /-- A `NULL` entry is `none`. -/
  requestTable : HashTable Int (Option Nat)
  waiting : PrioLevel → List Int
  clients : Nat → Requester
  written : List (String × Int × Option String)
  /-- The ids written and not yet answered. -/
  outstanding : List Int

namespace GahpServer

/-- The constructor; the parameter is `GRIDMANAGER_MAX_PENDING_REQUESTS`. -/
def create (maxPendingRequests : Int) : GahpServer where
  maxPendingRequests := maxPendingRequests
  numPendingRequests := 0
  nextReqId := 1
  rotatedReqIds := false
  requestTable := HashTable.create hashFuncInt .allowDuplicateKeys
  waiting := fun _ => []
  clients := fun _ => {}
  written := []
  outstanding := []

def setClient (s : GahpServer) (k : Nat) (c : Requester) : GahpServer :=
  { s with clients := Function.update s.clients k c }

def queued (s : GahpServer) : List Int := s.waiting .high ++ s.waiting .medium ++ s.waiting .low

def entry (s : GahpServer) (id : Int) : Option Nat := (s.requestTable.lookup id).join

def maxReqId : Int := 990000000

def findReqId (used : Int → Bool) (starting : Int) : Nat → Int → Bool → Option (Int × Bool)
  | 0, _, _ => none
  | fuel + 1, next, rotated =>
    if starting = next then none
    else
      let (next, rotated) := if maxReqId < next then (1, true) else (next, rotated)
      if !rotated || !used next then some (next, rotated)
      else findReqId used starting fuel (next + 1) rotated

def outOfReqIds : String := "GAHP client - out of request ids !!!?!?!?"

/-- `new_reqid`. One round over all ids is enough fuel. -/
def newReqId (s : GahpServer) : Except String (Int × GahpServer) :=
  match findReqId (fun id => (s.requestTable.lookup id).isSome) s.nextReqId maxReqId.toNat
      (s.nextReqId + 1) s.rotatedReqIds with
  | some (id, rotated) => .ok (id, { s with nextReqId := id, rotatedReqIds := rotated })
  | none => .error outOfReqIds

/-- `clear_pending`: an id that is still in the table stays there with a `NULL` entry. -/
def clearPending (s : GahpServer) (k : Nat) : GahpServer :=
  let c := s.clients k
  let requestTable :=
    if c.pendingReqId ≠ 0 then
      match s.requestTable.remove c.pendingReqId with
      | (true, table) => (table.insert c.pendingReqId none).2
      | (false, table) => table
    else s.requestTable
  { s with
    requestTable := requestTable
    numPendingRequests :=
      if c.pendingSubmittedToGahp then s.numPendingRequests - 1 else s.numPendingRequests
    clients := Function.update s.clients k { timeout := c.timeout } }

def enqueue (s : GahpServer) (prio : PrioLevel) (id : Int) : GahpServer :=
  { s with waiting := Function.update s.waiting prio (s.waiting prio ++ [id]) }

def writeRequest (s : GahpServer) (k : Nat) (command : String) (now : Nat) : GahpServer :=
  let c := s.clients k
  { s with
    clients := Function.update s.clients k
      { c with
        pendingSubmittedToGahp := true
        pendingTimeout := if c.pendingTimeout = 0 then 0 else c.pendingTimeout + now }
    numPendingRequests := s.numPendingRequests + 1
    written := s.written ++ [(command, c.pendingReqId, c.pendingArgs)]
    outstanding := s.outstanding ++ [c.pendingReqId] }

/-- The second half of `now_pending`: queue the request or write it out. -/
def submit (s : GahpServer) (k : Nat) (prio : PrioLevel) (now : Nat) : Except String GahpServer :=
  match (s.clients k).pendingCommand with
  | none => .error "Assertion ERROR on (pending_command != __null)"
  | some command =>
    if s.maxPendingRequests ≤ s.numPendingRequests then
      .ok (s.enqueue prio (s.clients k).pendingReqId)
    else .ok (s.writeRequest k command now)

def register (s : GahpServer) (k : Nat) (id : Int) (command : String) (args : Option String) :
    GahpServer :=
  let c := s.clients k
  { s with
    requestTable := (s.requestTable.insert id (some k)).2
    clients := Function.update s.clients k
      { c with
        pendingCommand := some command
        pendingReqId := id
        pendingArgs := args
        pendingTimeout := c.timeout } }

/-- The first half of `now_pending`: a new id for a new command. -/
def enter (s : GahpServer) (k : Nat) (command : String) (args : Option String) :
    Except String GahpServer :=
  match newReqId (s.clearPending k) with
  | .error message => .error message
  | .ok (id, s) => .ok (s.register k id command args)

def nowPending (s : GahpServer) (k : Nat) (command : String) (args : Option String)
    (prio : PrioLevel) (now : Nat) : Except String GahpServer := do
  (← s.enter k command args).submit k prio now

/-- `get_pending_result` of a client that does not block, when there is a result. -/
def getPendingResult (s : GahpServer) (k : Nat) : Except String GahpServer :=
  if (s.clients k).pendingReqId = 0 then .ok (s.clearPending k)
  else .error "Assertion ERROR on (pending_reqid == 0)"

def checkPendingTimeout (s : GahpServer) (k : Nat) (now : Nat) : GahpServer :=
  let c := s.clients k
  if c.pendingReqId ≠ 0 ∧ c.pendingSubmittedToGahp = true ∧
      c.pendingTimeout ≠ 0 ∧ c.pendingTimeout < now then s.clearPending k
  else s

/-- The first half of a command function of a client: issue it unless it is pending. -/
def issue (s : GahpServer) (k : Nat) (command : String) (args : Option String)
    (prio : PrioLevel) (now : Nat) : Except String GahpServer :=
  if (s.clients k).pendingCommand = some command then .ok s
  else s.nowPending k command args prio now

def collect (s : GahpServer) (k : Nat) (now : Nat) : Except String GahpServer :=
  if (s.clients k).pendingResult.isSome then s.getPendingResult k
  else .ok (s.checkPendingTimeout k now)

def call (s : GahpServer) (k : Nat) (command : String) (args : Option String)
    (prio : PrioLevel) (now : Nat) : Except String GahpServer := do
  (← s.issue k command args prio now).collect k now

def resultReqId : List String → Int
  | [] => 0
  | first :: _ => atoi (ascii first)

def forget (s : GahpServer) (id : Int) : GahpServer :=
  { s with
    requestTable := (s.requestTable.remove id).2
    outstanding := s.outstanding.erase id }

def deliver (s : GahpServer) (k : Nat) (result : List String) : GahpServer :=
  { s with
    clients := Function.update s.clients k
      { s.clients k with
        pendingResult := some result
        pendingReqId := 0
        pendingSubmittedToGahp := false }
    numPendingRequests := s.numPendingRequests - 1 }

def absorb (s : GahpServer) (result : List String) : Except String GahpServer :=
  if resultReqId result = 0 then .ok s
  else
    match s.entry (resultReqId result) with
    | some k =>
      if (s.clients k).pendingSubmittedToGahp then
        .ok ((s.deliver k result).forget (resultReqId result))
      else .error "Assertion ERROR on (entry->pending_submitted_to_gahp)"
    | none => .ok (s.forget (resultReqId result))

def takeWaiting (s : GahpServer) : Option (Int × GahpServer) :=
  match s.waiting .high, s.waiting .medium, s.waiting .low with
  | id :: rest, _, _ => some (id, { s with waiting := Function.update s.waiting .high rest })
  | [], id :: rest, _ => some (id, { s with waiting := Function.update s.waiting .medium rest })
  | [], [], id :: rest => some (id, { s with waiting := Function.update s.waiting .low rest })
  | [], [], [] => none

/-- The loop of `poll` over the waiting queues. The entry that it removes for an
abandoned id is that of `result_reqid`, the variable of the loop before. -/
def sendWaiting (resultId : Int) (now : Nat) : Nat → GahpServer → Except String GahpServer
  | 0, s => .ok s
  | fuel + 1, s =>
    if s.numPendingRequests < s.maxPendingRequests then
      match s.takeWaiting with
      | none => .ok s
      | some (id, s) =>
        match s.entry id with
        | some k =>
          if (s.clients k).pendingReqId = id then do
            sendWaiting resultId now fuel (← s.submit k .medium now)
          else .error "Assertion ERROR on (entry->pending_reqid == waiting_reqid)"
        | none =>
          sendWaiting resultId now fuel
            { s with requestTable := (s.requestTable.remove resultId).2 }
    else .ok s

/-- `result_reqid` behind the first loop of `poll`; without a result line it has
the value `stale` that was in its place before. -/
def lastReqId (results : List (List String)) (stale : Int) : Int :=
  (results.getLast?.map resultReqId).getD stale

/-- `poll`; there are no results when the GAHP refuses the `RESULTS` command. -/
def poll (s : GahpServer) (results : Option (List (List String))) (stale : Int) (now : Nat) :
    Except String GahpServer :=
  match results with
  | none => .ok s
  | some results => do
    let s ← results.foldlM absorb s
    if 0 ≤ s.numPendingRequests then
      sendWaiting (lastReqId results stale) now s.queued.length s
    else .error "Assertion ERROR on (num_pending_requests >= 0)"

end GahpServer

inductive GahpEvent where
  | call (client : Nat) (command : String) (args : Option String) (prio : PrioLevel) (now : Nat)
  | poll (results : Option (List (List String))) (stale : Int) (now : Nat)
  | setTimeout (client : Nat) (timeout : Nat)
  | purgePendingRequests (client : Nat)
  | destroy (client : Nat)

namespace GahpServer

def perform (s : GahpServer) : GahpEvent → Except String GahpServer
  | .call k command args prio now => s.call k command args prio now
  | .poll results stale now => s.poll results stale now
  | .setTimeout k timeout => .ok (s.setClient k { s.clients k with timeout := timeout })
  | .purgePendingRequests k => .ok (s.clearPending k)
  | .destroy k => .ok ((s.clearPending k).setClient k {})

def step (s : GahpServer) (event : GahpEvent) : Option GahpServer := (s.perform event).toOption

theorem perform_of_step {s t : GahpServer} {event : GahpEvent} (taken : s.step event = some t) :
    s.perform event = .ok t := by
  unfold step at taken
  cases performed : s.perform event with
  | ok u =>
    rw [performed] at taken
    cases taken
    rfl
  | error message =>
    rw [performed] at taken
    cases taken

end GahpServer
end Condor.GridManager
