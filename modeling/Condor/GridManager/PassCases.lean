import Condor.GridManager.GahpOutcome

/-! One inversion for the loop body of `doEvaluateState`. A pass keeps to the state diagram, calls
the GAHP at most once, and changes the instance of the job only where it clears it, or after a
reply. -/
namespace Condor.GridManager

structure InstanceView where
  gmState : GMState
  instanceId : Option String
  remoteJobState : String
  savedStatus : String
  address : List String
  unnamed : Bool

def DCloudJob.view (j : DCloudJob) : InstanceView where
  gmState := j.gmState
  instanceId := j.instanceId
  remoteJobState := j.remoteJobState
  savedStatus := j.jobAd.stringOf .gridJobStatus
  address := [gahpArg j.serviceUrl, gahpArg j.username, gahpArg j.password]
  unnamed := World.unnamed j

namespace DCloudJob

theorem view_of_frozen {j j' : DCloudJob} (h : j'.frozen = j.frozen)
    (text : j'.jobAd.stringOf .gridJobStatus = j.jobAd.stringOf .gridJobStatus) :
    j'.view = j.view := by
  have members := member_of_frozen h (fun j => (j.gmState, j.instanceId, j.remoteJobState,
    [gahpArg j.serviceUrl, gahpArg j.username, gahpArg j.password], World.unnamed j)) fun _ => rfl
  simp only [Prod.mk.injEq] at members
  obtain ⟨state, id, remote, address, unnamed⟩ := members
  simp only [view, state, id, remote, address, unnamed, text]

theorem StatusOnly.view {j j' : DCloudJob} (h : StatusOnly j j') : j'.view = j.view :=
  view_of_frozen h.frozen h.gridJobStatusText

variable (j : DCloudJob)

theorem view_setRemoteJobId (time : Int) : (j.setRemoteJobId time).view = j.view := by
  refine view_of_frozen (setGridJobId_frozen j time _) ?_
  simp only [JobAd.stringOf, JobAd.lookupString, setRemoteJobId, setGridJobId_gridJobStatus]

theorem view_statusUpdate (status : String) (time : Int)
    (synced : j.view.savedStatus = j.view.remoteJobState) :
    (j.statusUpdate (some status) time).view =
      { j.view with remoteJobState := status, savedStatus := status } := by
  have texts := statusUpdate_some j time status synced
  have members := statusUpdate_member j time (some status)
    (fun j => (j.gmState, j.instanceId,
      [gahpArg j.serviceUrl, gahpArg j.username, gahpArg j.password], World.unnamed j))
    (fun _ => rfl) (fun _ _ _ => rfl)
  simp only [Prod.mk.injEq] at members
  obtain ⟨state, id, address, named⟩ := members
  simp only [view, state, id, address, named, texts.1, texts.2]

theorem condorState_setRemoteJobId (time : Int) :
    (j.setRemoteJobId time).condorState = j.condorState := by
  unfold setRemoteJobId setGridJobId
  simp only
  split
  · rfl
  · split <;> split <;> rfl

end DCloudJob

def JobStatus.done : JobStatus → Bool
  | .completed | .removed | .held | .idle => true
  | .running | .transferringOutput => false

theorem JobStatus.done_of_leaving {status : JobStatus} (leaving : status.leaving = true) :
    status.done = true := by
  cases status <;> simp_all [JobStatus.leaving, JobStatus.done]

def GMState.fresh : GMState → Bool
  | .init | .start => true
  | _ => false

/-- The moves of a pass without a call that keep the instance; those out of `GM_START` to a
state that looks at it are left out. -/
def GMState.goes : GMState → GMState → Bool
  | .init, .start | .init, .hold | .start, .clearRequest
  | .unsubmitted, .delete | .unsubmitted, .saveInstanceName
  | .saveInstanceName, .delete | .saveInstanceName, .createVm
  | .createVm, .hold | .createVm, .stopped | .saveInstanceId, .submitted
  | .submitted, .doneSave | .submitted, .cancel | .submitted, .probeJob
  | .doneSave, .stopped | .clearRequest, .hold | .probeJob, .cancel | .hold, .delete => true
  | _, _ => false

def GMState.clears : GMState → GMState → Bool
  | .doneSave, .clearRequest | .clearRequest, .clearRequest | .clearRequest, .delete
  | .clearRequest, .unsubmitted | .stopped, .clearRequest | .stopped, .delete => true
  | _, _ => false

def GMState.returns : GMState → GMState → Bool
  | .checkVm, .createVm | .checkVm, .hold | .createVm, .hold | .startVm, .saveInstanceId
  | .startVm, .hold | .probeJob, .hold | .cancel, .stopped | .cancel, .hold => true
  | _, _ => false

def GMState.asks : GMState → Option Command
  | .checkVm => some .vmFind
  | .createVm => some .vmSubmit
  | .startVm | .cancel | .stopped => some .vmAction
  | .probeJob => some .vmInfo
  | _ => none

def GMState.action : GMState → Option String
  | .startVm => some "start"
  | .cancel => some "stop"
  | .stopped => some "destroy"
  | _ => none

namespace DCloudJob

/-- The job stays in the queue when it exits: it is held, or the policy at its exit
keeps it or holds it. -/
def staysAfterExit (j : DCloudJob) (policy : PolicyAction) : Bool :=
  match j.condorState with
  | .held => true
  | .completed => false
  | .removed => false
  | _ =>
    match policy with
    | .staysInQueue => true
    | .undefinedEval => decide (j.jobAd.lookupBool .nonessential ≠ some true)
    | .holdInQueue => decide (j.jobAd.lookupBool .nonessential ≠ some true)
    | .removeFromQueue => false
    | .releaseFromHold => false

end DCloudJob

namespace World

def assertText : String := "Assertion ERROR on (m_instanceId)"
def doneText : String := "BaseJob::DoneWithJob called with unexpected state"

structure Aside (w w' : World) : Prop where
  gahp : w'.gahp = w.gahp
  history : w'.history = w.history
  excepted : w'.excepted = w.excepted

/-- `GM_DONE_SAVE` sends a stopped instance of a job that stays in the queue to
`GM_CLEAR_REQUEST`, past the destroy request of `GM_STOPPED`. -/
def AbandonsStopped (w : World) (inp : PassInput) : Prop :=
  w.job.gmState = .doneSave ∧ w.job.instanceId ≠ none ∧ w.job.remoteJobState ≠ vmFinish ∧
    w.job.staysAfterExit inp.policy = true

/-- `GM_CLEAR_REQUEST` clears the id of a job that is removed or resubmitted. It has one
when the name was saved as NULL. -/
def ForgetsUnnamed (w : World) : Prop :=
  w.job.gmState = .clearRequest ∧ w.job.instanceId ≠ none ∧ w.job.remoteJobState ≠ vmFinish ∧
    w.job.wantRematch = false ∧
    (w.job.condorState = .removed ∨ w.job.wantResubmit = true ∨ w.job.doResubmit = true)

structure Asks (w : World) (command : Command) (args : List String) : Prop where
  state : w.job.gmState.asks = some command
  action : command = .vmAction → ∃ a, w.job.gmState.action = some a ∧
    args = w.job.view.address ++ [gahpArg w.job.view.instanceId, a]
  find : command = .vmFind → args = w.job.view.address ++ [gahpArg w.job.view.instanceId]

structure Back (w : World) (inp : PassInput) (p : PendingRequest) (w₁ : World) : Prop where
  pending : w.gahp.pending = some p
  asks : w.job.gmState.asks = some p.command
  view : w₁.job.view = w.job.view
  free : w₁.gahp.pending = none
  excepted : w₁.excepted = w.excepted
  history : w₁.history = .answered p.command p.args :: w.history ∨
    w₁.history = .timedOut p.command p.args :: w.history ∧
      GahpClient.pendingTimedOut p inp.time = true

inductive PassCase (w : World) (inp : PassInput) : World → Prop
  /-- The job stays in its state or moves on; the name may be new after `GM_INIT`. -/
  | steps (next : GMState) (unnamed : Bool) {w' : World}
      (edge : next = w.job.gmState ∨ w.job.gmState.goes next = true)
      (view : w'.job.view = { w.job.view with gmState := next, unnamed := unnamed })
      (named : w.job.gmState.fresh = true → unnamed = w.job.view.unnamed) (aside : Aside w w')
      (settled : (w.job.gmState = .delete → w.job.condorState.done = true) → next = .delete →
        w'.job.condorState.done = true) : PassCase w inp w'
  /-- `GM_START` finds a name without an id. -/
  | checks {w' : World} (state : w.job.gmState = .start) (unknown : w.job.instanceId = none)
      (named : w.job.view.unnamed = false)
      (view : w'.job.view = { w.job.view with gmState := .checkVm }) (aside : Aside w w') :
      PassCase w inp w'
  /-- `GM_START` finds an id. -/
  | restored {w' : World} (state : w.job.gmState = .start) (known : w.job.instanceId ≠ none)
      (view : w'.job.view = { w.job.view with gmState := .submitted }) (aside : Aside w w') :
      PassCase w inp w'
  /-- The instance is cleared without a call. -/
  | clears (next : GMState) {w' : World} (edge : w.job.gmState.clears next = true)
      (state : w'.job.view.gmState = next) (unknown : w'.job.view.instanceId = none)
      (synced : w.job.view.savedStatus = w.job.view.remoteJobState →
        w'.job.view.savedStatus = w'.job.view.remoteJobState)
      (blank : next = .unsubmitted → w'.job.view.remoteJobState = "")
      (gahp : w'.gahp = w.gahp) (history : w'.history = (w.noteInstanceId none).history)
      (excepted : w'.excepted = w.excepted)
      (settled : next = .delete → w'.job.condorState.done = true)
      (gone : w.job.gmState = .stopped → w.job.remoteJobState = vmFinish)
      (careless : w.job.instanceId ≠ none → w.job.remoteJobState ≠ vmFinish →
        w.AbandonsStopped inp ∨ w.ForgetsUnnamed) : PassCase w inp w'
  /-- A new request, which the GAHP may refuse. -/
  | issued (p : PendingRequest) {w' : World} (asks : Asks w p.command p.args)
      (unanswered : p.result = none) (free : w.gahp.Free p.command) (mode : w.gahp.mode = .normal)
      (view : w'.job.view = w.job.view) (status : w'.job.condorState = w.job.condorState)
      (pending : w'.gahp.pending = some p)
      (history : w'.history = .issued p.command p.args w.job.condorState :: w.history)
      (excepted : w'.excepted = w.excepted ∨ w'.excepted = some "Bad Request") : PassCase w inp w'
  | returned {p : PendingRequest} {w₁ : World} (next : GMState) {w' : World}
    (back : Back w inp p w₁)
      (edge : next = w.job.gmState ∨ w.job.gmState.returns next = true)
      (view : w'.job.view = { w.job.view with gmState := next }) (aside : Aside w₁ w') :
      PassCase w inp w'
  /-- `GM_CHECK_VM` has found an instance. -/
  | found {p : PendingRequest} {w₁ : World} (id : String) {w' : World} (back : Back w inp p w₁)
      (state : w.job.gmState = .checkVm)
      (view : w'.job.view = { w.job.view with gmState := .saveInstanceId, instanceId := some id })
      (gahp : w'.gahp = w₁.gahp) (history : w'.history = (w₁.noteInstanceId (some id)).history)
      (excepted : w'.excepted = w₁.excepted) {argv : List String} (result : p.result = some argv)
      (read : (readFindReply argv).1 = .ok (some id)) : PassCase w inp w'
  /-- `GM_CREATE_VM` has got an instance. -/
  | created {p : PendingRequest} {w₁ : World} {attrs argv : List String} (back : Back w inp p w₁)
      (state : w.job.gmState = .createVm) (result : p.result = some argv)
      (read : (readAttrsReply "DELTACLOUD_VM_SUBMIT" argv).1 = .ok attrs) :
      PassCase w inp ((w₁.submitAttempted inp.time).instanceCreated attrs inp.time)
  /-- `GM_PROBE_JOB` has got the attributes of the instance. -/
  | probed {p : PendingRequest} {w₁ : World} (attrs : List String) (back : Back w inp p w₁)
      (state : w.job.gmState = .probeJob) :
      PassCase w inp ((w₁.processInstanceAttrs attrs inp.time).goto .submitted)
  /-- `GM_STOPPED` takes the instance for destroyed. -/
  | destroyed {p : PendingRequest} {w₁ : World} (back : Back w inp p w₁)
      (state : w.job.gmState = .stopped) (unfinished : w.job.remoteJobState ≠ vmFinish) :
      PassCase w inp (w₁.destroyed inp.time)
  /-- An EXCEPT; `DoneWithJob` has its own in `GM_DELETE`. -/
  | aborts {w' : World} (message : String)
      (reason : message ≠ assertText ∧ message ≠ doneText ∨
        w.job.gmState = .delete ∧ w.job.condorState.done = false)
      (before : PassCase w inp w') : PassCase w inp (w'.except message)

theorem Aside.refl (w : World) : Aside w w := ⟨rfl, rfl, rfl⟩

section Cases
variable {w w₁ : World} {inp : PassInput} {p : PendingRequest} {state : GMState}

theorem PassCase.moves (here : w.job.gmState = state) (next : GMState)
    (edge : state.goes next = true) (w₁ : World) (view : w₁.job.view = w.job.view)
    (aside : Aside w w₁) (settled : next = .delete → w₁.job.condorState.done = true) :
    PassCase w inp (w₁.goto next) := by
  refine .steps next w.job.view.unnamed (.inr (here ▸ edge)) ?_ (fun _ => rfl)
    { aside with } fun _ => settled
  rw [← view]
  rfl

theorem PassCase.stays (active : w.job.gmState ≠ .delete) (view : w₁.job.view = w.job.view)
    (aside : Aside w w₁) : PassCase w inp w₁ :=
  .steps w.job.gmState w.job.view.unnamed (.inl rfl) view (fun _ => rfl) aside
    fun _ deleted => absurd deleted active

theorem Back.returns (back : Back w inp p w₁) (here : w.job.gmState = state) (next : GMState)
    (edge : state.returns next = true) (w₂ : World) (view : w₂.job.view = w₁.job.view)
    (aside : Aside w₁ w₂) : PassCase w inp (w₂.goto next) := by
  refine .returned next back (.inr (here ▸ edge)) ?_ { aside with }
  rw [← back.view, ← view]
  rfl

theorem Back.stays (back : Back w inp p w₁) (w₂ : World) (view : w₂.job.view = w₁.job.view)
    (aside : Aside w₁ w₂) : PassCase w inp w₂ :=
  .returned w.job.gmState back (.inl rfl) (view.trans back.view) aside

theorem Back.hold (back : Back w inp p w₁) (here : w.job.gmState = state)
    (edge : state.returns .hold = true) : PassCase w inp (w₁.takeErrorString.goto .hold) :=
  back.returns here .hold edge w₁.takeErrorString rfl ⟨rfl, rfl, rfl⟩

end Cases
end World

/-- A reader of replies whose EXCEPT is none of the two aborts. -/
def Polite {α : Type} (read : List String → CallResult α × Option String) : Prop :=
  ∀ argv message, (read argv).1 = .excepted message →
    message ≠ World.assertText ∧ message ≠ World.doneText

theorem polite_readActionReply : Polite readActionReply := by
  intro argv message
  unfold readActionReply
  split
  · split <;> exact nofun
  · rintro ⟨⟩
    decide

theorem polite_readAttrsReply (command : String)
    (other : "Bad " ++ command ++ " result" ≠ World.assertText)
    (other' : "Bad " ++ command ++ " result" ≠ World.doneText) :
    Polite (readAttrsReply command) := by
  intro argv message
  unfold readAttrsReply
  split
  · split
    · rintro ⟨⟩
      exact ⟨other, other'⟩
    · exact nofun
  · split
    · exact nofun
    · rintro ⟨⟩
      exact ⟨other, other'⟩
  · rintro ⟨⟩
    exact ⟨other, other'⟩

theorem polite_readFindReply : Polite readFindReply := by
  intro argv message
  unfold readFindReply
  split
  · split
    · rintro ⟨⟩
      decide
    · exact nofun
  · split
    · exact nofun
    · rintro ⟨⟩
      decide
  · rintro ⟨⟩
    decide

namespace World

inductive CallCase {α : Type} (w : World) (inp : PassInput)
    (read : List String → CallResult α × Option String) : CallResult α → World → Prop
  | pending {w₁ : World} (case : PassCase w inp w₁) : CallCase w inp read .pending w₁
  | notSubmitted {w₁ : World} (case : PassCase w inp w₁) : CallCase w inp read .notSubmitted w₁
  | excepted {w₁ : World} (message : String) (case : PassCase w inp (w₁.except message)) :
      CallCase w inp read (.excepted message) w₁
  | ok {w₁ : World} (a : α) {p : PendingRequest} {argv : List String} (back : Back w inp p w₁)
      (result : p.result = some argv) (good : (read argv).1 = .ok a) :
      CallCase w inp read (.ok a) w₁
  | failed {w₁ : World} {p : PendingRequest} (back : Back w inp p w₁) :
      CallCase w inp read .failed w₁
  | timedOut {w₁ : World} {p : PendingRequest} (back : Back w inp p w₁) :
      CallCase w inp read .timedOut w₁

/-- A request that the GAHP refuses is the only abort of the call itself. -/
theorem finishCall_excepted {α : Type} (w : World) (inp : PassInput) (command : Command)
    (args : List String) (timeoutText : String)
    (read : List String → CallResult α × Option String) :
    (finishCall timeoutText read (w.gahpCall inp command args)).2.excepted = w.excepted ∨
      (finishCall timeoutText read (w.gahpCall inp command args)).2.excepted =
        some "Bad Request" := by
  have called : (w.gahpCall inp command args).2.excepted = w.excepted ∨
      (w.gahpCall inp command args).2.excepted = some "Bad Request" := by
    unfold gahpCall
    generalize w.gahp.call command args inp.serverFull inp.time = r
    obtain ⟨poll, issued, gahp⟩ := r
    simp only
    split
    · exact .inr rfl
    · cases issued <;> cases poll <;> exact .inl rfl
  generalize w.gahpCall inp command args = r at called
  obtain ⟨poll, w₁⟩ := r
  cases poll with
  | reply sent argv => exact (w₁.noteError_kept (read argv).2).2.2.2.2.2 ▸ called
  | timedOut sent => exact called
  | waiting => exact called
  | notSubmitted => exact called

/-- Every call of a pass, by its return code; the pass may have prepared it. -/
theorem finishCall_case {α : Type} {w : World} (w₀ : World) (inp : PassInput) {command : Command}
    {args : List String} (timeoutText : String) {read : List String → CallResult α × Option String}
    (polite : Polite read) (asks : Asks w command args) (view : w₀.job.view = w.job.view)
    (status : w₀.job.condorState = w.job.condorState) (aside : Aside w w₀) :
    CallCase w inp read (finishCall timeoutText read (w₀.gahpCall inp command args)).1
      (finishCall timeoutText read (w₀.gahpCall inp command args)).2 := by
  have fin := w₀.finishCall_finished inp command args timeoutText read
  have aborts := w₀.finishCall_excepted inp command args timeoutText read
  have active : w.job.gmState ≠ .delete := by
    intro deleted
    have here := asks.state
    rw [deleted] at here
    cases here
  generalize finishCall timeoutText read (w₀.gahpCall inp command args) = r at fin aborts ⊢
  obtain ⟨rc, w₁⟩ := r
  cases fin with
  | replied p argv _ pending name result job resource free mode history excepted =>
    have back : Back w inp p w₁ := ⟨aside.gahp ▸ pending, name ▸ asks.state, by rw [job, view],
      free, excepted.trans aside.excepted, .inl (by rw [history, name, aside.history])⟩
    have case : PassCase w inp w₁ :=
      .returned w.job.gmState back (.inl rfl) back.view (.refl w₁)
    cases good : (read argv).1 with
    | ok a => exact .ok a back result good
    | failed => exact .failed back
    | timedOut => exact .timedOut back
    | pending => exact .pending case
    | notSubmitted => exact .notSubmitted case
    | excepted message =>
      exact .excepted message (.aborts message (.inl (polite argv message good)) case)
  | timedOut p _ pending name late job resource free mode history excepted =>
    exact .timedOut ⟨aside.gahp ▸ pending, name ▸ asks.state, by rw [job, view], free,
      excepted.trans aside.excepted, .inr ⟨by rw [history, name, aside.history], late⟩⟩
  | waiting p pending name => exact .pending (.stays active view aside)
  | issued _ free mode job resource gahp history =>
    refine .pending (.issued ⟨command, args, !inp.serverFull,
        inp.time + GahpClient.timeoutSeconds,
      none⟩ asks rfl (aside.gahp ▸ free) (aside.gahp ▸ mode) (by rw [job, view])
      (by rw [job, status]) (by rw [gahp]; rfl) ?_ (aside.excepted ▸ aborts))
    rw [history, aside.history, status]
  | notSubmitted free mode => exact .notSubmitted (.stays active view aside)

end World

end Condor.GridManager
