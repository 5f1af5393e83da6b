import Condor.GridManager.LateSubmit
import Condor.GridManager.PassOutcome

/-! A call of `GahpClient` takes the reply of the pending request when the command names agree; the
arguments are not compared. A request is pending for the state that made it, or was left behind by
it. The states that follow ask for something else, with one exception: `GM_STOPPED` can leave its
destroy request to a job that goes on to a new instance. -/
namespace Condor.GridManager
open Condor.Lib

namespace DCloudJob

def submitArgs (j : DCloudJob) : List String :=
  [gahpArg j.serviceUrl, gahpArg j.username, gahpArg j.password, gahpArg j.imageId,
    gahpArg j.instanceName, gahpArg j.realmId, gahpArg j.hwpId, gahpArg j.hwpMemory,
    gahpArg j.hwpCpu, gahpArg j.hwpStorage, gahpArg j.keyname, gahpArg j.userdata]

def instanceArgs (j : DCloudJob) : List String :=
  [gahpArg j.serviceUrl, gahpArg j.username, gahpArg j.password, gahpArg j.instanceId]

/-- The call that `doEvaluateState` makes to the client in each state. -/
def request (j : DCloudJob) : Option (Command × List String) :=
  match j.gmState with
  | .checkVm => some (.vmFind, j.instanceArgs)
  | .createVm => some (.vmSubmit, j.submitArgs)
  | .startVm => some (.vmAction, World.actionArgs j "start")
  | .cancel => some (.vmAction, World.actionArgs j "stop")
  | .stopped => some (.vmAction, World.actionArgs j "destroy")
  | .probeJob => some (.vmInfo, j.instanceArgs)
  | _ => none

variable {j : DCloudJob}

theorem request_asks {command : Command} {args : List String}
    (asked : j.request = some (command, args)) : j.gmState.asks = some command := by
  unfold request at asked
  unfold GMState.asks
  split at asked <;> simp_all

/-- Outside `GM_CREATE_VM` the request depends on nothing but the view of the job. -/
theorem request_of_view {j' : DCloudJob} (state : j'.view.gmState = j.view.gmState)
    (id : j'.view.instanceId = j.view.instanceId) (address : j'.view.address = j.view.address)
    (other : j.gmState ≠ .createVm) : j'.request = j.request := by
  simp only [view, List.cons.injEq, and_true] at state id address
  obtain ⟨url, user, password⟩ := address
  unfold request
  rw [state]
  cases here : j.gmState with
  | createVm => exact absurd here other
  | _ => simp only [instanceArgs, World.actionArgs, url, user, password, id]

theorem request_of_action {a : String} (action : j.gmState.action = some a) :
    j.request = some (.vmAction, World.actionArgs j a) := by
  unfold request
  unfold GMState.action at action
  split at action <;> simp_all

end DCloudJob

def GMState.abandons : GMState → Command → Bool
  | .hold, .vmSubmit | .delete, .vmSubmit => true
  | .cancel, .vmInfo => true
  | .clearRequest, .vmAction | .unsubmitted, .vmAction | .saveInstanceName, .vmAction
  | .createVm, .vmAction | .hold, .vmAction | .delete, .vmAction => true
  | _, _ => false

def GMState.carries (state : GMState) (command : Command) : Prop :=
  state.asks = some command ∨ state.abandons command = true

namespace GMState
variable {state next : GMState} {command : Command}

theorem not_abandons_of_asks (asks : state.asks = some command) :
    state.abandons command = false := by
  cases state <;> cases asks <;> rfl

/-- Every move but one leaves the request where it is out of reach. -/
theorem abandons_goes (edge : state.goes next = true) (carried : state.carries command)
    (plain : state ≠ .createVm ∨ next ≠ .stopped) : next.abandons command = true := by
  unfold carries at carried
  unfold goes at edge
  split at edge <;> cases command <;> simp_all [asks, abandons]

theorem abandons_clears (edge : state.clears next = true) (carried : state.carries command) :
    next.abandons command = true := by
  unfold carries at carried
  unfold clears at edge
  split at edge <;> cases command <;> simp_all [asks, abandons]

end GMState

namespace World

/-- Whose request is pending. -/
structure Matched (w : World) : Prop where
  issued : ∀ p, w.gahp.pending = some p →
    ∃ status, .issued p.command p.args status ∈ w.history
  owned : ∀ p, w.gahp.pending = some p →
    w.job.request = some (p.command, p.args) ∨ w.job.gmState.abandons p.command = true

/-- A call of the job's state that returns a reply returns that of a request which was
issued with the arguments of the call. -/
def RepliesMatched (w : World) : Prop :=
  ∀ (inp : PassInput) (command : Command) (args sent argv : List String) (w' : World),
    w.job.request = some (command, args) →
      w.gahpCall inp command args = (.reply sent argv, w') →
      sent = args ∧ ∃ status, .issued command args status ∈ w.history

/-- Only a pending request of that name brings a reply. -/
theorem pending_of_reply {w w' : World} {inp : PassInput} {command : Command}
    {args sent argv : List String}
    (answered : w.gahpCall inp command args = (.reply sent argv, w')) :
    ∃ p, w.gahp.pending = some p ∧ p.command = command ∧ p.args = sent := by
  have poll : (w.gahp.call command args inp.serverFull inp.time).1 = .reply sent argv := by
    have first := congrArg Prod.fst answered
    unfold gahpCall at first
    simp only at first
    split at first <;> exact first
  unfold GahpClient.call at poll
  split at poll
  · next p pending =>
      split at poll
      · next name =>
          split at poll
          · cases poll
            exact ⟨p, pending, name, rfl⟩
          · split at poll <;> cases poll
      · split at poll <;> cases poll
  · split at poll <;> cases poll

theorem Matched.repliesMatched {w : World} (h : w.Matched) : w.RepliesMatched := by
  intro inp command args sent argv w' asked answered
  obtain ⟨p, pending, rfl, rfl⟩ := pending_of_reply answered
  have same : p.args = args := by
    rcases h.owned p pending with own | left
    · rw [own] at asked
      cases asked
      rfl
    · rw [GMState.not_abandons_of_asks (DCloudJob.request_asks asked)] at left
      cases left
  subst same
  exact ⟨rfl, h.issued p pending⟩

section Steps
variable {w w' : World} {inp : PassInput}

theorem Matched.carries (h : w.Matched) {p : PendingRequest} (pending : w.gahp.pending = some p) :
    w.job.gmState.carries p.command :=
  (h.owned p pending).imp_left DCloudJob.request_asks

theorem Matched.of_free (free : w.gahp.pending = none) : w.Matched where
  issued := fun p pending => by
    rw [free] at pending
    cases pending
  owned := fun p pending => by
    rw [free] at pending
    cases pending

theorem Matched.keep (h : w.Matched) (pending : w'.gahp.pending = w.gahp.pending)
    (past : ∀ e ∈ w.history, e ∈ w'.history)
    (owned : ∀ p, w.gahp.pending = some p →
      w'.job.request = some (p.command, p.args) ∨ w'.job.gmState.abandons p.command = true) :
    w'.Matched where
  issued := fun p here => by
    obtain ⟨status, issued⟩ := h.issued p (pending ▸ here)
    exact ⟨status, past _ issued⟩
  owned := fun p here => owned p (pending ▸ here)

theorem Matched.same (h : w.Matched) (pending : w'.gahp.pending = w.gahp.pending)
    (past : ∀ e ∈ w.history, e ∈ w'.history) (state : w'.job.gmState = w.job.gmState)
    (request : w'.job.request = w.job.request) : w'.Matched := by
  refine h.keep pending past fun p here => ?_
  rw [state, request]
  exact h.owned p here

theorem Matched.left (h : w.Matched) (pending : w'.gahp.pending = w.gahp.pending)
    (past : ∀ e ∈ w.history, e ∈ w'.history)
    (moves : ∀ command, w.job.gmState.carries command →
      w'.job.gmState.abandons command = true) : w'.Matched :=
  h.keep pending past fun _ here => .inr (moves _ (h.carries here))

theorem subset_noteInstanceId (w : World) (id : Option String) :
    ∀ e ∈ w.history, e ∈ (w.noteInstanceId id).history := by
  intro e member
  unfold noteInstanceId
  split
  · exact List.mem_cons_of_mem _ member
  · exact List.mem_cons_of_mem _ member
  · exact member

end Steps
end World

variable {command : Command} {args : List String} {w : World} {inp : PassInput}
variable {α : Type} {read : List String → CallResult α × Option String} {rc : CallResult α}

theorem Finished.matched {w' : World} (fin : Finished w inp command args read rc w') (h : w.Matched)
    (asked : w.job.request = some (command, args)) : w'.Matched := by
  cases fin with
  | replied p argv _ pending name result job resource free mode history excepted =>
    exact .of_free free
  | timedOut p _ pending name late job resource free mode history excepted => exact .of_free free
  | waiting p pending name => exact h
  | issued _ free mode job resource gahp history =>
    have made : w'.gahp.pending =
        some ⟨command, args, !inp.serverFull, inp.time + GahpClient.timeoutSeconds, none⟩ := by
      rw [gahp]
      rfl
    constructor
    · intro p pending
      cases made.symm.trans pending
      exact ⟨w.job.condorState, history ▸ List.mem_cons_self⟩
    · intro p pending
      cases made.symm.trans pending
      exact .inl (job ▸ asked)
  | notSubmitted free mode => exact h

theorem Finished.free_of_ended {w' : World} (fin : Finished w inp command args read rc w')
    (waits : rc ≠ .pending) (refused : rc ≠ .notSubmitted) : w'.gahp.pending = none := by
  cases fin with
  | replied p argv _ pending name result job resource free mode history excepted => exact free
  | timedOut p _ pending name late job resource free mode history excepted => exact free
  | waiting p pending name => exact absurd rfl waits
  | issued _ free mode job resource gahp history => exact absurd rfl waits
  | notSubmitted free mode => exact absurd rfl refused

namespace World
section Passes
variable {w w' : World} {inp : PassInput}

theorem gahp_instanceCreated (w : World) (attrs : List String) (time : Int) :
    (w.instanceCreated attrs time).gahp = w.gahp := by
  have kept := (processInstanceAttrs_kept w attrs time).1
  unfold instanceCreated
  simp only
  split
  · exact kept
  · split <;> exact kept

theorem submitInstance_matched (h : w.Matched) (here : w.job.gmState = .createVm)
    (running : (w.submitInstance inp).excepted = none) : (w.submitInstance inp).Matched := by
  have asked : w.job.request = some (.vmSubmit, w.job.submitArgs) := by
    unfold DCloudJob.request
    rw [here]
  have fin := w.finishCall_finished inp .vmSubmit w.job.submitArgs "DELTACLOUD_VM_SUBMIT timed out"
    (readAttrsReply "DELTACLOUD_VM_SUBMIT")
  unfold submitInstance at running ⊢
  change Finished w inp _ _ _ (w.dcloudSubmit inp).1 (w.dcloudSubmit inp).2 at fin
  generalize w.dcloudSubmit inp = r at fin running ⊢
  obtain ⟨rc, w₁⟩ := r
  cases rc with
  | pending => exact fin.matched h asked
  | notSubmitted => exact fin.matched h asked
  | excepted message => cases running
  | ok attrs =>
    refine .of_free ?_
    rw [gahp_instanceCreated]
    exact fin.free_of_ended nofun nofun
  | failed => exact .of_free (fin.free_of_ended nofun nofun)
  | timedOut => exact .of_free (fin.free_of_ended nofun nofun)

/-- `GM_CREATE_VM` gives up an instance that it has not requested yet. -/
def GivesUp (w : World) (now : Int) : Prop :=
  w.job.gmState = .createVm ∧ w.job.numSubmitAttempts < maxSubmitAttempts ∧
    w.job.condorState.leaving = true ∧
    (now < w.job.lastSubmitAttempt + submitInterval ∨
      (w.resource.requestSubmit w.job.self).map Prod.fst = some false)

variable {now : Int}

theorem gmCreateVm_matched (h : w.Matched) (here : w.job.gmState = .createVm)
    (purged : w.GivesUp now → w.gahp.pending = none)
    (running : (w.gmCreateVm now inp).excepted = none) : (w.gmCreateVm now inp).Matched := by
  unfold gmCreateVm at running ⊢
  split at running
  · next attempts =>
      rw [if_pos attempts]
      refine h.left rfl (fun _ member => member) fun command carried => ?_
      exact GMState.abandons_goes (here ▸ rfl) carried (.inr nofun)
  · next attempts =>
      rw [if_neg attempts]
      have few : w.job.numSubmitAttempts < maxSubmitAttempts := Nat.lt_of_not_le attempts
      split at running
      · next due =>
          rw [if_pos due]
          split at running
          · cases running
          · next r refused =>
              split
              · next leaving =>
                  exact .of_free (purged ⟨here, few, leaving, .inr (by rw [refused]; rfl)⟩)
              · exact h.same rfl (fun _ member => member) rfl rfl
          · exact submitInstance_matched (h.same rfl (fun _ member => member) rfl rfl) here running
      · next early =>
          rw [if_neg early]
          split
          · next leaving =>
              exact .of_free (purged ⟨here, few, leaving, .inl (Int.not_le.mp early)⟩)
          · exact h

theorem probeInstance_matched (h : w.Matched) (here : w.job.gmState = .probeJob)
    (running : (w.probeInstance now inp).excepted = none) :
    (w.probeInstance now inp).Matched := by
  have asked : w.job.request = some (.vmInfo, w.job.instanceArgs) := by
    unfold DCloudJob.request
    rw [here]
  have fin := w.finishCall_finished inp .vmInfo w.job.instanceArgs "DELTACLOUD_VM_INFO timed out"
    (readAttrsReply "DELTACLOUD_VM_INFO")
  unfold probeInstance at running ⊢
  change Finished w inp _ _ _ (w.dcloudInfo inp).1 (w.dcloudInfo inp).2 at fin
  generalize w.dcloudInfo inp = r at fin running ⊢
  obtain ⟨rc, w₁⟩ := r
  have failed : w₁.gahp.pending = none → ((w₁.probed now).probeFailed now inp).Matched := by
    intro free
    refine .of_free ?_
    unfold probeFailed
    simp only
    split
    · exact free
    · split <;> exact free
  cases rc with
  | pending => exact fin.matched h asked
  | notSubmitted => exact fin.matched h asked
  | excepted message => cases running
  | ok attrs =>
    refine .of_free ?_
    change (World.processInstanceAttrs _ attrs inp.time).gahp.pending = none
    rw [(processInstanceAttrs_kept _ attrs inp.time).1]
    exact fin.free_of_ended nofun nofun
  | failed => exact failed (fin.free_of_ended nofun nofun)
  | timedOut => exact failed (fin.free_of_ended nofun nofun)

theorem gmProbeJob_matched (h : w.Matched) (here : w.job.gmState = .probeJob)
    (running : (w.gmProbeJob now inp).excepted = none) : (w.gmProbeJob now inp).Matched := by
  have unasked : (w.setJob { w.job with probeNow := false }).Matched :=
    h.same rfl (fun _ member => member) rfl rfl
  unfold gmProbeJob at running ⊢
  simp only at running ⊢
  split
  · refine h.left rfl (fun _ member => member) fun command carried => ?_
    exact GMState.abandons_goes (here ▸ rfl) carried (.inr nofun)
  · next stays =>
      rw [if_neg stays] at running
      split
      · exact unasked
      · next due =>
          rw [if_neg due] at running
          exact probeInstance_matched unasked here running

theorem Asks.request (asks : Asks w command args) (create : w.job.gmState ≠ .createVm)
    (probe : w.job.gmState ≠ .probeJob) :
    w.job.request = some (command, args) := by
  have name := asks.state
  cases command with
  | vmAction =>
    obtain ⟨a, action, rfl⟩ := asks.action rfl
    exact DCloudJob.request_of_action action
  | vmFind =>
    rw [asks.find rfl]
    unfold GMState.asks at name
    split at name <;> simp_all [DCloudJob.request, DCloudJob.instanceArgs, DCloudJob.view]
  | vmSubmit => unfold GMState.asks at name; split at name <;> simp_all
  | vmInfo => unfold GMState.asks at name; split at name <;> simp_all
  | vmStatusAll => unfold GMState.asks at name; split at name <;> simp_all

theorem PassCase.matched (case : PassCase w inp w') (h : w.Matched)
    (create : w.job.gmState ≠ .createVm) (probe : w.job.gmState ≠ .probeJob)
    (running : w'.excepted = none) : w'.Matched := by
  have leaves : ∀ {w' : World}, w'.gahp = w.gahp → w'.history = w.history →
      (∀ command, w.job.gmState.carries command → w'.job.gmState.abandons command = true) →
      w'.Matched := by
    intro w' gahp history moves
    exact h.left (congrArg GahpClient.pending gahp) (fun _ member => history ▸ member) moves
  cases case with
  | steps next unnamed edge view named aside settled =>
    have state : w'.job.gmState = next := congrArg InstanceView.gmState view
    rcases edge with rfl | goes
    · refine h.same (congrArg GahpClient.pending aside.gahp) (fun _ member => ?_) state ?_
      · exact aside.history ▸ member
      · exact DCloudJob.request_of_view state (by rw [view]) (by rw [view]) create
    · refine leaves aside.gahp aside.history fun command carried => ?_
      rw [state]
      exact GMState.abandons_goes goes carried (.inl create)
  | checks state unknown named view aside | restored state known view aside =>
    refine leaves aside.gahp aside.history fun command carried => ?_
    rw [state] at carried
    rcases carried with asks | left
    · cases asks
    · cases command <;> cases left
  | clears next edge state unknown synced blank gahp history excepted settled gone careless =>
    refine h.left (congrArg GahpClient.pending gahp) (fun e member => ?_) ?_
    · exact history ▸ subset_noteInstanceId w none e member
    · intro command carried
      exact (show w'.job.gmState = next from state) ▸ GMState.abandons_clears edge carried
  | issued p asks unanswered free mode view status pending history excepted =>
    have asked := asks.request create probe
    constructor
    · intro q here
      cases pending.symm.trans here
      exact ⟨w.job.condorState, history ▸ List.mem_cons_self⟩
    · intro q here
      cases pending.symm.trans here
      refine .inl (Eq.trans ?_ asked)
      exact DCloudJob.request_of_view (congrArg _ view) (congrArg _ view) (congrArg _ view) create
  | returned next back edge view aside =>
    exact .of_free ((congrArg GahpClient.pending aside.gahp).trans back.free)
  | found id back state view gahp history excepted result read =>
    exact .of_free ((congrArg GahpClient.pending gahp).trans back.free)
  | created back state result read => exact absurd state create
  | probed attrs back state => exact absurd state probe
  | destroyed back state unfinished =>
    obtain ⟨gahp, -⟩ := destroyed_spec _ inp.time
    exact .of_free ((congrArg GahpClient.pending gahp).trans back.free)
  | aborts message reason before => cases running

theorem pass_matched (h : w.Matched) (purged : w.GivesUp now → w.gahp.pending = none)
    (running : (w.pass now inp).excepted = none) : (w.pass now inp).Matched := by
  by_cases create : w.job.gmState = .createVm
  · have turn : w.pass now inp = w.gmCreateVm now inp := by
      unfold pass
      rw [create]
    rw [turn] at running ⊢
    exact gmCreateVm_matched h create purged running
  · by_cases probe : w.job.gmState = .probeJob
    · have turn : w.pass now inp = w.gmProbeJob now inp := by
        unfold pass
        rw [probe]
      rw [turn] at running ⊢
      exact gmProbeJob_matched h probe running
    · exact (w.pass_case now inp).matched h create probe running

theorem environment_request {input : Input} (taken : w.environment input = some w') :
    w'.job.gmState = w.job.gmState ∧ w'.job.request = w.job.request := by
  have told : ∀ {j : DCloudJob}, DCloudJob.StatusOnly w.job j →
      j.gmState = w.job.gmState ∧ j.request = w.job.request := fun only =>
    ⟨only.gmState, only.member DCloudJob.request fun _ => rfl⟩
  have reported : ∀ (status : Option String) (time : Int),
      (w.job.statusUpdate status time).gmState = w.job.gmState ∧
        (w.job.statusUpdate status time).request = w.job.request := fun status time =>
    ⟨DCloudJob.statusUpdate_member w.job time status DCloudJob.gmState (fun _ => rfl)
      fun _ _ _ => rfl, DCloudJob.statusUpdate_member w.job time status DCloudJob.request
      (fun _ => rfl) fun _ _ _ => rfl⟩
  cases input with
  | evaluate now => cases taken
  | pass inp => cases taken
  | scheddStatus u time =>
    cases taken
    exact told (DCloudJob.jobAdUpdateFromSchedd_statusOnly _ time u)
  | leaseExpired time =>
    cases taken
    exact told (DCloudJob.jobLeaseReceivedExpired_statusOnly _ time)
  | periodicPolicy action reason time =>
    cases taken
    exact told (DCloudJob.evalPeriodicJobExpr_statusOnly _ time action reason)
  | scheddCommit =>
    cases taken
    exact ⟨rfl, rfl⟩
  | gahpReply argv =>
    cases taken
    exact ⟨rfl, rfl⟩
  | gahpSends time =>
    cases taken
    exact ⟨rfl, rfl⟩
  | batchStatus listing time =>
    cases taken
    unfold batchStatus
    split
    · exact reported none time
    · split
      · exact reported none time
      · split
        · exact ⟨rfl, rfl⟩
        · exact reported _ time
  | checkRemoteStatus time =>
    cases taken
    exact told (DCloudJob.checkRemoteStatus_statusOnly _ time)
  | resourceDown time =>
    cases taken
    exact told (DCloudJob.notifyResourceDown_statusOnly _ time)
  | resourceUp =>
    cases taken
    exact told (DCloudJob.notifyResourceUp_statusOnly _)
  | otherRequest other =>
    simp only [environment] at taken
    split at taken
    · cases taken
    · obtain ⟨answer, -, rfl⟩ := Option.map_eq_some_iff.mp taken
      exact ⟨rfl, rfl⟩
  | otherCancel other =>
    simp only [environment] at taken
    split at taken
    · cases taken
    · cases taken
      exact ⟨rfl, rfl⟩
  | reconfig limit =>
    cases taken
    exact ⟨rfl, rfl⟩

/-- A request whose reply arrives, or that is sent at last, is the same request. -/
theorem Matched.stored (h : w.Matched) (job : w'.job = w.job) (history : w'.history = w.history)
    (stored : ∀ q, w'.gahp.pending = some q →
      ∃ p, w.gahp.pending = some p ∧ q.command = p.command ∧ q.args = p.args) : w'.Matched where
  issued := fun q here => by
    obtain ⟨p, pending, name, arguments⟩ := stored q here
    rw [name, arguments, history]
    exact h.issued p pending
  owned := fun q here => by
    obtain ⟨p, pending, name, arguments⟩ := stored q here
    rw [name, arguments, job]
    exact h.owned p pending

theorem EnvironmentCase.matched {input : Input} (case : EnvironmentCase w input w')
    (h : w.Matched) (state : w'.job.gmState = w.job.gmState)
    (request : w'.job.request = w.job.request) : w'.Matched := by
  cases case with
  | aside view aside settled =>
    refine h.same (congrArg GahpClient.pending aside.gahp) (fun _ member => ?_) state request
    exact aside.history ▸ member
  | replied argv =>
    refine h.stored rfl rfl fun q here => ?_
    obtain ⟨p, pending, name, arguments, -⟩ := pending_stash here
    exact ⟨p, pending, name, arguments⟩
  | sent time =>
    refine h.stored rfl rfl fun q here => ?_
    obtain ⟨p, pending, name, arguments, -⟩ := pending_sendWaiting here
    exact ⟨p, pending, name, arguments⟩
  | reported status time known same =>
    exact h.same rfl (fun _ member => List.mem_cons_of_mem _ member) state request

end Passes
end World

/-- The condition on a pass: no request is outstanding when `GM_CREATE_VM` gives up. -/
def World.PurgedPass (w : World) : Phase → Prop
  | .idle => True
  | .evaluating now => w.GivesUp now → w.gahp.pending = none

/-- The condition on a step; only passes have one. -/
def Purged (s : System) : Input → Prop
  | .pass _ => s.world.PurgedPass s.phase
  | _ => True

instance (w : World) (now : Int) : Decidable (w.GivesUp now) := by
  delta World.GivesUp
  infer_instance

instance (w : World) (phase : Phase) : Decidable (w.PurgedPass phase) :=
  match phase with
  | .idle => .isTrue trivial
  | .evaluating now => inferInstanceAs (Decidable (w.GivesUp now → w.gahp.pending = none))

instance (s : System) (input : Input) : Decidable (Purged s input) :=
  match input with
  | .pass _ => inferInstanceAs (Decidable (s.world.PurgedPass s.phase))
  | .evaluate _ | .scheddStatus _ _ | .leaseExpired _ | .periodicPolicy _ _ _ | .scheddCommit
  | .gahpReply _ | .gahpSends _ | .batchStatus _ _ | .checkRemoteStatus _ | .resourceDown _
  | .resourceUp | .otherRequest _ | .otherCancel _ | .reconfig _ => .isTrue trivial

namespace System
variable {s t : System} {input : Input}

/-- Only a pass changes what the job asks for. -/
theorem step_request (taken : s.step input = some t) (outside : ∀ inp, input ≠ .pass inp) :
    t.world.job.gmState = s.world.job.gmState ∧ t.world.job.request = s.world.job.request := by
  unfold step at taken
  split at taken
  · cases taken
  · split at taken
    · cases taken
      exact ⟨rfl, rfl⟩
    · next inp _ => exact absurd rfl (outside inp)
    · obtain ⟨w, moved, rfl⟩ := Option.map_eq_some_iff.mp taken
      exact World.environment_request moved
    · obtain ⟨w, moved, rfl⟩ := Option.map_eq_some_iff.mp taken
      exact World.environment_request moved
    · cases taken

theorem step_pass (taken : s.step (.pass inp) = some t) :
    ∃ now, s.phase = .evaluating now ∧ t.world = s.world.pass now inp := by
  unfold step at taken
  split at taken
  · cases taken
  · cases phase : s.phase with
    | idle =>
      rw [phase] at taken
      cases taken
    | evaluating now =>
      rw [phase] at taken
      cases taken
      exact ⟨now, rfl, rfl⟩

/-- A step under the condition keeps the invariant, as long as there is no EXCEPT. -/
theorem step_matched (h : s.world.excepted = none → s.world.Matched) (purged : Purged s input)
    (taken : s.step input = some t) (running : t.world.excepted = none) : t.world.Matched := by
  obtain ⟨-, before, case⟩ := step_case taken
  have matched := h before
  by_cases passes : ∃ inp, input = .pass inp
  · obtain ⟨inp, rfl⟩ := passes
    obtain ⟨now, evaluating, turned⟩ := step_pass taken
    unfold Purged at purged
    rw [evaluating] at purged
    rw [turned] at running ⊢
    exact World.pass_matched matched purged running
  · have kept := step_request taken fun inp pass => passes ⟨inp, pass⟩
    cases case with
    | enters now => exact matched.same rfl (fun _ member => member) rfl rfl
    | turns now inp evaluating => exact absurd ⟨inp, rfl⟩ passes
    | outside deleted case => exact case.matched matched kept.1 kept.2

end System

/-- In every run whose steps meet the condition, every call that returns a reply returns
that of a request with its own arguments. -/
theorem purged_runs_match_replies (self : JobRef) (ad : JobAd) (resubmit gahpDefined : Bool)
    (time : Int) (resource : BaseResource) (table : Utils.HashTable String JobRef)
    {inputs : List Input} {t : System}
    (run : Run (Guarded (Takes System.step) Purged)
      (System.initial (World.construct self ad resubmit gahpDefined time resource table)) inputs t)
    (running : t.world.excepted = none) : t.world.RepliesMatched := by
  have start : (System.initial (World.construct self ad resubmit gahpDefined time resource
      table)).world.Matched :=
    .of_free (World.construct_cases self ad resubmit gahpDefined time resource table).1
  have matched := run.invariant (I := fun s => s.world.excepted = none → s.world.Matched)
    (fun _ => start) fun _ _ _ h taken => System.step_matched h taken.1 taken.2
  exact (matched running).repliesMatched

/-- The job of a new instance `i1` is held. Its instance is gone before the answer to the
destroy request arrives, and the schedd takes the job for completed. It starts over, gets
the answer, and is removed while it waits to request another instance. -/
def startOverHeld : List Input :=
  nameSaved ++ requestInstance ++
    [.gahpReply ["1", nullString, "id=i1", "state=RUNNING"], .evaluate 401, openPass 401,
      openPass 401, .scheddCommit, .evaluate 402, openPass 402, openPass 402, openPass 402,
      .scheddStatus ⟨.held, fun _ => none, false⟩ 403, .evaluate 403, openPass 403, openPass 403,
      .gahpReply ["2", nullString], .evaluate 404, openPass 404, openPass 404,
      .batchStatus [("i1", "FINISH")] 405, .evaluate 406, openPass 406, openPass 406,
      .scheddStatus ⟨.completed, fun _ => none, false⟩ 407, .evaluate 408, openPass 408,
      .scheddCommit, .evaluate 409, openPass 409, openPass 409, openPass 409, .scheddCommit,
      .gahpReply ["3", nullString], .scheddStatus ⟨.removed, fun _ => none, false⟩ 410,
      .evaluate 411, openPass 411, openPass 411]

def World.taken (w : World) (inp : PassInput) : Option (List String × GahpClient.Poll) :=
  w.job.request.map fun call => (call.2, (w.gahpCall inp call.1 call.2).1)

theorem World.not_repliesMatched {sent argv : List String}
    (taken : w.taken inp = some (args, .reply sent argv)) (other : sent ≠ args) :
    ¬w.RepliesMatched := by
  intro matched
  obtain ⟨⟨command, asked⟩, call, same⟩ := Option.map_eq_some_iff.mp taken
  rw [Prod.mk.injEq] at same
  obtain ⟨rfl, answered⟩ := same
  exact other (matched inp command asked sent argv _ call (Prod.ext answered rfl)).1

theorem startOverHeld_taken :
    (execute System.step (System.initial newJob) startOverHeld).map
      (·.world.taken ⟨411, true, false, true, .staysInQueue, "", none, none⟩) =
      some (some (["http://cloud", "user", "password", nullString, "destroy"],
        .reply ["http://cloud", "user", "password", "i1", "destroy"] ["3", nullString])) := by
  decide +kernel

/-- The request to destroy no instance gets the answer to the request to destroy `i1`. -/
theorem startOver_takes_old_reply :
    ∃ t, System.Runs (System.initial newJob) startOverHeld t ∧ ¬t.world.RepliesMatched := by
  obtain ⟨t, ended, taken⟩ := Option.map_eq_some_iff.mp startOverHeld_taken
  exact ⟨t, .of_execute ended, World.not_repliesMatched taken (by decide)⟩

def submitAnswered : List Input :=
  nameSaved ++ requestInstance ++
    [.gahpReply ["1", nullString, "id=i1", "state=RUNNING"], .evaluate 401]

def newInstanceArgs : List String :=
  ["http://cloud", "user", "password", "image", "Condor_NoPool_schedd#1.0", nullString, nullString,
    nullString, nullString, nullString, nullString, nullString]

theorem submitAnswered_taken :
    (execute (guardedStep System.step Purged) (System.initial newJob) submitAnswered).map
      (fun t => (t.world.excepted,
        t.world.taken ⟨401, true, false, true, .staysInQueue, "", none, none⟩)) =
      some (none, some (newInstanceArgs,
        .reply newInstanceArgs ["1", nullString, "id=i1", "state=RUNNING"])) := by
  decide +kernel

theorem purged_runs_match_replies_submit :
    ∃ t, Run (Guarded (Takes System.step) Purged) (System.initial newJob) submitAnswered t ∧
      t.world.taken ⟨401, true, false, true, .staysInQueue, "", none, none⟩ =
        some (newInstanceArgs,
          .reply newInstanceArgs ["1", nullString, "id=i1", "state=RUNNING"]) ∧
      t.world.RepliesMatched := by
  obtain ⟨t, ended, answered⟩ := Option.map_eq_some_iff.mp submitAnswered_taken
  have run : Run (Guarded (Takes System.step) Purged) (System.initial newJob) submitAnswered t :=
    .of_execute_guarded ended
  exact ⟨t, run, congrArg Prod.snd answered, purged_runs_match_replies 1 newAd false true 0
    ⟨[], [], 10⟩ (.create (fun _ => 0) .rejectDuplicateKeys) run (congrArg Prod.fst answered)⟩

end Condor.GridManager
