import Condor.GridManager.StepCases

/-! The history says when an id was cleared, which states the cloud reported and which requests were
answered. The invariant ties `remoteJobState` to the last report and a pending action to its state.
-/
namespace Condor.GridManager
open Condor.Lib

/-- The last state reported for the present instance; `initial` is the one saved in
the job ad of a restored instance. A new instance has no report yet. -/
def lastReported (initial : String) : List HistoryEvent → String
  | [] => initial
  | .reported status :: _ => status
  | .created _ :: _ => ""
  | _ :: past => lastReported initial past

def DestroyAnswered (id : String) (past : List HistoryEvent) : Prop :=
  ∃ url user password, .answered .vmAction [url, user, password, id, "destroy"] ∈ past

/-- No instance was forgotten: whenever an id was cleared, the instance had been
reported gone or a destroy request for it had been answered. -/
def Remembered (initial : String) : List HistoryEvent → Prop
  | [] => True
  | .cleared id :: past =>
    (lastReported initial past = vmFinish ∨ DestroyAnswered id past) ∧ Remembered initial past
  | _ :: past => Remembered initial past

def GMState.early : GMState → Bool
  | .checkVm | .unsubmitted | .saveInstanceName | .createVm => true
  | _ => false

def GMState.owned : GMState → Bool
  | .startVm | .saveInstanceId | .submitted | .probeJob | .cancel | .doneSave => true
  | _ => false

def GMState.leaving : GMState → Bool
  | .hold | .delete => true
  | _ => false

variable {state next : GMState}

/-- A move keeps the kind of a state: it leads to an early one or to one that owns the
instance from such a state only. -/
theorem GMState.goes_kind (edge : state.goes next = true) :
    state.action = none ∧ (next.early = true → state.early = true) ∧
      (next.owned = true → state.owned = true) ∧ (next.fresh = true → state.fresh = true) ∧
      (state.leaving = true → next.leaving = true) := by
  unfold goes at edge
  split at edge <;> first | exact ⟨rfl, by decide, by decide, by decide, by decide⟩ | cases edge

theorem GMState.returns_kind (edge : state.returns next = true) :
    (next.early = true → state.early = true) ∧ (next.owned = true → state.owned = true) ∧
      (next.fresh = true → state.fresh = true) := by
  unfold returns at edge
  split at edge <;> first | exact ⟨by decide, by decide, by decide⟩ | cases edge

theorem GMState.clears_kind (edge : state.clears next = true) :
    (next.early = true → next = .unsubmitted) ∧ next.fresh = false ∧ next.owned = false ∧
      state.leaving = false := by
  unfold clears at edge
  split at edge <;> first | exact ⟨by decide, rfl, rfl, rfl⟩ | cases edge

theorem GMState.leaving_of_asks {command : Command} (asks : state.asks = some command) :
    state.leaving = false := by
  cases state <;> first | rfl | cases asks

/-- The invariant of a job that is not on its way out. -/
structure Tracked (initial : String) (v : InstanceView) (pending : Option PendingRequest)
    (history : List HistoryEvent) : Prop where
  synced : v.savedStatus = v.remoteJobState
  reported : v.instanceId ≠ none → v.remoteJobState = vmFinish →
    lastReported initial history = vmFinish
  early : v.gmState.early = true → v.instanceId = none ∧ v.remoteJobState ≠ vmFinish
  fresh : v.gmState.fresh = true → v.instanceId = none → v.unnamed = false →
    v.remoteJobState ≠ vmFinish
  owned : v.gmState.owned = true → v.instanceId ≠ none
  action : ∀ p, pending = some p → p.command = .vmAction → v.instanceId ≠ none →
    ∃ a, v.gmState.action = some a ∧ p.args = v.address ++ [gahpArg v.instanceId, a]

/-- Only jobs on hold, jobs that are done and an aborted gridmanager stop being tracked. -/
def World.Live (w : World) : Prop :=
  w.excepted = none ∧ w.job.gmState ≠ .hold ∧ w.job.gmState ≠ .delete

structure World.Inv (initial : String) (w : World) : Prop where
  remembered : Remembered initial w.history
  tracked : w.Live → Tracked initial w.job.view w.gahp.pending w.history

namespace Tracked
variable {initial : String} {v : InstanceView} {pending : Option PendingRequest}
  {history : List HistoryEvent}

theorem advance (h : Tracked initial v pending history) {unnamed : Bool}
    {pending' : Option PendingRequest} {history' : List HistoryEvent}
    (named : v.gmState.fresh = true → unnamed = v.unnamed)
    (early : next.early = true → v.gmState.early = true)
    (owned : next.owned = true → v.gmState.owned = true)
    (fresh : next.fresh = true → v.gmState.fresh = true)
    (action : ∀ p, pending' = some p → p.command = .vmAction → v.instanceId ≠ none →
      ∃ a, next.action = some a ∧ p.args = v.address ++ [gahpArg v.instanceId, a])
    (same : lastReported initial history' = lastReported initial history) :
    Tracked initial { v with gmState := next, unnamed := unnamed } pending' history' where
  synced := h.synced
  reported := fun known finished => same.trans (h.reported known finished)
  early := fun here => h.early (early here)
  fresh := fun here unknown isNamed =>
    h.fresh (fresh here) unknown ((named (fresh here)).symm.trans isNamed)
  owned := fun here => h.owned (owned here)
  action := action

theorem forgotten (synced : v.savedStatus = v.remoteJobState) (unknown : v.instanceId = none)
    (early : v.gmState.early = true → v.remoteJobState ≠ vmFinish) (fresh : v.gmState.fresh = false)
    (owned : v.gmState.owned = false) : Tracked initial v pending history where
  synced := synced
  reported := fun known => absurd unknown known
  early := fun here => ⟨unknown, early here⟩
  fresh := fun here => by rw [fresh] at here; cases here
  owned := fun here => by rw [owned] at here; cases here
  action := fun _ _ _ known => absurd unknown known

end Tracked

namespace World
variable {initial : String} {w w' : World}

theorem live_iff : w.Live ↔ w.excepted = none ∧ w.job.gmState.leaving = false := by
  unfold Live
  cases w.job.gmState <;> simp [GMState.leaving]

theorem Inv.of_leaving (remembered : Remembered initial w.history)
    (leaving : w.job.gmState.leaving = true) : w.Inv initial :=
  ⟨remembered, fun live => by cases leaving.symm.trans (live_iff.mp live).2⟩

theorem Inv.of_excepted (remembered : Remembered initial w.history) (message : String) :
    (w.except message).Inv initial :=
  ⟨remembered, fun live => by cases live.1⟩

theorem Inv.congr (h : w.Inv initial) (view : w'.job.view = w.job.view)
    (gahp : w'.gahp.pending = w.gahp.pending) (history : w'.history = w.history)
    (excepted : w'.excepted = w.excepted) : w'.Inv initial := by
  have state : w'.job.gmState = w.job.gmState := congrArg InstanceView.gmState view
  refine ⟨history ▸ h.remembered, fun live => ?_⟩
  rw [view, gahp, history]
  exact h.tracked ⟨excepted ▸ live.1, state ▸ live.2.1, state ▸ live.2.2⟩

/-- A new id leaves no report, and another id for the same instance no trace. -/
theorem noted_created (w : World) (id : String)
    (reported : w.job.instanceId ≠ none → w.job.remoteJobState = vmFinish →
      lastReported initial w.history = vmFinish)
    (unaware : w.job.instanceId = none → w.job.remoteJobState ≠ vmFinish) :
    w.job.remoteJobState = vmFinish →
      lastReported initial (w.noteInstanceId (some id)).history = vmFinish := by
  intro finished
  unfold noteInstanceId
  cases known : w.job.instanceId with
  | none => exact absurd finished (unaware known)
  | some old => exact reported (by rw [known]; nofun) finished

theorem remembered_created (w : World) (id : String) (remembered : Remembered initial w.history) :
    Remembered initial (w.noteInstanceId (some id)).history := by
  unfold noteInstanceId
  cases w.job.instanceId <;> exact remembered

theorem remembered_cleared (remembered : Remembered initial w.history)
    (gone : ∀ id, w.job.instanceId = some id →
      lastReported initial w.history = vmFinish ∨ DestroyAnswered id w.history) :
    Remembered initial (w.noteInstanceId none).history := by
  unfold noteInstanceId
  cases known : w.job.instanceId with
  | none => exact remembered
  | some id => exact ⟨gone id known, remembered⟩

/-- What holds while the attributes of an instance are read: nothing has been reported
in `remoteJobState` that the history does not know. -/
structure Informed (initial : String) (known : Prop) (w : World) : Prop where
  synced : w.job.view.savedStatus = w.job.view.remoteJobState
  reported : w.job.view.instanceId ≠ none → w.job.view.remoteJobState = vmFinish →
    lastReported initial w.history = vmFinish
  remembered : Remembered initial w.history
  free : w.gahp.pending = none
  kept : known → w.job.view.instanceId ≠ none

/-- Without an id, no instance is thought to be gone. -/
def Unaware (w : World) : Prop :=
  w.job.view.instanceId = none → w.job.view.remoteJobState ≠ vmFinish

variable {known : Prop}
variable {w : World}

theorem Informed.congr {w' : World} (h : Informed initial known w) (view : w'.job.view = w.job.view)
    (history : w'.history = w.history) (gahp : w'.gahp = w.gahp) : Informed initial known w' where
  synced := view ▸ h.synced
  reported := by rw [view, history]; exact h.reported
  remembered := history ▸ h.remembered
  free := gahp ▸ h.free
  kept := by rw [view]; exact h.kept

theorem Informed.report (h : Informed initial known w) (status : String) (time : Int) :
    Informed initial known (w.report status time) := by
  have view : (w.report status time).job.view =
      { w.job.view with remoteJobState := status, savedStatus := status } :=
    DCloudJob.view_statusUpdate w.job status time h.synced
  refine ⟨by rw [view], ?_, h.remembered, h.free, by rw [view]; exact h.kept⟩
  rw [view]
  exact fun _ finished => finished

theorem Informed.named (h : Informed initial known w) (unaware : w.Unaware) (id : String)
    (time : Int) :
    Informed initial known (w.setInstanceId (some id) time) := by
  refine ⟨?_, ?_, remembered_created w id h.remembered,
      gahp_setInstanceId w (some id) time ▸ h.free,
    ?_⟩
  · rw [view_setInstanceId]
    exact h.synced
  · rw [view_setInstanceId]
    exact fun _ => noted_created w id h.reported unaware
  · rw [view_setInstanceId]
    exact fun _ => nofun

theorem Informed.read (h : Informed initial known w) (unaware : w.Unaware) (attrs : List String)
    (time : Int) :
    Informed initial known (w.processInstanceAttrs attrs time) := by
  refine processInstanceAttrs_induct (P := fun w => Informed initial known w ∧ w.Unaware) time
    (fun w a v ha hs h => ?_) (fun w id h => ⟨h.1.named h.2 id time, ?_⟩) (fun w h => h.1)
    (fun w status h => h.report status time) w attrs ⟨h, unaware⟩
  · have view := view_assign w v ha hs
    refine ⟨h.1.congr view rfl rfl, ?_⟩
    unfold Unaware
    rw [view]
    exact h.2
  · unfold Unaware
    rw [view_setInstanceId]
    nofun

theorem Informed.goto (h : Informed initial known w) (next : GMState) (early : next.early = false)
    (fresh : next.fresh = false) (owned : next.owned = true → w.job.instanceId ≠ none) :
    (w.goto next).Inv initial := by
  refine ⟨h.remembered, fun _ => ⟨h.synced, h.reported, fun here => ?_, fun here => ?_, owned,
    fun p pending => ?_⟩⟩
  · cases early.symm.trans here
  · cases fresh.symm.trans here
  · cases h.free.symm.trans pending

theorem instanceCreated_inv (attrs : List String) (time : Int)
    (h : Informed initial known w) (unaware : w.Unaware) :
    (w.instanceCreated attrs time).Inv initial := by
  have read := h.read unaware attrs time
  unfold instanceCreated
  generalize w.processInstanceAttrs attrs time = w₁ at read ⊢
  simp only
  split
  · exact .of_excepted read.remembered _
  · next known =>
      split
      · have flagged : Informed initial _ (w₁.setJob { w₁.job with createdStopped := true }) :=
          read.congr rfl rfl rfl
        exact flagged.goto .startVm rfl rfl fun _ => known
      · exact read.goto .saveInstanceId rfl rfl fun _ => known

theorem destroyed_inv (time : Int) (remembered : Remembered initial w.history)
    (synced : w.job.view.savedStatus = w.job.view.remoteJobState)
    (gone : ∀ id, w.job.instanceId = some id → DestroyAnswered id w.history) :
    (w.destroyed time).Inv initial := by
  obtain ⟨-, -, history, next, edge, state, unknown, kept, -⟩ := destroyed_spec w time
  obtain ⟨early, fresh, owned, -⟩ := GMState.clears_kind edge
  refine ⟨history ▸ remembered_cleared remembered fun id known => .inr (gone id known), fun _ =>
    .forgotten (kept synced) unknown (fun here => ?_) (state ▸ fresh) (state ▸ owned)⟩
  rw [early (state ▸ here)] at edge
  cases edge

end World
end Condor.GridManager
