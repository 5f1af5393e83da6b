import Condor.GridManager.PassCases

/-! Each state of `doEvaluateState` falls under one of the cases of a pass. -/
namespace Condor.GridManager

namespace DCloudJob

theorem jobIdle_done (j : DCloudJob) (time : Int) : (j.jobIdle time).condorState.done = true := by
  unfold jobIdle
  split
  · have idle : ((j.enterStatus .idle time).updateRuntimeStats time).condorState = .idle :=
      updateRuntimeStats_condorState _ time
    simp only
    split
    · exact congrArg JobStatus.done idle
    · exact congrArg JobStatus.done idle
  · next settled =>
      cases status : j.condorState <;> simp_all [JobStatus.done]

theorem jobEvicted_condorState (j : DCloudJob) (time : Int) :
    (j.jobEvicted time).condorState = j.condorState := by
  unfold jobEvicted updateJobLeaseSentZero
  simp only
  split <;> exact updateRuntimeStats_condorState j time

theorem jobHeld_done (j : DCloudJob) (reason : String) (time : Int) :
    (j.jobHeld reason time).condorState.done = true := by
  unfold jobHeld
  split
  · rw [jobRemoved_condorState]
    rfl
  · split
    · have held : (j.enterHeld reason time).condorState = .held := by
        unfold enterHeld
        extract_lets j₁ j₂ j₃ j₄ holds
        refine (updateRuntimeStats_condorState _ time).trans ?_
        change j₃.condorState = .held
        simp only [j₃]
        split <;> rfl
      rw [held]
      rfl
    · next held =>
        rw [not_not.mp held]
        rfl

theorem lookupBool_assign (j : DCloudJob) {a b : Attr} (v : AdValue) (h : b ≠ a) :
    (j.assign a v).jobAd.lookupBool b = j.jobAd.lookupBool b := by
  simp only [assign, JobAd.lookupBool, JobAd.value_assign_of_ne _ _ h]

variable {j : DCloudJob}

theorem jobHeld_nonessential (reason : String) (time : Int)
    (nonessential : j.jobAd.lookupBool .nonessential = some true) :
    (j.jobHeld reason time).condorState = .removed := by
  simp only [jobHeld, nonessential, if_true]
  exact jobRemoved_condorState j time reason

theorem jobCompleted_condorState (time : Int)
    (active : j.condorState ≠ .held ∧ j.condorState ≠ .completed ∧ j.condorState ≠ .removed) :
    (j.jobCompleted time).condorState = .completed := by
  unfold jobCompleted
  rw [if_pos ⟨active.2.1, active.1, active.2.2⟩]
  exact updateRuntimeStats_condorState _ time

/-- A job that does not stay in the queue is completed or removed when it exits. -/
theorem evalOnExitJobExpr_leaves {j' : DCloudJob} {policy : PolicyAction} {reason : String}
    {time : Int} (h : j.evalOnExitJobExpr policy reason time = some j')
    (active : j.condorState ≠ .held ∧ j.condorState ≠ .completed ∧ j.condorState ≠ .removed)
    (leaves : j.staysAfterExit policy = false) :
    j'.condorState = .completed ∨ j'.condorState = .removed := by
  have choice : (policy = .removeFromQueue ∨ policy = .releaseFromHold) ∨
      (policy = .undefinedEval ∨ policy = .holdInQueue) ∧
        j.jobAd.lookupBool .nonessential = some true := by
    unfold staysAfterExit at leaves
    obtain ⟨held, completed, removed⟩ := active
    cases state : j.condorState <;> rw [state] at held completed removed <;>
      first
        | contradiction
        | (rw [state] at leaves; cases policy <;> simp_all)
  unfold evalOnExitJobExpr at h
  extract_lets j₁ j₂ at h
  have kept₁ : j₁.condorState = j.condorState ∧
      j₁.jobAd.lookupBool .nonessential = j.jobAd.lookupBool .nonessential := by
    simp only [j₁]
    split
    · refine ⟨rfl, ?_⟩
      rw [lookupBool_assign _ _ (by decide), lookupBool_assign _ _ (by decide)]
    · exact ⟨rfl, rfl⟩
  have kept₂ : j₂.condorState = j.condorState ∧
      j₂.jobAd.lookupBool .nonessential = j.jobAd.lookupBool .nonessential := by
    simp only [j₂]
    split
    · refine ⟨kept₁.1, ?_⟩
      rw [lookupBool_assign _ _ (by decide), lookupBool_assign _ _ (by decide),
        lookupBool_assign _ _ (by decide)]
      exact kept₁.2
    · exact kept₁
  rcases choice with (rfl | rfl) | ⟨rfl | rfl, nonessential⟩
  · cases h
    exact .inl (jobCompleted_condorState time (kept₂.1 ▸ active))
  · cases h
  · cases h
    exact .inr (jobHeld_nonessential reason time (kept₂.2.trans nonessential))
  · cases h
    exact .inr (jobHeld_nonessential reason time (kept₂.2.trans nonessential))

end DCloudJob

namespace World
variable {w w₁ w' : World} {inp : PassInput}

@[simp] theorem view_setInstanceName (w : World) (name : Option String) (time : Int) :
    (w.setInstanceName name time).job.view =
      { w.job.view with unnamed := unnamed { w.job with instanceName := name } } :=
  DCloudJob.view_setRemoteJobId _ time

@[simp] theorem view_setInstanceId (w : World) (id : Option String) (time : Int) :
    (w.setInstanceId id time).job.view = { w.job.view with instanceId := id } :=
  DCloudJob.view_setRemoteJobId _ time

theorem view_forgotten (w : World) (time : Int) :
    ((w.setInstanceId none time).setInstanceName none time).job.view =
      { w.job.view with instanceId := none, unnamed := true } := by
  rw [view_setInstanceName, view_setInstanceId]
  rfl

theorem view_assign (w : World) {a : Attr} (v : AdValue) (ha : a ≠ .gridJobId)
    (hs : a ≠ .gridJobStatus) : (w.setJob (w.job.assign a v)).job.view = w.job.view :=
  (DCloudJob.StatusOnly.assign w.job v ha hs).view

theorem instanceId_setInstanceId (w : World) (id : Option String) (time : Int) :
    (w.setInstanceId id time).job.instanceId = id :=
  congrArg InstanceView.instanceId (view_setInstanceId w id time)

section Attributes
variable {P : World → Prop} (time : Int)
  (copied : ∀ (w : World) {a : Attr} (v : AdValue), a ≠ .gridJobId → a ≠ .gridJobStatus → P w →
    P (w.setJob (w.job.assign a v)))
  (named : ∀ (w : World) (id : String), P w → P (w.setInstanceId (some id) time))
include copied named

theorem processLine_induct (acc : World × Option String) (line : String) (h : P acc.1) :
    P (processLine time acc line).1 := by
  obtain ⟨w, status⟩ := acc
  unfold processLine
  simp only
  split
  · exact h
  · split
    · next id _ => exact copied _ _ (by decide) (by decide) (named w id h)
    · split
      · exact copied w _ (by decide) (by decide) h
      · split
        · exact copied w _ (by decide) (by decide) h
        · split
          · exact copied w _ (by decide) (by decide) h
          · exact h

theorem foldl_processLine_induct (attrs : List String) (acc : World × Option String) (h : P acc.1) :
    P (attrs.foldl (processLine time) acc).1 := by
  induction attrs generalizing acc with
  | nil => exact h
  | cons line attrs ih => exact ih _ (processLine_induct time copied named acc line h)

theorem processInstanceAttrs_induct {Q : World → Prop} (weaken : ∀ w, P w → Q w)
    (reported : ∀ (w : World) (status : String), Q w → Q (w.report status time)) (w : World)
    (attrs : List String) (start : P w) : Q (w.processInstanceAttrs attrs time) := by
  have read := weaken _ (foldl_processLine_induct time copied named attrs (w, none) start)
  unfold processInstanceAttrs
  generalize attrs.foldl (processLine time) (w, none) = r at read
  obtain ⟨w₁, status⟩ := r
  cases status with
  | none =>
    simp only
    split
    · exact reported _ _ read
    · exact read
  | some status =>
    simp only
    split
    · exact reported _ _ (reported _ _ read)
    · exact reported _ _ read

end Attributes

theorem startOver_view (w : World) (time : Int) :
    (w.startOver time).job.view.gmState = .unsubmitted ∧
      (w.startOver time).job.view.instanceId = w.job.view.instanceId ∧
      (w.startOver time).job.view.remoteJobState = "" ∧
      (w.job.view.savedStatus = w.job.view.remoteJobState →
        (w.startOver time).job.view.savedStatus = "") := by
  unfold startOver
  simp only
  split
  · have frozen := DCloudJob.setRemoteJobStatus_frozen ({ w.job with remoteJobState := "" })
      time none
    have text := DCloudJob.setRemoteJobStatus_text ({ w.job with remoteJobState := "" }) time none
    generalize
      (({ w.job with remoteJobState := "" } : DCloudJob).setRemoteJobStatus none time).2 = j
      at frozen text
    exact ⟨rfl, DCloudJob.member_of_frozen frozen DCloudJob.instanceId fun _ => rfl,
      DCloudJob.member_of_frozen frozen DCloudJob.remoteJobState fun _ => rfl, fun _ => text⟩
  · next blank =>
      have blank : w.job.view.remoteJobState = "" := not_not.mp blank
      exact ⟨rfl, rfl, blank, fun synced => synced.trans blank⟩

theorem terminated_some {inp : PassInput} (h : w.terminated inp = some w') :
    ∃ j, w' = w.setJob j ∧ DCloudJob.StatusOnly w.job j ∧
      (w.job.staysAfterExit inp.policy = false →
        j.condorState = .completed ∨ j.condorState = .removed) := by
  unfold terminated at h
  split at h
  · next leaving =>
      cases h
      refine ⟨w.job, rfl, .refl _, fun leaves => ?_⟩
      cases state : w.job.condorState <;> simp_all [JobStatus.leaving, DCloudJob.staysAfterExit]
  · next staying =>
      obtain ⟨j, done, rfl⟩ := Option.map_eq_some_iff.mp h
      refine ⟨j, rfl, DCloudJob.jobTerminated_statusOnly _ done, fun leaves => ?_⟩
      unfold DCloudJob.jobTerminated at done
      split at done
      · next active => exact DCloudJob.evalOnExitJobExpr_leaves done active leaves
      · cases done
        cases state : w.job.condorState <;> simp_all [JobStatus.leaving, DCloudJob.staysAfterExit]

theorem idleAgain_done (w : World) (time : Int) :
    (w.idleAgain time).job.condorState.done = true := by
  have idle := DCloudJob.jobIdle_done w.job time
  unfold idleAgain
  simp only
  split
  · change (DCloudJob.jobEvicted _ time).condorState.done = true
    rw [DCloudJob.jobEvicted_condorState]
    exact idle
  · exact idle

theorem gmInit_case (state : w.job.gmState = .init) : PassCase w inp (w.gmInit inp) := by
  unfold gmInit
  split
  · exact .moves state .start rfl w rfl (.refl w) nofun
  · exact .moves state .hold rfl (w.setJob _) (view_assign w _ (by decide) (by decide))
      ⟨rfl, rfl, rfl⟩ nofun

theorem gmStart_case (state : w.job.gmState = .start) : PassCase w inp w.gmStart := by
  unfold gmStart
  simp only
  split
  · exact .moves state .clearRequest rfl (w.setJob _) rfl ⟨rfl, rfl, rfl⟩ nofun
  · next named =>
      split
      · next unknown =>
          exact .checks state unknown (Bool.eq_false_iff.mpr named) rfl ⟨rfl, rfl, rfl⟩
      · next known => exact .restored state known (by split <;> rfl) ⟨rfl, rfl, rfl⟩

theorem gmCheckVm_case (state : w.job.gmState = .checkVm) : PassCase w inp (w.gmCheckVm inp) := by
  have asks : Asks w .vmFind [gahpArg w.job.serviceUrl, gahpArg w.job.username,
      gahpArg w.job.password, gahpArg w.job.instanceId] :=
    ⟨by rw [state]; rfl, nofun, fun _ => rfl⟩
  have called := finishCall_case w inp "DELTACLOUD_VM_FIND timed out" polite_readFindReply asks
    rfl rfl (.refl w)
  unfold gmCheckVm dcloudFind
  generalize finishCall _ readFindReply (w.gahpCall inp .vmFind _) = r at called ⊢
  obtain ⟨rc, w₁⟩ := r
  cases called with
  | pending case => exact case
  | notSubmitted case => exact case
  | excepted message case => exact case
  | failed back => exact back.hold state rfl
  | timedOut back => exact back.hold state rfl
  | ok id back result good =>
    have missing : PassCase w inp (w₁.goto .createVm) :=
      back.returns state .createVm rfl w₁ rfl (.refl w₁)
    cases id with
    | none => exact missing
    | some id =>
      simp only
      split
      · exact missing
      · -- the world of `SetInstanceId` is named, so that the fields below reduce on it alone
        have view := view_setInstanceId w₁ (some id) inp.time
        have gahp := gahp_setInstanceId w₁ (some id) inp.time
        have excepted := excepted_setInstanceId w₁ (some id) inp.time
        have history : (w₁.setInstanceId (some id) inp.time).history =
            (w₁.noteInstanceId (some id)).history := rfl
        generalize w₁.setInstanceId (some id) inp.time = w₂ at view gahp excepted history ⊢
        refine .found id back state ?_ gahp history excepted result good
        rw [← back.view]
        exact congrArg (fun v : InstanceView => { v with gmState := .saveInstanceId }) view

theorem gmUnsubmitted_case (state : w.job.gmState = .unsubmitted) :
    PassCase w inp w.gmUnsubmitted := by
  unfold gmUnsubmitted
  split
  · next leaving =>
      exact .moves state .delete rfl w rfl (.refl w) fun _ => JobStatus.done_of_leaving leaving
  · exact .moves state .saveInstanceName rfl w rfl (.refl w) nofun

/-- The state that `GM_SAVE_INSTANCE_NAME` is left in: `GM_DELETE` for a job that is
leaving, unless the rest of the case goes on to `GM_CREATE_VM`. -/
theorem gmSaveInstanceName_case (state : w.job.gmState = .saveInstanceName) :
    PassCase w inp (w.gmSaveInstanceName inp) := by
  unfold gmSaveInstanceName
  extract_lets w₁
  obtain ⟨s, moved, edge, settled⟩ : ∃ s, w₁ = w.goto s ∧
      (s = w.job.gmState ∨ w.job.gmState.goes s = true) ∧
      (s = .delete → w.job.condorState.done = true) := by
    simp only [w₁]
    split
    · next leaving =>
        exact ⟨.delete, rfl, .inr (by rw [state]; rfl), fun _ => JobStatus.done_of_leaving leaving⟩
    · exact ⟨w.job.gmState, rfl, .inl rfl, fun deleted => by rw [state] at deleted; cases deleted⟩
  have fresh : w.job.gmState.fresh ≠ true := by rw [state]; decide
  clear_value w₁
  subst moved
  split
  · exact .aborts _ (.inl (by decide)) (.steps s w.job.view.unnamed edge rfl (fun _ => rfl)
      ⟨rfl, rfl, rfl⟩ fun _ => settled)
  · exact .steps s w.job.view.unnamed edge rfl (fun _ => rfl) ⟨rfl, rfl, rfl⟩ fun _ => settled
  · extract_lets w₂ w₃
    obtain ⟨u, view, aside, status⟩ : ∃ u, w₃.job.view =
        { w.job.view with gmState := s, unnamed := u } ∧ Aside w w₃ ∧
        w₃.job.condorState = w.job.condorState := by
      simp only [w₃]
      split
      · exact ⟨_, view_setInstanceName w₂ _ _, ⟨rfl, rfl, rfl⟩,
          DCloudJob.condorState_setRemoteJobId _ _⟩
      · exact ⟨_, rfl, ⟨rfl, rfl, rfl⟩, rfl⟩
    split
    · exact .steps s u edge view (fun new => absurd new fresh) aside fun _ => status ▸ settled
    · refine .steps .createVm u (.inr (by rw [state]; rfl)) ?_ (fun new => absurd new fresh)
        { aside with } fun _ => nofun
      exact congrArg (fun v : InstanceView => { v with gmState := .createVm }) view

theorem submitInstance_case {r : BaseResource} (state : w.job.gmState = .createVm) :
    PassCase w inp (({ w with resource := r } : World).submitInstance inp) := by
  have asks : ∀ args, Asks w .vmSubmit args := fun _ => ⟨by rw [state]; rfl, nofun, nofun⟩
  have called := finishCall_case { w with resource := r } inp "DELTACLOUD_VM_SUBMIT timed out"
    (polite_readAttrsReply "DELTACLOUD_VM_SUBMIT" (by decide) (by decide))
    (asks [gahpArg w.job.serviceUrl, gahpArg w.job.username,
      gahpArg w.job.password, gahpArg w.job.imageId, gahpArg w.job.instanceName,
      gahpArg w.job.realmId, gahpArg w.job.hwpId, gahpArg w.job.hwpMemory, gahpArg w.job.hwpCpu,
      gahpArg w.job.hwpStorage, gahpArg w.job.keyname, gahpArg w.job.userdata])
    rfl rfl ⟨rfl, rfl, rfl⟩
  unfold submitInstance dcloudSubmit
  generalize finishCall _ (readAttrsReply "DELTACLOUD_VM_SUBMIT") (gahpCall _ inp .vmSubmit _) = r
    at called ⊢
  obtain ⟨rc, w₁⟩ := r
  cases called with
  | pending case => exact case
  | notSubmitted case => exact case
  | excepted message case => exact case
  | failed back => exact back.returns state .hold rfl _ rfl ⟨rfl, rfl, rfl⟩
  | timedOut back => exact back.returns state .hold rfl _ rfl ⟨rfl, rfl, rfl⟩
  | ok attrs back result good => exact .created back state result good

variable {now : Int}

theorem gmCreateVm_case (state : w.job.gmState = .createVm) :
    PassCase w inp (w.gmCreateVm now inp) := by
  have active : w.job.gmState ≠ .delete := by rw [state]; decide
  unfold gmCreateVm
  split
  · exact .moves state .hold rfl w rfl (.refl w) nofun
  · split
    · split
      · exact .aborts _ (.inl (by decide)) (.stays active rfl (.refl w))
      · next r _ =>
          simp only
          split
          · exact .moves state .stopped rfl ({ w with resource := r } : World).cancelSubmit rfl
              ⟨rfl, rfl, rfl⟩ nofun
          · exact .stays active rfl ⟨rfl, rfl, rfl⟩
      · exact submitInstance_case state
    · split
      · exact .moves state .stopped rfl w rfl (.refl w) nofun
      · exact .stays active rfl (.refl w)

theorem action_case {state : GMState} (here : w.job.gmState = state) (action : String)
    (next : GMState) (asks : state.asks = some .vmAction) (named : state.action = some action)
    (edge : state.returns next = true) (hold : state.returns .hold = true) :
    PassCase w inp (match w.dcloudAction inp action with
      | (.pending, w₁) => w₁
      | (.notSubmitted, w₁) => w₁
      | (.excepted message, w₁) => w₁.except message
      | (.ok _, w₁) => w₁.goto next
      | (.failed, w₁) => w₁.takeErrorString.goto .hold
      | (.timedOut, w₁) => w₁.takeErrorString.goto .hold) := by
  have asks : Asks w .vmAction (actionArgs w.job action) :=
    ⟨here ▸ asks, fun _ => ⟨action, here ▸ named, rfl⟩, nofun⟩
  have called := finishCall_case w inp "DELTACLOUD_VM_ACTION timed out" polite_readActionReply
    asks rfl rfl (.refl w)
  unfold dcloudAction
  generalize finishCall _ readActionReply (w.gahpCall inp .vmAction _) = r at called ⊢
  obtain ⟨rc, w₁⟩ := r
  cases called with
  | pending case => exact case
  | notSubmitted case => exact case
  | excepted message case => exact case
  | failed back => exact back.hold here hold
  | timedOut back => exact back.hold here hold
  | ok _ back result good => exact back.returns here next edge w₁ rfl (.refl w₁)

theorem gmSaveInstanceId_case (state : w.job.gmState = .saveInstanceId) :
    PassCase w inp w.gmSaveInstanceId := by
  unfold gmSaveInstanceId
  split
  · exact .stays (by rw [state]; decide) rfl (.refl w)
  · exact .moves state .submitted rfl w rfl (.refl w) nofun

theorem gmSubmitted_case (state : w.job.gmState = .submitted) : PassCase w inp w.gmSubmitted := by
  have cleared : ∀ next, GMState.submitted.goes next = true → next ≠ .delete → PassCase w inp
      ((w.goto next).setJob { (w.goto next).job with createdStopped := false }) :=
    fun next edge other => .moves state next edge (w.setJob { w.job with createdStopped := false })
      rfl ⟨rfl, rfl, rfl⟩ fun deleted => absurd deleted other
  unfold gmSubmitted
  simp only
  split
  · exact cleared .doneSave rfl nofun
  · split
    · exact cleared .cancel rfl nofun
    · split
      · exact cleared .probeJob rfl nofun
      · exact .stays (by rw [state]; decide) rfl ⟨rfl, rfl, rfl⟩

theorem forgetInstance_spec (w : World) (time : Int) :
    (w.forgetInstance time).gahp = w.gahp ∧ (w.forgetInstance time).excepted = w.excepted ∧
      (w.forgetInstance time).history = (w.noteInstanceId none).history ∧
      ∃ u, (w.forgetInstance time).job.view =
        { w.job.view with instanceId := none, unnamed := u } := by
  unfold forgetInstance
  split
  · next unknown =>
      refine ⟨rfl, rfl, ?_, unnamed w.job, ?_⟩
      · simp only [noteInstanceId, unknown]
      · rw [← unknown]
        rfl
  · exact ⟨gahp_setInstanceId w none time, excepted_setInstanceId w none time, rfl, true,
      view_forgotten w time⟩

theorem noteInstanceId_none_congr (same : w'.job.instanceId = w.job.instanceId)
    (history : w'.history = w.history) :
    (w'.noteInstanceId none).history = (w.noteInstanceId none).history := by
  unfold noteInstanceId
  rw [same]
  cases w.job.instanceId <;> simp [record, history]

theorem gmDoneSave_case (state : w.job.gmState = .doneSave) :
    PassCase w inp (w.gmDoneSave inp) := by
  have active : w.job.gmState ≠ .delete := by rw [state]; decide
  unfold gmDoneSave
  cases ended : w.terminated inp with
  | none => exact .aborts _ (.inl (by decide)) (.stays active rfl (.refl w))
  | some w₁ =>
    obtain ⟨j, rfl, only, leaves⟩ := terminated_some ended
    simp only
    split
    · exact .stays active only.view ⟨rfl, rfl, rfl⟩
    · unfold leaveDoneSave
      simp only
      split
      · exact .moves state .stopped rfl (w.setJob j).cancelSubmit only.view ⟨rfl, rfl, rfl⟩ nofun
      · next staying =>
          obtain ⟨gahp, excepted, history, u, view⟩ :=
            forgetInstance_spec (w.setJob j).cancelSubmit inp.time
          generalize (w.setJob j).cancelSubmit.forgetInstance inp.time = w₂
            at gahp excepted history view ⊢
          have view : w₂.job.view = { w.job.view with instanceId := none, unnamed := u } :=
            only.view ▸ view
          refine .clears .clearRequest (by rw [state]; rfl) rfl
              (congrArg InstanceView.instanceId view)
            (fun synced => ?_) nofun gahp
            (history.trans (noteInstanceId_none_congr only.instanceId rfl)) excepted nofun
            (fun other => by rw [state] at other; cases other) fun known unfinished =>
              .inl ⟨state, known, unfinished, ?_⟩
          · change w₂.job.view.savedStatus = w₂.job.view.remoteJobState
            rw [view]
            exact synced
          · by_contra stays
            rcases leaves (Bool.eq_false_iff.mpr stays) with completed | removed
            · exact staying (.inl completed)
            · exact staying (.inr removed)

theorem requestRematch_kept (w : World) :
    w.requestRematch.job.view = w.job.view ∧ Aside w w.requestRematch ∧
      w.requestRematch.job.condorState = w.job.condorState := by
  unfold requestRematch
  split
  · exact ⟨rfl, .refl w, rfl⟩
  · exact ⟨((DCloudJob.StatusOnly.assign w.job _ (by decide) (by decide)).thenAssign _ (by decide)
      (by decide)).view, ⟨rfl, rfl, rfl⟩, rfl⟩

theorem gmClearRequest_case (state : w.job.gmState = .clearRequest) :
    PassCase w inp (w.gmClearRequest inp) := by
  have active : w.job.gmState ≠ .delete := by rw [state]; decide
  unfold gmClearRequest
  split
  · exact .stays active rfl (.refl w)
  · next unmatched =>
      split
      · exact .moves state .hold rfl w rfl (.refl w) nofun
      · next resubmitted =>
          have careless : w.job.instanceId ≠ none → w.job.remoteJobState ≠ vmFinish →
              w.AbandonsStopped inp ∨ w.ForgetsUnnamed := by
            intro known unfinished
            refine .inr ⟨state, known, unfinished, Bool.eq_false_iff.mpr unmatched, ?_⟩
            by_contra none_of
            simp only [not_or, Bool.not_eq_true] at none_of
            exact resubmitted ⟨known, none_of⟩
          have gone : w.job.gmState = .stopped → w.job.remoteJobState = vmFinish :=
            fun other => by rw [state] at other; cases other
          obtain ⟨gahp, excepted, history, u, view⟩ :=
            forgetInstance_spec (w.takeResubmit inp).cancelSubmit inp.time
          unfold clearRequest
          generalize (w.takeResubmit inp).cancelSubmit.forgetInstance inp.time = w₁
            at gahp excepted history view ⊢
          have view : (w₁.idleAgain inp.time).job.view =
              { w.job.view with instanceId := none, unnamed := u } :=
            (idleAgain_statusOnly w₁ inp.time).view.trans view
          have idle : (w₁.idleAgain inp.time).gahp = w.gahp ∧
              (w₁.idleAgain inp.time).excepted = w.excepted ∧
              (w₁.idleAgain inp.time).history = (w.noteInstanceId none).history :=
            ⟨gahp, excepted, history.trans (noteInstanceId_none_congr rfl rfl)⟩
          have done := idleAgain_done w₁ inp.time
          generalize w₁.idleAgain inp.time = w₂ at view idle done ⊢
          obtain ⟨gahp, excepted, history⟩ := idle
          have unknown : w₂.job.view.instanceId = none := by rw [view]
          have synced : w.job.view.savedStatus = w.job.view.remoteJobState →
              w₂.job.view.savedStatus = w₂.job.view.remoteJobState := by
            rw [view]
            exact id
          simp only
          split
          · obtain ⟨rematch, aside, status⟩ := requestRematch_kept w₂
            generalize w₂.requestRematch = w₃ at rematch aside status ⊢
            rw [← rematch] at unknown synced
            exact .clears .delete (by rw [state]; rfl) rfl unknown synced nofun
              (aside.gahp.trans gahp) (aside.history.trans history)
              (aside.excepted.trans excepted) (fun _ => status ▸ done) gone careless
          · split
            · exact .clears .clearRequest (by rw [state]; rfl) (by rw [view]; exact state) unknown
                synced nofun gahp history excepted nofun gone careless
            · obtain ⟨next, id, blank, saved⟩ := startOver_view w₂ inp.time
              exact .clears .unsubmitted (by rw [state]; rfl) next (id.trans unknown)
                (fun h => (saved (synced h)).trans blank.symm) (fun _ => blank) gahp history
                excepted nofun gone careless

theorem probeFailed_case {p : PendingRequest} (back : Back w inp p w₁)
    (state : w.job.gmState = .probeJob) :
    PassCase w inp ((w₁.probed now).probeFailed now inp) := by
  have view : (w₁.probed now).takeErrorString.job.view = w₁.job.view := rfl
  have aside : Aside w₁ (w₁.probed now).takeErrorString := ⟨rfl, rfl, rfl⟩
  unfold probeFailed
  generalize (w₁.probed now).takeErrorString = w₂ at view aside ⊢
  simp only
  split
  · exact back.stays _ view { aside with }
  · split
    · exact back.returns state .hold rfl w₂ view aside
    · exact back.stays w₂ view aside

theorem probeInstance_case (w₀ : World) (state : w.job.gmState = .probeJob)
    (view : w₀.job.view = w.job.view) (status : w₀.job.condorState = w.job.condorState)
    (aside : Aside w w₀) : PassCase w inp (w₀.probeInstance now inp) := by
  have asks : Asks w .vmInfo [gahpArg w₀.job.serviceUrl, gahpArg w₀.job.username,
      gahpArg w₀.job.password, gahpArg w₀.job.instanceId] := ⟨by rw [state]; rfl, nofun, nofun⟩
  have called := finishCall_case w₀ inp "DELTACLOUD_VM_INFO timed out"
    (polite_readAttrsReply "DELTACLOUD_VM_INFO" (by decide) (by decide)) asks view status aside
  unfold probeInstance dcloudInfo
  generalize finishCall _ (readAttrsReply "DELTACLOUD_VM_INFO") (w₀.gahpCall inp .vmInfo _) = r
    at called ⊢
  obtain ⟨rc, w₁⟩ := r
  cases called with
  | pending case => exact case
  | notSubmitted case => exact case
  | excepted message case => exact case
  | failed back => exact probeFailed_case back state
  | timedOut back => exact probeFailed_case back state
  | ok attrs back result good =>
    exact .probed attrs { back with } state

theorem gmProbeJob_case (state : w.job.gmState = .probeJob) :
    PassCase w inp (w.gmProbeJob now inp) := by
  unfold gmProbeJob
  simp only
  split
  · exact .moves state .cancel rfl (w.setJob _) rfl ⟨rfl, rfl, rfl⟩ nofun
  · split
    · exact .stays (by rw [state]; decide) rfl ⟨rfl, rfl, rfl⟩
    · exact probeInstance_case (w.setJob _) state rfl rfl ⟨rfl, rfl, rfl⟩

theorem gmHold_case (state : w.job.gmState = .hold) : PassCase w inp (w.gmHold inp) := by
  unfold gmHold
  split
  · have only := DCloudJob.jobHeld_statusOnly w.job inp.time (holdReason w.job)
    exact .moves state .delete rfl (w.setJob _) only.view ⟨rfl, rfl, rfl⟩
      fun _ => DCloudJob.jobHeld_done _ _ _
  · next held =>
      exact .moves state .delete rfl w rfl (.refl w)
        fun _ => congrArg JobStatus.done (not_not.mp held)

theorem instanceGone_spec (w : World) (time : Int) :
    (w.instanceGone time).gahp = w.gahp ∧ (w.instanceGone time).excepted = w.excepted ∧
      (w.instanceGone time).history = (w.noteInstanceId none).history ∧
      ∃ next, GMState.stopped.clears next = true ∧
        (w.instanceGone time).job.view =
          { w.job.view with gmState := next, instanceId := none, unnamed := true } ∧
        (next = .delete → (w.instanceGone time).job.condorState.done = true) := by
  have view := view_forgotten w.cancelSubmit time
  have gahp := gahp_setInstanceId w.cancelSubmit none time
  have excepted := excepted_setInstanceId w.cancelSubmit none time
  have history : (w.cancelSubmit.noteInstanceId none).history = (w.noteInstanceId none).history :=
    noteInstanceId_none_congr rfl rfl
  unfold instanceGone
  generalize named : (w.cancelSubmit.setInstanceId none time).setInstanceName none time = w₁
    at view ⊢
  have gahp₁ : w₁.gahp = w.gahp := named ▸ gahp
  have excepted₁ : w₁.excepted = w.excepted := named ▸ excepted
  have history₁ : w₁.history = (w.noteInstanceId none).history := named ▸ history
  simp only
  split
  · next finished =>
      refine ⟨gahp₁, excepted₁, history₁, .delete, rfl,
        congrArg (fun v : InstanceView => { v with gmState := .delete }) view, fun _ => ?_⟩
      rcases finished with removed | completed
      · exact congrArg JobStatus.done removed
      · exact congrArg JobStatus.done completed
  · exact ⟨gahp₁, excepted₁, history₁, .clearRequest, rfl,
      congrArg (fun v : InstanceView => { v with gmState := .clearRequest }) view, nofun⟩

theorem destroyed_spec (w : World) (time : Int) :
    (w.destroyed time).gahp = w.gahp ∧ (w.destroyed time).excepted = w.excepted ∧
      (w.destroyed time).history = (w.noteInstanceId none).history ∧
      ∃ next, GMState.stopped.clears next = true ∧
        (w.destroyed time).job.view.gmState = next ∧
        (w.destroyed time).job.view.instanceId = none ∧
        (w.job.view.savedStatus = w.job.view.remoteJobState →
          (w.destroyed time).job.view.savedStatus = (w.destroyed time).job.view.remoteJobState) ∧
        (next = .delete → (w.destroyed time).job.condorState.done = true) := by
  have told := DCloudJob.view_statusUpdate w.job vmFinish time
  have same : (w.job.statusUpdate (some vmFinish) time).instanceId = w.job.instanceId :=
    DCloudJob.statusUpdate_member w.job time _ DCloudJob.instanceId (fun _ => rfl) fun _ _ _ => rfl
  unfold destroyed
  generalize w.job.statusUpdate (some vmFinish) time = j at told same ⊢
  obtain ⟨gahp, excepted, history, next, edge, view, settled⟩ := instanceGone_spec (w.setJob j) time
  refine ⟨gahp, excepted, history.trans (noteInstanceId_none_congr same rfl), next, edge,
    congrArg InstanceView.gmState view, congrArg InstanceView.instanceId view, fun synced => ?_,
    settled⟩
  rw [view, show (w.setJob j).job.view = _ from told synced]

theorem gmStopped_case (state : w.job.gmState = .stopped) : PassCase w inp (w.gmStopped inp) := by
  have asks : Asks w .vmAction (actionArgs w.job "destroy") :=
    ⟨by rw [state]; rfl, fun _ => ⟨"destroy", by rw [state]; rfl, rfl⟩, nofun⟩
  unfold gmStopped
  split
  · next finished =>
      obtain ⟨gahp, excepted, history, next, edge, view, settled⟩ := instanceGone_spec w inp.time
      refine .clears next (state ▸ edge) (congrArg InstanceView.gmState view)
        (congrArg InstanceView.instanceId view) (fun synced => ?_) (fun other => ?_) gahp history
        excepted settled (fun _ => finished) fun _ unfinished => absurd finished unfinished
      · rw [view]
        exact synced
      · rw [other] at edge
        cases edge
  · next unfinished =>
      have called := finishCall_case w inp "DELTACLOUD_VM_ACTION timed out" polite_readActionReply
        asks rfl rfl (.refl w)
      unfold dcloudAction
      generalize finishCall _ readActionReply (w.gahpCall inp .vmAction _) = r at called ⊢
      obtain ⟨rc, w₁⟩ := r
      cases called with
      | pending case => exact case
      | notSubmitted case => exact case
      | excepted message case => exact case
      | failed back => exact .destroyed back state unfinished
      | timedOut back => exact .destroyed back state unfinished
      | ok _ back result good => exact .destroyed back state unfinished

theorem gmDelete_case (state : w.job.gmState = .delete) : PassCase w inp w.gmDelete := by
  unfold gmDelete
  cases done : w.job.doneWithJob with
  | some j =>
    have only := DCloudJob.doneWithJob_statusOnly done
    refine .steps w.job.gmState w.job.view.unnamed (.inl rfl) only.view (fun _ => rfl)
      ⟨rfl, rfl, rfl⟩ fun settled _ => ?_
    have same : j.condorState = w.job.condorState := by
      unfold DCloudJob.doneWithJob at done
      split at done <;> cases done <;> rfl
    exact (congrArg JobStatus.done same).trans (settled state)
  | none =>
    have refused : w.job.condorState.done = false := by
      unfold DCloudJob.doneWithJob at done
      cases status : w.job.condorState <;> simp_all [JobStatus.done]
    exact .aborts _ (.inr ⟨state, refused⟩)
        (.steps w.job.gmState w.job.view.unnamed (.inl rfl) rfl
      (fun _ => rfl) (.refl w) fun settled _ => settled state)

theorem pass_case (w : World) (now : Int) (inp : PassInput) : PassCase w inp (w.pass now inp) := by
  unfold pass
  cases state : w.job.gmState with
  | init => exact gmInit_case state
  | start => exact gmStart_case state
  | checkVm => exact gmCheckVm_case state
  | unsubmitted => exact gmUnsubmitted_case state
  | saveInstanceName => exact gmSaveInstanceName_case state
  | createVm => exact gmCreateVm_case state
  | startVm => exact action_case state "start" .saveInstanceId rfl rfl rfl rfl
  | saveInstanceId => exact gmSaveInstanceId_case state
  | submitted => exact gmSubmitted_case state
  | doneSave => exact gmDoneSave_case state
  | clearRequest => exact gmClearRequest_case state
  | probeJob => exact gmProbeJob_case state
  | cancel => exact action_case state "stop" .stopped rfl rfl rfl rfl
  | hold => exact gmHold_case state
  | stopped => exact gmStopped_case state
  | delete => exact gmDelete_case state

end World
end Condor.GridManager
