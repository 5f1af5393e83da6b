import Condor.GridManager.JobRun

/-! The functions of `BaseJob` and the updates from the schedd change neither the state of the
machine nor anything that is known about the instance. -/
namespace Condor.GridManager
namespace DCloudJob

def frozen (j : DCloudJob) : DCloudJob :=
  { j with
    jobAd := ⟨fun _ => none, []⟩
    condorState := .idle
    executeLogged := false
    terminateLogged := false
    abortLogged := false
    evictLogged := false
    holdLogged := false
    exitStatusKnown := false
    deleteFromGridmanager := false
    deleteFromSchedd := false
    resourceDown := false
    resourceStateKnown := false
    resourcePingPending := false
    lastRemoteStatusUpdate := 0
    currentStatusUnknown := false }

variable {β : Type*}

theorem member_of_frozen {j j' : DCloudJob} (h : j'.frozen = j.frozen) (f : DCloudJob → β)
    (kept : ∀ j, f j.frozen = f j) : f j' = f j := by
  rw [← kept j', ← kept j, h]

/-- `j'` differs from `j` in the job status and its bookkeeping only. -/
structure StatusOnly (j j' : DCloudJob) : Prop where
  frozen : j'.frozen = j.frozen
  gridJobId : j'.jobAd.value .gridJobId = j.jobAd.value .gridJobId
  gridJobIdDirty : Attr.gridJobId ∈ j'.jobAd.dirty ↔ Attr.gridJobId ∈ j.jobAd.dirty
  gridJobStatus : j'.jobAd.value .gridJobStatus = j.jobAd.value .gridJobStatus

namespace StatusOnly
variable {j j' j'' : DCloudJob}

theorem refl (j : DCloudJob) : StatusOnly j j := ⟨rfl, rfl, Iff.rfl, rfl⟩

theorem trans (h : StatusOnly j j') (h' : StatusOnly j' j'') : StatusOnly j j'' :=
  ⟨h'.frozen.trans h.frozen, h'.gridJobId.trans h.gridJobId,
    h'.gridJobIdDirty.trans h.gridJobIdDirty, h'.gridJobStatus.trans h.gridJobStatus⟩

theorem member (h : StatusOnly j j') (f : DCloudJob → β) (kept : ∀ j, f j.frozen = f j) :
    f j' = f j := member_of_frozen h.frozen f kept

theorem gmState (h : StatusOnly j j') : j'.gmState = j.gmState :=
  h.member DCloudJob.gmState fun _ => rfl

theorem instanceId (h : StatusOnly j j') : j'.instanceId = j.instanceId :=
  h.member DCloudJob.instanceId fun _ => rfl

theorem gridJobStatusText (h : StatusOnly j j') :
    j'.jobAd.stringOf .gridJobStatus = j.jobAd.stringOf .gridJobStatus := by
  simp only [JobAd.stringOf, JobAd.lookupString, h.gridJobStatus]

theorem assign (j : DCloudJob) {a : Attr} (v : AdValue) (ha : a ≠ .gridJobId)
    (hs : a ≠ .gridJobStatus) : StatusOnly j (j.assign a v) := by
  refine ⟨rfl, ?_, ?_, ?_⟩
  · exact JobAd.value_assign_of_ne _ v ha.symm
  · simp [DCloudJob.assign, JobAd.assign, ha.symm]
  · exact JobAd.value_assign_of_ne _ v hs.symm

theorem thenAssign (h : StatusOnly j j') {a : Attr} (v : AdValue) (ha : a ≠ .gridJobId)
    (hs : a ≠ .gridJobStatus) : StatusOnly j (j'.assign a v) :=
  h.trans (.assign j' v ha hs)

end StatusOnly

variable (j : DCloudJob) (time : Int)

theorem enterStatus_statusOnly (s : JobStatus) : StatusOnly j (j.enterStatus s time) := by
  have entered : StatusOnly j { j with condorState := s } := ⟨rfl, rfl, Iff.rfl, rfl⟩
  exact (entered.thenAssign _ (by decide) (by decide)).thenAssign _ (by decide) (by decide)

theorem updateRuntimeStats_statusOnly : StatusOnly j (j.updateRuntimeStats time) := by
  unfold updateRuntimeStats
  simp only
  split
  · exact (StatusOnly.assign j _ (by decide) (by decide)).thenAssign _ (by decide) (by decide)
  · split
    · exact ((StatusOnly.assign j _ (by decide) (by decide)).thenAssign _ (by decide)
        (by decide)).thenAssign _ (by decide) (by decide)
    · exact .refl j

@[simp] theorem updateRuntimeStats_condorState :
    (j.updateRuntimeStats time).condorState = j.condorState := by
  unfold updateRuntimeStats
  simp only
  split
  · rfl
  · split <;> rfl

variable (reason : String)

theorem jobRemoved_condorState : (j.jobRemoved reason time).condorState = .removed := by
  unfold jobRemoved
  split
  · exact updateRuntimeStats_condorState _ time
  · next removed => exact not_not.mp removed

theorem enterStatus_updateRuntimeStats_statusOnly (s : JobStatus) :
    StatusOnly j ((j.enterStatus s time).updateRuntimeStats time) :=
  (enterStatus_statusOnly j time s).trans (updateRuntimeStats_statusOnly _ time)

theorem jobRunning_statusOnly : StatusOnly j (j.jobRunning time) := by
  unfold jobRunning
  split
  · have h := enterStatus_updateRuntimeStats_statusOnly j time .running
    exact { h with }
  · exact .refl j

theorem jobIdle_statusOnly : StatusOnly j (j.jobIdle time) := by
  unfold jobIdle
  have h := enterStatus_updateRuntimeStats_statusOnly j time .idle
  split
  · simp only
    split
    · exact { h with }
    · exact h
  · exact .refl j

theorem updateJobLeaseSentZero_statusOnly : StatusOnly j j.updateJobLeaseSentZero := by
  unfold updateJobLeaseSentZero
  simp only
  split
  · exact (StatusOnly.assign j _ (by decide) (by decide)).thenAssign _ (by decide) (by decide)
  · exact .refl j

theorem jobEvicted_statusOnly : StatusOnly j (j.jobEvicted time) := by
  have h := (updateRuntimeStats_statusOnly j time).trans (updateJobLeaseSentZero_statusOnly _)
  exact { h with }

theorem jobCompleted_statusOnly : StatusOnly j (j.jobCompleted time) := by
  unfold jobCompleted
  split
  · exact enterStatus_updateRuntimeStats_statusOnly j time .completed
  · exact .refl j

theorem jobRemoved_statusOnly : StatusOnly j (j.jobRemoved reason time) := by
  unfold jobRemoved
  split
  · exact ((enterStatus_statusOnly j time .removed).thenAssign _ (by decide) (by decide)).trans
      (updateRuntimeStats_statusOnly _ time)
  · exact .refl j

theorem enterHeld_statusOnly : StatusOnly j (j.enterHeld reason time) := by
  unfold enterHeld
  extract_lets j₁ j₂ j₃ j₄ holds
  have h₁ : StatusOnly j j₁ := by
    simp only [j₁]
    split
    · exact .assign j _ (by decide) (by decide)
    · exact .refl j
  have h₂ : StatusOnly j j₂ :=
    (((h₁.trans (enterStatus_statusOnly j₁ time .held)).thenAssign _ (by decide)
      (by decide)).thenAssign _ (by decide) (by decide)).thenAssign _ (by decide) (by decide)
  have h₃ : StatusOnly j j₃ := by
    simp only [j₃]
    split
    · exact h₂.thenAssign _ (by decide) (by decide)
    · exact h₂
  have h := ((h₃.thenAssign .undefined (a := .releaseReason) (by decide) (by decide)).thenAssign
    (.int (holds + 1)) (a := .numSystemHolds) (by decide) (by decide)).trans
      (updateRuntimeStats_statusOnly _ time)
  exact { h with }

theorem jobHeld_statusOnly : StatusOnly j (j.jobHeld reason time) := by
  unfold jobHeld
  split
  · exact jobRemoved_statusOnly j time reason
  · split
    · exact enterHeld_statusOnly j time reason
    · exact .refl j

variable {j} in
theorem evalOnExitJobExpr_statusOnly {j' : DCloudJob} {action : PolicyAction} {reason : String}
    (h : j.evalOnExitJobExpr action reason time = some j') : StatusOnly j j' := by
  unfold evalOnExitJobExpr at h
  extract_lets j₁ j₂ at h
  have unknown : StatusOnly j { j with exitStatusKnown := false } := ⟨rfl, rfl, Iff.rfl, rfl⟩
  have h₁ : StatusOnly j j₁ := by
    simp only [j₁]
    split
    · exact (unknown.thenAssign _ (by decide) (by decide)).thenAssign _ (by decide) (by decide)
    · exact ⟨rfl, rfl, Iff.rfl, rfl⟩
  have h₂ : StatusOnly j j₂ := by
    simp only [j₂]
    split
    · exact ((h₁.thenAssign _ (by decide) (by decide)).thenAssign _ (by decide)
        (by decide)).thenAssign _ (by decide) (by decide)
    · exact h₁
  cases action with
  | undefinedEval => exact Option.some.inj h ▸ h₂.trans (jobHeld_statusOnly j₂ time reason)
  | staysInQueue => exact Option.some.inj h ▸ h₂
  | removeFromQueue => exact Option.some.inj h ▸ h₂.trans (jobCompleted_statusOnly j₂ time)
  | holdInQueue => exact Option.some.inj h ▸ h₂.trans (jobHeld_statusOnly j₂ time reason)
  | releaseFromHold => cases h

variable {j} in
theorem jobTerminated_statusOnly {j' : DCloudJob} {action : PolicyAction} {reason : String}
    (h : j.jobTerminated action reason time = some j') : StatusOnly j j' := by
  unfold jobTerminated at h
  split at h
  · exact evalOnExitJobExpr_statusOnly time h
  · cases h
    exact .refl j

variable {j} in
theorem doneWithJob_statusOnly {j' : DCloudJob} (h : j.doneWithJob = some j') :
    StatusOnly j j' := by
  have marked : StatusOnly j { j with deleteFromGridmanager := true } := ⟨rfl, rfl, Iff.rfl, rfl⟩
  have managed := fun v => marked.thenAssign v (a := .jobManaged) (by decide) (by decide)
  unfold doneWithJob at h
  simp only at h
  split at h
  · cases h
    have m := managed (.string "ScheddDone")
    exact { m with }
  · cases h
    have m := managed (.string "ScheddDone")
    exact { m with }
  · cases h
    have m := managed (.string "Schedd")
    exact { m with }
  · cases h
    exact managed _
  · cases h

theorem setGridJobId_frozen (jobId : String) : (j.setGridJobId jobId time).frozen = j.frozen := by
  unfold setGridJobId
  simp only
  split
  · rfl
  · split <;> split <;> rfl

theorem setGridJobId_gridJobStatus (jobId : String) :
    (j.setGridJobId jobId time).jobAd.value .gridJobStatus = j.jobAd.value .gridJobStatus := by
  unfold setGridJobId
  simp only
  split
  · rfl
  · split <;> split <;> simp [DCloudJob.assign]

variable (status : Option String)

theorem noteStatusUpdate_statusOnly : StatusOnly j (j.noteStatusUpdate status time) := by
  have noted : StatusOnly j { j with lastRemoteStatusUpdate := time } := ⟨rfl, rfl, Iff.rfl, rfl⟩
  unfold noteStatusUpdate
  split
  · exact .refl j
  · simp only
    have h := noted.thenAssign (.int time) (a := .lastRemoteStatusUpdate) (by decide) (by decide)
    split
    · have known : StatusOnly j { (({ j with lastRemoteStatusUpdate := time } : DCloudJob).assign
          .lastRemoteStatusUpdate (.int time)) with currentStatusUnknown := false } :=
        { h with }
      exact known.thenAssign _ (by decide) (by decide)
    · exact h

theorem setRemoteJobStatus_frozen : (j.setRemoteJobStatus status time).2.frozen = j.frozen := by
  have noted := (noteStatusUpdate_statusOnly j time status).frozen
  unfold setRemoteJobStatus
  simp only
  split
  · exact noted
  · simp only
    split <;> split <;> exact noted

theorem setRemoteJobStatus_text :
    (j.setRemoteJobStatus status time).2.jobAd.stringOf .gridJobStatus = status.getD "" := by
  unfold setRemoteJobStatus
  simp only
  split
  · next same => exact same
  · simp only
    by_cases empty : status.getD "" = ""
    · by_cases blank : (j.noteStatusUpdate status time).jobAd.stringOf .gridJobStatus = ""
      · simp [empty, blank]
      · simp [empty, blank, DCloudJob.assign]
    · simp [empty, DCloudJob.assign]

theorem setRemoteJobStatus_unchanged (h : (j.setRemoteJobStatus status time).1 = false) :
    j.jobAd.stringOf .gridJobStatus = status.getD "" := by
  unfold setRemoteJobStatus at h
  simp only at h
  split at h
  · next same => exact (noteStatusUpdate_statusOnly j time status).gridJobStatusText.symm.trans same
  · cases h

theorem statusUpdate_some (status : String)
    (synced : j.jobAd.stringOf .gridJobStatus = j.remoteJobState) :
    (j.statusUpdate (some status) time).remoteJobState = status ∧
      (j.statusUpdate (some status) time).jobAd.stringOf .gridJobStatus = status := by
  have text := setRemoteJobStatus_text j time (some status)
  have frozen := setRemoteJobStatus_frozen j time (some status)
  unfold statusUpdate
  simp only
  cases changed : j.setRemoteJobStatus (some status) time with
  | mk flag j' =>
    rw [changed] at text frozen
    cases flag with
    | false =>
      have same := setRemoteJobStatus_unchanged j time (some status) (by rw [changed])
      refine ⟨?_, text⟩
      have kept := member_of_frozen frozen DCloudJob.remoteJobState fun _ => rfl
      rw [kept, ← synced, same]
      rfl
    | true =>
      refine ⟨rfl, ?_⟩
      simp only
      split
      · exact (jobRunning_statusOnly j' time).gridJobStatusText.trans text
      · exact text

theorem statusUpdate_member (f : DCloudJob → β) (kept : ∀ j, f j.frozen = f j)
    (blind : ∀ (j : DCloudJob) (s : String) (b : Bool),
      f { j with remoteJobState := s, probeNow := b } = f j) :
    f (j.statusUpdate status time) = f j := by
  cases status with
  | none => exact blind j j.remoteJobState true
  | some status =>
    have frozen := setRemoteJobStatus_frozen j time (some status)
    unfold statusUpdate
    simp only
    cases changed : j.setRemoteJobStatus (some status) time with
    | mk flag j' =>
      rw [changed] at frozen
      have same := member_of_frozen frozen f kept
      cases flag with
      | false => exact same
      | true =>
        simp only
        rw [blind]
        split
        · exact ((jobRunning_statusOnly j' time).member f kept).trans same
        · exact same

end DCloudJob

theorem JobAd.putClean_kept (ad : JobAd) {a b : Attr} (v : Option AdValue) (h : b ≠ a) :
    (ad.putClean a v).value b = ad.value b ∧ (b ∈ (ad.putClean a v).dirty ↔ b ∈ ad.dirty) := by
  refine ⟨Function.update_of_ne h _ _, ?_⟩
  simp [JobAd.putClean, h]

theorem foldl_putClean_kept {f : JobAd → Attr → JobAd} {b : Attr}
    (kept : ∀ ad a, b ≠ a → (f ad a).value b = ad.value b ∧ (b ∈ (f ad a).dirty ↔ b ∈ ad.dirty)) :
    ∀ (l : List Attr) (ad : JobAd), b ∉ l →
      (l.foldl f ad).value b = ad.value b ∧ (b ∈ (l.foldl f ad).dirty ↔ b ∈ ad.dirty)
  | [], _, _ => ⟨rfl, Iff.rfl⟩
  | a :: l, ad, absent => by
    rw [List.mem_cons, not_or] at absent
    have first := kept ad a absent.1
    have rest := foldl_putClean_kept kept l (f ad a) absent.2
    exact ⟨rest.1.trans first.1, rest.2.trans first.2⟩

namespace JobAd
variable (ad : JobAd) (u : ScheddUpdate) {b : Attr}

theorem copyStatusAttrs_kept (h : b ∉ heldRemovedUpdateAttrs) :
    (ad.copyStatusAttrs u).value b = ad.value b ∧
      (b ∈ (ad.copyStatusAttrs u).dirty ↔ b ∈ ad.dirty) :=
  foldl_putClean_kept (fun ad _ h => ad.putClean_kept _ h) _ ad h

theorem mergeStatusAttrs_kept (h : b ∉ heldRemovedUpdateAttrs) :
    (ad.mergeStatusAttrs u).value b = ad.value b ∧
      (b ∈ (ad.mergeStatusAttrs u).dirty ↔ b ∈ ad.dirty) := by
  refine foldl_putClean_kept (fun ad a h => ?_) _ ad h
  split
  · exact ad.putClean_kept _ h
  · exact ⟨rfl, Iff.rfl⟩

end JobAd

namespace DCloudJob
variable (j : DCloudJob) (time : Int)

theorem learnLeaving_statusOnly (u : ScheddUpdate) : StatusOnly j (j.learnLeaving u time) := by
  unfold learnLeaving
  extract_lets j₁ j₂ j₃
  have id := j.jobAd.copyStatusAttrs_kept u (b := .gridJobId) (by decide)
  have status := j.jobAd.copyStatusAttrs_kept u (b := .gridJobStatus) (by decide)
  have h₂ : StatusOnly j j₂ := by
    simp only [j₂]
    split
    · exact ⟨rfl, id.1, id.2, status.1⟩
    · exact ⟨rfl, id.1, id.2, status.1⟩
  have h₃ : StatusOnly j j₃ := by
    simp only [j₃]
    split
    · exact h₂.thenAssign _ (by decide) (by decide)
    · exact h₂
  have entered : StatusOnly j { j₃ with condorState := u.status } :=
    { h₃ with }
  exact entered.trans (updateRuntimeStats_statusOnly _ time)

theorem jobAdUpdateFromSchedd_statusOnly (u : ScheddUpdate) :
    StatusOnly j (j.jobAdUpdateFromSchedd u time) := by
  unfold jobAdUpdateFromSchedd
  extract_lets merged
  have hm : StatusOnly j merged := by
    simp only [merged]
    split
    · exact .refl j
    · have id := j.jobAd.mergeStatusAttrs_kept u (b := .gridJobId) (by decide)
      have status := j.jobAd.mergeStatusAttrs_kept u (b := .gridJobStatus) (by decide)
      exact ⟨rfl, id.1, id.2, status.1⟩
  split
  · exact hm
  · split
    · exact .refl j
    · split
      · exact learnLeaving_statusOnly j time u
      · split
        · exact ⟨rfl, rfl, Iff.rfl, rfl⟩
        · exact hm

theorem jobLeaseReceivedExpired_statusOnly : StatusOnly j (j.jobLeaseReceivedExpired time) :=
  ((enterStatus_statusOnly j time .removed).thenAssign _ (by decide) (by decide)).trans
    (updateRuntimeStats_statusOnly _ time)

theorem evalPeriodicJobExpr_statusOnly (action : PolicyAction) (reason : String) :
    StatusOnly j (j.evalPeriodicJobExpr action reason time) := by
  cases action with
  | undefinedEval => exact jobHeld_statusOnly j time reason
  | staysInQueue => exact .refl j
  | removeFromQueue => exact jobRemoved_statusOnly j time reason
  | holdInQueue => exact jobHeld_statusOnly j time reason
  | releaseFromHold => exact .refl j

theorem checkRemoteStatus_statusOnly : StatusOnly j (j.checkRemoteStatus time) := by
  have unknown : StatusOnly j { j with currentStatusUnknown := true } := ⟨rfl, rfl, Iff.rfl, rfl⟩
  unfold checkRemoteStatus
  split
  · exact .refl j
  · split
    · exact unknown.thenAssign _ (by decide) (by decide)
    · exact .refl j

theorem notifyResourceDown_statusOnly : StatusOnly j (j.notifyResourceDown time) := by
  unfold notifyResourceDown
  extract_lets j₁
  have h : StatusOnly j j₁ := by
    simp only [j₁]
    split
    · exact .refl j
    · exact .assign j _ (by decide) (by decide)
  exact { h with }

theorem notifyResourceUp_statusOnly : StatusOnly j j.notifyResourceUp := by
  unfold notifyResourceUp
  extract_lets j₁
  have h : StatusOnly j j₁ := by
    simp only [j₁]
    split
    · exact .assign j _ (by decide) (by decide)
    · exact .refl j
  exact { h with }

end DCloudJob
namespace World

variable (w : World)

theorem gmState_setInstanceName (name : Option String) (time : Int) :
    (w.setInstanceName name time).job.gmState = w.job.gmState :=
  DCloudJob.member_of_frozen (DCloudJob.setGridJobId_frozen _ time _) DCloudJob.gmState fun _ => rfl

theorem gmState_setInstanceId (id : Option String) (time : Int) :
    (w.setInstanceId id time).job.gmState = w.job.gmState :=
  DCloudJob.member_of_frozen (DCloudJob.setGridJobId_frozen _ time _) DCloudJob.gmState fun _ => rfl

@[simp] theorem gahp_setInstanceId (id : Option String) (time : Int) :
    (w.setInstanceId id time).gahp = w.gahp := by
  unfold setInstanceId noteInstanceId
  cases w.job.instanceId <;> cases id <;> rfl

@[simp] theorem excepted_setInstanceId (id : Option String) (time : Int) :
    (w.setInstanceId id time).excepted = w.excepted := by
  unfold setInstanceId noteInstanceId
  cases w.job.instanceId <;> cases id <;> rfl

theorem idleAgain_statusOnly (time : Int) : DCloudJob.StatusOnly w.job (w.idleAgain time).job := by
  have idle := DCloudJob.jobIdle_statusOnly w.job time
  unfold idleAgain
  simp only
  split
  · exact idle.trans (DCloudJob.jobEvicted_statusOnly _ time)
  · exact idle

theorem construct_history (self : JobRef) (ad : JobAd) (resubmit gahpDefined : Bool) (time : Int)
    (resource : BaseResource) (table : Utils.HashTable String JobRef) :
    (construct self ad resubmit gahpDefined time resource table).history = [] := by
  unfold construct
  simp only
  split
  · rfl
  · split
    · rfl
    · split <;> rfl

theorem readAd_kept {β : Type*} {j j' : DCloudJob} (read : j.readAd = .ok j') (f : DCloudJob → β)
    (blind : ∀ (j : DCloudJob) (a b c d e g h i k l m : Option String),
      f { j with
          serviceUrl := a, username := b, password := c, imageId := d, realmId := e, hwpId := g,
          hwpCpu := h, hwpMemory := i, hwpStorage := k, keyname := l, userdata := m } = f j) :
    f j' = f j := by
  unfold DCloudJob.readAd at read
  cases url : DCloudJob.parseGridResource (j.jobAd.stringOf .gridResource) with
  | error e =>
    rw [url] at read
    cases read
  | ok serviceUrl =>
    rw [url] at read
    simp only [bind, Except.bind] at read
    split at read
    · split at read
      · split at read
        · cases read
          exact blind j _ _ _ _ _ _ _ _ _ _ _
        · cases read
      · cases read
    · cases read

theorem restoreInstance_kept (name id : Option String) (time : Int) :
    (w.restoreInstance name id time).job.gmState = w.job.gmState ∧
      (w.restoreInstance name id time).gahp = w.gahp ∧
      (w.restoreInstance name id time).job.remoteJobState =
        (w.restoreInstance name id time).job.jobAd.stringOf .gridJobStatus := by
  unfold restoreInstance
  extract_lets w₁ w₂ w₃
  have named : w₁.job.gmState = w.job.gmState ∧ w₁.gahp = w.gahp := by
    cases name with
    | none => exact ⟨rfl, rfl⟩
    | some n => exact ⟨gmState_setInstanceName w (some n) time, rfl⟩
  have known : w₂.job.gmState = w.job.gmState ∧ w₂.gahp = w.gahp := by
    cases id with
    | none => exact named
    | some i =>
      exact ⟨(gmState_setInstanceId w₁ (some i) time).trans named.1,
        (gahp_setInstanceId w₁ (some i) time).trans named.2⟩
  have slot : w₃.job = w₂.job ∧ w₃.gahp = w₂.gahp := by
    simp only [w₃]
    split <;> exact ⟨rfl, rfl⟩
  refine ⟨?_, slot.2.trans known.2, rfl⟩
  change w₃.job.gmState = w.job.gmState
  rw [slot.1, known.1]

theorem construct_cases (self : JobRef) (ad : JobAd) (resubmit gahpDefined : Bool) (time : Int)
    (resource : BaseResource) (table : Utils.HashTable String JobRef) :
    (construct self ad resubmit gahpDefined time resource table).gahp.pending = none ∧
      ((construct self ad resubmit gahpDefined time resource table).job.gmState = .hold ∨
        (construct self ad resubmit gahpDefined time resource table).job.gmState = .init ∧
        (construct self ad resubmit gahpDefined time resource table).job.remoteJobState =
          (construct self ad resubmit gahpDefined time resource table).job.jobAd.stringOf
            .gridJobStatus) := by
  unfold construct
  extract_lets j w₀
  split
  · exact ⟨rfl, .inl rfl⟩
  · split
    · exact ⟨rfl, .inl rfl⟩
    · next j' read =>
        split
        · exact ⟨rfl, .inl rfl⟩
        · next name id _ =>
            have kept := restoreInstance_kept (w₀.setJob j') name id time
            have starting : j'.gmState = .init := by
              refine (readAd_kept read DCloudJob.gmState fun _ _ _ _ _ _ _ _ _ _ _ _ =>
                  rfl).trans ?_
              simp only [j, DCloudJob.forgetHoldReason]
              split <;> rfl
            generalize (w₀.setJob j').restoreInstance name id time = w₁ at kept ⊢
            exact ⟨congrArg GahpClient.pending kept.2.1, .inr ⟨kept.1.trans starting, kept.2.2⟩⟩

end World
end Condor.GridManager
