import Condor.GridManager.PassInversion

/-! Between evaluations the job is told about its status, the state of its instance or the reply to
its request. -/
namespace Condor.GridManager

namespace DCloudJob
variable (j : DCloudJob) (time : Int)

theorem jobAdUpdateFromSchedd_done (u : ScheddUpdate) (done : j.condorState.done = true) :
    (j.jobAdUpdateFromSchedd u time).condorState.done = true := by
  unfold jobAdUpdateFromSchedd
  extract_lets merged
  have same : merged.condorState.done = true := by
    simp only [merged]
    split <;> exact done
  split
  · exact same
  · split
    · exact done
    · split
      · next leaving =>
          have status : (j.learnLeaving u time).condorState = u.status :=
            updateRuntimeStats_condorState _ time
          rw [status]
          rcases leaving with removed | held
          · rw [removed]
            rfl
          · rw [held]
            rfl
      · split
        · next completed =>
            change u.status.done = true
            rw [completed]
            rfl
        · exact same

theorem evalPeriodicJobExpr_done (action : PolicyAction) (reason : String)
    (done : j.condorState.done = true) :
    (j.evalPeriodicJobExpr action reason time).condorState.done = true := by
  cases action with
  | undefinedEval => exact jobHeld_done j reason time
  | staysInQueue => exact done
  | removeFromQueue =>
    change (j.jobRemoved reason time).condorState.done = true
    rw [jobRemoved_condorState]
    rfl
  | holdInQueue => exact jobHeld_done j reason time
  | releaseFromHold => exact done

theorem setRemoteJobStatus_condorState (status : Option String) :
    (j.setRemoteJobStatus status time).2.condorState = j.condorState := by
  have noted : (j.noteStatusUpdate status time).condorState = j.condorState := by
    unfold noteStatusUpdate
    cases status with
    | none => rfl
    | some _ =>
      simp only
      split <;> rfl
  unfold setRemoteJobStatus
  simp only
  split
  · exact noted
  · change condorState (if _ then _ else _) = _
    split
    · change condorState (if _ then _ else _) = _
      split <;> exact noted
    · split <;> exact noted

end DCloudJob

namespace World

/-- A report does not change the status of the job, unless its instance turns out to run. -/
theorem report_condorState (w : World) (status : String) (time : Int)
    (known : ¬(status.toList.map Char.toUpper = vmRunning.toList ∧ w.job.condorState ≠ .running)) :
    (w.report status time).job.condorState = w.job.condorState := by
  have same := DCloudJob.setRemoteJobStatus_condorState w.job time (some status)
  change (w.job.statusUpdate (some status) time).condorState = w.job.condorState
  unfold DCloudJob.statusUpdate
  simp only
  generalize w.job.setRemoteJobStatus (some status) time = r at same
  obtain ⟨changed, j'⟩ := r
  cases changed with
  | false => exact same
  | true =>
    change DCloudJob.condorState (if _ then _ else _) = _
    split
    · next runs =>
        have running : w.job.condorState = .running := not_not.mp fun other => known ⟨runs, other⟩
        unfold DCloudJob.jobRunning
        rw [if_neg fun active => active.1 (same.trans running)]
        exact same
    · exact same

inductive EnvironmentCase (w : World) : Input → World → Prop
  | aside {input : Input} {w' : World} (view : w'.job.view = w.job.view) (aside : Aside w w')
      (settled : w.job.condorState.done = true → w'.job.condorState.done = true) :
      EnvironmentCase w input w'
  | replied (argv : List String) :
      EnvironmentCase w (.gahpReply argv) (w.withGahp (·.stash argv))
  | sent (time : Int) : EnvironmentCase w (.gahpSends time) (w.withGahp (·.sendWaiting time))
  | reported {input : Input} (status : String) (time : Int) (known : w.job.instanceId ≠ none)
      (same : (w.report status time).job.condorState = w.job.condorState) :
      EnvironmentCase w input (w.report status time)

variable {w w' : World}
variable {input : Input} {g : GahpClient} {q : PendingRequest}

theorem EnvironmentCase.withJob {f : DCloudJob → DCloudJob}
    (only : DCloudJob.StatusOnly w.job (f w.job))
    (settled : w.job.condorState.done = true → (f w.job).condorState.done = true) :
    EnvironmentCase w input (w.withJob f) :=
  .aside only.view ⟨rfl, rfl, rfl⟩ settled

theorem batchStatus_case (w : World) (listing : List (String × String)) (time : Int) :
    EnvironmentCase w (.batchStatus listing time) (w.batchStatus listing time) := by
  unfold batchStatus
  split
  · exact .aside rfl ⟨rfl, rfl, rfl⟩ id
  · next known =>
      split
      · exact .aside rfl ⟨rfl, rfl, rfl⟩ fun done => done
      · split
        · exact .aside rfl ⟨rfl, rfl, rfl⟩ fun done => done
        · next told =>
            exact .reported _ time (Option.ne_none_iff_exists'.mpr ⟨_, known⟩)
              (report_condorState w _ time told)

theorem environment_case (taken : w.environment input = some w') :
    EnvironmentCase w input w' := by
  cases input with
  | evaluate now => cases taken
  | pass inp => cases taken
  | scheddStatus u time =>
    cases taken
    exact .withJob (DCloudJob.jobAdUpdateFromSchedd_statusOnly _ time u)
      (DCloudJob.jobAdUpdateFromSchedd_done _ time u)
  | leaseExpired time =>
    cases taken
    refine .withJob (DCloudJob.jobLeaseReceivedExpired_statusOnly _ time) fun _ => ?_
    rw [DCloudJob.jobLeaseReceivedExpired, DCloudJob.updateRuntimeStats_condorState]
    rfl
  | periodicPolicy action reason time =>
    cases taken
    exact .withJob (DCloudJob.evalPeriodicJobExpr_statusOnly _ time action reason)
      (DCloudJob.evalPeriodicJobExpr_done _ time action reason)
  | scheddCommit =>
    cases taken
    exact .aside rfl ⟨rfl, rfl, rfl⟩ id
  | gahpReply argv =>
    cases taken
    exact .replied argv
  | gahpSends time =>
    cases taken
    exact .sent time
  | batchStatus listing time =>
    cases taken
    exact batchStatus_case w listing time
  | checkRemoteStatus time =>
    cases taken
    refine .withJob (DCloudJob.checkRemoteStatus_statusOnly _ time) fun done => ?_
    unfold DCloudJob.checkRemoteStatus
    split
    · exact done
    · split <;> exact done
  | resourceDown time =>
    cases taken
    refine .withJob (DCloudJob.notifyResourceDown_statusOnly _ time) fun done => ?_
    change (DCloudJob.condorState (if _ then _ else _)).done = true
    split <;> exact done
  | resourceUp =>
    cases taken
    refine .withJob (DCloudJob.notifyResourceUp_statusOnly _) fun done => ?_
    change (DCloudJob.condorState (if _ then _ else _)).done = true
    split <;> exact done
  | otherRequest other =>
    simp only [environment] at taken
    split at taken
    · cases taken
    · obtain ⟨answer, -, rfl⟩ := Option.map_eq_some_iff.mp taken
      exact .aside rfl ⟨rfl, rfl, rfl⟩ id
  | otherCancel other =>
    simp only [environment] at taken
    split at taken
    · cases taken
    · cases taken
      exact .aside rfl ⟨rfl, rfl, rfl⟩ id
  | reconfig limit =>
    cases taken
    exact .aside rfl ⟨rfl, rfl, rfl⟩ id

theorem pending_stash {argv : List String} (pending : (g.stash argv).pending = some q) :
    ∃ p, g.pending = some p ∧ q.command = p.command ∧ q.args = p.args ∧
      (q.result = p.result ∨ q.result = some argv) := by
  unfold GahpClient.stash at pending
  split at pending
  · next p before =>
      split at pending
      · cases pending
        exact ⟨p, before, rfl, rfl, .inr rfl⟩
      · exact ⟨q, pending, rfl, rfl, .inl rfl⟩
  · exact ⟨q, pending, rfl, rfl, .inl rfl⟩

theorem pending_sendWaiting {time : Int} (pending : (g.sendWaiting time).pending = some q) :
    ∃ p, g.pending = some p ∧ q.command = p.command ∧ q.args = p.args ∧ q.result = p.result := by
  unfold GahpClient.sendWaiting at pending
  split at pending
  · next p before =>
      split at pending
      · exact ⟨q, pending, rfl, rfl, rfl⟩
      · cases pending
        exact ⟨p, before, rfl, rfl, rfl⟩
  · exact ⟨q, pending, rfl, rfl, rfl⟩

end World

namespace System

inductive StepCase (s : System) : Input → System → Prop
  | enters (now : Int) : StepCase s (.evaluate now)
      { s with world := s.world.enterEvaluation, phase := .evaluating now }
  | turns (now : Int) (inp : PassInput) (evaluating : s.phase = .evaluating now) :
      StepCase s (.pass inp) { s with
        world := s.world.pass now inp
        phase := if (s.world.pass now inp).job.gmState = s.world.job.gmState then .idle
          else .evaluating now }
  | outside {input : Input} {w : World} (deleted : Bool)
      (case : World.EnvironmentCase s.world input w) : StepCase s input ⟨w, .idle, deleted⟩

theorem step_case {s t : System} {input : Input} (taken : s.step input = some t) :
    s.deleted = false ∧ s.world.excepted = none ∧ StepCase s input t := by
  unfold step at taken
  split at taken
  · cases taken
  · next alive =>
      rw [not_or, Bool.not_eq_true, Bool.not_eq_true, Option.isSome_eq_false_iff,
        Option.isNone_iff_eq_none] at alive
      refine ⟨alive.1, alive.2, ?_⟩
      split at taken
      · cases taken
        exact .enters _
      · next evaluating =>
          cases taken
          exact .turns _ _ evaluating
      · next idle =>
          obtain ⟨w, moved, rfl⟩ := Option.map_eq_some_iff.mp taken
          rw [idle]
          exact .outside _ (World.environment_case moved)
      · next idle _ _ =>
          obtain ⟨w, moved, rfl⟩ := Option.map_eq_some_iff.mp taken
          rw [idle]
          exact .outside _ (World.environment_case moved)
      · cases taken

end System
end Condor.GridManager
