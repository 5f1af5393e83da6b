import Condor.GridManager.LateSubmit
import Condor.GridManager.PassOutcome

/-! Between evaluations the status of a job in `GM_DELETE` stays one that `DoneWithJob` accepts. -/
namespace Condor.GridManager
open Condor.Lib

namespace World
variable {w w' : World}

structure Safe (w : World) : Prop where
  settled : w.job.gmState = .delete → w.job.condorState.done = true
  replies : w.RepliesCarryId
  unaborted : w.excepted ≠ some assertText ∧ w.excepted ≠ some doneText

theorem Passed.safe (passed : Passed w w') (h : w.Safe) : w'.Safe := by
  refine ⟨passed.settled, fun p argv pending name result => ?_, ?_⟩
  · rcases passed.replies with same | fresh
    · exact h.replies p argv (same ▸ pending) name result
    · rw [fresh p pending] at result
      cases result
  · constructor
    · intro aborted
      rcases passed.unaborted _ aborted with before | ⟨other, -⟩
      · exact h.unaborted.1 before
      · exact other rfl
    · intro aborted
      rcases passed.unaborted _ aborted with before | ⟨-, other⟩
      · exact h.unaborted.2 before
      · exact other rfl

end World

/-- The condition on the GAHP: a submit request that succeeds is answered with an id. -/
def SubmitRepliesCarryId (s : System) : Input → Prop
  | .gahpReply argv =>
    match s.world.gahp.pending with
    | some p => p.command = .vmSubmit → World.CarriesId argv
    | none => True
  | _ => True

instance : DecidablePred World.CarriesId := fun argv => by
  unfold World.CarriesId
  split <;> infer_instance

instance (s : System) : DecidablePred (SubmitRepliesCarryId s)
  | .gahpReply argv => by
    unfold SubmitRepliesCarryId
    simp only
    split <;> infer_instance
  | .pass _ | .evaluate _ | .scheddStatus _ _ | .leaseExpired _ | .periodicPolicy _ _ _
  | .scheddCommit | .gahpSends _ | .batchStatus _ _ | .checkRemoteStatus _ | .resourceDown _
  | .resourceUp | .otherRequest _ | .otherCancel _ | .reconfig _ => .isTrue trivial

variable {s : System}
variable {input : Input}

theorem World.EnvironmentCase.safe {w' : World} (case : EnvironmentCase s.world input w')
    (h : s.world.Safe) (carries : SubmitRepliesCarryId s input) : w'.Safe := by
  cases case with
  | aside view aside settled =>
    have state : _ = s.world.job.gmState := congrArg InstanceView.gmState view
    refine ⟨fun deleted => settled (h.settled (state.symm.trans deleted)), ?_,
      aside.excepted ▸ h.unaborted⟩
    unfold RepliesCarryId
    rw [aside.gahp]
    exact h.replies
  | replied argv =>
    refine ⟨h.settled, fun q read pending name result => ?_, h.unaborted⟩
    obtain ⟨p, before, command, -, same | new⟩ := pending_stash pending
    · exact h.replies p read before (command ▸ name) (same ▸ result)
    · simp only [SubmitRepliesCarryId, before] at carries
      cases new.symm.trans result
      exact carries (command ▸ name)
  | sent time =>
    refine ⟨h.settled, fun q read pending name result => ?_, h.unaborted⟩
    obtain ⟨p, before, command, -, same⟩ := pending_sendWaiting pending
    exact h.replies p read before (command ▸ name) (same ▸ result)
  | reported status time known same =>
    have state := DCloudJob.statusUpdate_member s.world.job time (some status) DCloudJob.gmState
      (fun _ => rfl) fun _ _ _ => rfl
    refine ⟨fun deleted => ?_, h.replies, h.unaborted⟩
    rw [same]
    exact h.settled (state.symm.trans deleted)

namespace System

/-- Between two steps the job is safe, and an evaluation is not of a deleted job. -/
structure Sane (s : System) : Prop where
  world : s.world.Safe
  present : ∀ now, s.phase = .evaluating now → s.deleted = false

theorem step_sane {t : System} (h : s.Sane) (carries : SubmitRepliesCarryId s input)
    (taken : s.step input = some t) : t.Sane := by
  obtain ⟨kept, -, case⟩ := step_case taken
  cases case with
  | enters now => exact ⟨⟨h.world.settled, h.world.replies, h.world.unaborted⟩, fun _ _ => kept⟩
  | turns now inp evaluating =>
    exact ⟨(World.pass_passed _ _ h.world.replies h.world.settled).safe h.world, fun _ _ => kept⟩
  | outside deleted case => exact ⟨case.safe h.world carries, nofun⟩

theorem pass_turn (inp : PassInput) (h : s.Sane) (now : Int)
    (evaluating : s.phase = .evaluating now) (running : s.world.excepted.isSome = false) :
    ∃ t, s.step (.pass inp) = some t ∧ t.Sane ∧
      (t.phase = .idle ∨ t.phase = .evaluating now ∧ t.world.fuel < s.world.fuel) := by
  have passed := World.pass_passed (w := s.world) now inp h.world.replies h.world.settled
  refine ⟨{ s with
    world := s.world.pass now inp
    phase := if (s.world.pass now inp).job.gmState = s.world.job.gmState then .idle
      else .evaluating now }, ?_, ⟨passed.safe h.world, fun _ _ => h.present now evaluating⟩, ?_⟩
  · unfold step
    rw [if_neg]
    · simp only [evaluating]
    · rintro (deleted | excepted)
      · rw [h.present now evaluating] at deleted
        cases deleted
      · rw [running] at excepted
        cases excepted
  · by_cases stays : (s.world.pass now inp).job.gmState = s.world.job.gmState
    · exact .inl (if_pos stays)
    · exact .inr ⟨if_neg stays, passed.advances.fuel_lt stays⟩

end System

theorem World.construct_excepted (self : JobRef) (ad : JobAd) (resubmit gahpDefined : Bool)
    (time : Int) (resource : BaseResource) (table : Utils.HashTable String JobRef) :
    (World.construct self ad resubmit gahpDefined time resource table).excepted = none := by
  unfold construct
  extract_lets j w
  split
  · rfl
  · split
    · rfl
    · split
      · rfl
      · next name id _ =>
          change ((w.setJob _).restoreInstance name id time).excepted = none
          unfold restoreInstance
          extract_lets w₁ w₂ w₃
          have named : w₁.excepted = none := by
            simp only [w₁]
            split <;> rfl
          have known : w₂.excepted = none := by
            simp only [w₂]
            split
            · exact (excepted_setInstanceId w₁ _ time).trans named
            · exact named
          change w₃.excepted = none
          simp only [w₃]
          split <;> exact known

theorem World.construct_safe (self : JobRef) (ad : JobAd) (resubmit gahpDefined : Bool) (time : Int)
    (resource : BaseResource) (table : Utils.HashTable String JobRef) :
    (World.construct self ad resubmit gahpDefined time resource table).Safe := by
  obtain ⟨pending, state⟩ := construct_cases self ad resubmit gahpDefined time resource table
  refine ⟨fun deleted => ?_, fun p argv present => ?_, ?_⟩
  · rcases state with held | ⟨new, -⟩
    · rw [held] at deleted
      cases deleted
    · rw [new] at deleted
      cases deleted
  · rw [pending] at present
    cases present
  · rw [construct_excepted]
    exact ⟨nofun, nofun⟩

/-- Every evaluation of a job returns after at most 24 passes, the assertion on the
instance id holds, and `DoneWithJob` is called with a status that it accepts only. -/
theorem evaluation_returns (self : JobRef) (ad : JobAd) (resubmit gahpDefined : Bool) (time : Int)
    (resource : BaseResource) (table : Utils.HashTable String JobRef) {inputs : List Input}
    {s : System}
    (run : Run (Guarded (Takes System.step) SubmitRepliesCarryId)
      (System.initial (World.construct self ad resubmit gahpDefined time resource table))
        inputs s) :
    (∀ now, s.phase = .evaluating now → ∀ passes : Nat → PassInput, ∃ n ≤ 24, ∃ t,
        System.Runs s ((List.range n).map fun i => .pass (passes i)) t ∧
          (t.phase = .idle ∨ t.world.excepted.isSome = true)) ∧
      s.world.excepted ≠ some "Assertion ERROR on (m_instanceId)" ∧
      s.world.excepted ≠ some "BaseJob::DoneWithJob called with unexpected state" ∧
      (s.world.job.gmState = .delete →
        s.world.job.condorState ∈ [.completed, .removed, .held, .idle]) := by
  have sane : s.Sane := by
    refine run.invariant ⟨World.construct_safe self ad resubmit gahpDefined time resource table,
      nofun⟩ fun _ _ _ sane taken => System.step_sane sane taken.1 taken.2
  refine ⟨fun now evaluating passes => ?_, sane.world.unaborted.1, sane.world.unaborted.2, ?_⟩
  · have turn : ∀ (s : System) (i : Nat), s.Sane ∧ s.phase = .evaluating now →
        ¬(s.phase = .idle ∨ s.world.excepted.isSome = true) →
        ∃ t, s.step (.pass (passes i)) = some t ∧
          ((t.phase = .idle ∨ t.world.excepted.isSome = true) ∨
            (t.Sane ∧ t.phase = .evaluating now) ∧ t.world.fuel < s.world.fuel) := by
      rintro s i ⟨sane, evaluating⟩ unfinished
      rw [not_or] at unfinished
      obtain ⟨t, taken, sane', ended | ⟨goes, less⟩⟩ := System.pass_turn (passes i) sane now
        evaluating (eq_false_of_ne_true unfinished.2)
      · exact ⟨t, taken, .inl (.inl ended)⟩
      · exact ⟨t, taken, .inr ⟨⟨sane', goes⟩, less⟩⟩
    obtain ⟨n, few, t, steps, ended⟩ := exists_run_to_final (fun s : System => s.world.fuel)
      (fun i => Input.pass (passes i)) turn ⟨sane, evaluating⟩
    have bound := s.world.fuel_le
    exact ⟨n, by omega, t, steps, ended⟩
  · intro deleted
    have done := sane.world.settled deleted
    cases status : s.world.job.condorState <;> rw [status] at done <;> simp_all [JobStatus.done]

def instanceAnswered : List Input :=
  nameSaved ++ requestInstance ++
    [.gahpReply ["4", "NULL", "id=i-1", "state=RUNNING"], .evaluate 401]

theorem evaluation_returns_created :
    (execute (guardedStep System.step SubmitRepliesCarryId) (System.initial newJob)
        instanceAnswered).map (fun s => (s.phase, s.world.job.gmState)) =
      some (.evaluating 401, .createVm) ∧
      ∃ s, Run (Guarded (Takes System.step) SubmitRepliesCarryId) (System.initial newJob)
          instanceAnswered s ∧
        ∀ passes : Nat → PassInput, ∃ n ≤ 24, ∃ t,
          System.Runs s ((List.range n).map fun i => .pass (passes i)) t ∧
            (t.phase = .idle ∨ t.world.excepted.isSome = true) := by
  have reached : (execute (guardedStep System.step SubmitRepliesCarryId) (System.initial newJob)
      instanceAnswered).map (fun s => (s.phase, s.world.job.gmState)) =
      some (.evaluating 401, .createVm) := by decide +kernel
  obtain ⟨s, ended, seen⟩ := Option.map_eq_some_iff.mp reached
  have run := Run.of_execute_guarded ended
  exact ⟨reached, s, run, (evaluation_returns _ _ _ _ _ _ _ run).1 401 (congrArg Prod.fst seen)⟩

end Condor.GridManager
