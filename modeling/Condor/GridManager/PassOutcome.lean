import Condor.GridManager.PassInversion

/-! The loop goes on while `gmState` changes. At most one request is answered during an evaluation,
and without an answer each change of state comes down in a rank. -/
namespace Condor.GridManager
open Condor.Lib

/-- How far the loop can go from a state without an answer of the GAHP; `finish`
says that the instance is known to be gone. -/
def GMState.rank (finish : Bool) : GMState → Nat
  | .delete | .cancel | .checkVm | .startVm => 0
  | .stopped => if finish then 6 else 0
  | .hold | .probeJob => 1
  | .createVm => if finish then 7 else 2
  | .saveInstanceName => if finish then 8 else 3
  | .unsubmitted => if finish then 9 else 4
  | .clearRequest => 5
  | .doneSave => 7
  | .submitted => 8
  | .saveInstanceId => 9
  | .start => 10
  | .init => 11

variable {next : GMState}
variable {state : GMState}

theorem GMState.rank_goes (edge : state.goes next = true) (finish : Bool) :
    next.rank finish < state.rank finish := by
  unfold goes at edge
  split at edge <;> first | (cases finish <;> decide) | cases edge

theorem GMState.rank_clears (edge : state.clears next = true) {finish finish' : Bool}
    (gone : state = .stopped → finish = true) (blank : next = .unsubmitted → finish' = false) :
    next = state ∨ next.rank finish' < state.rank finish := by
  unfold clears at edge
  split at edge <;> cases finish <;> cases finish' <;> simp_all [rank]

theorem GMState.returns_delete (state : GMState) : state.returns .delete = false := by
  cases state <;> rfl

theorem GMState.rank_le (finish : Bool) (state : GMState) : state.rank finish ≤ 11 := by
  cases finish <;> cases state <;> decide

namespace World

def rank (w : World) : Nat := w.job.gmState.rank (decide (w.job.remoteJobState = vmFinish))

def fuel (w : World) : Nat := (if w.gahp.pending.isSome then 12 else 0) + w.rank

def Consumed (w w' : World) : Prop := w.gahp.pending.isSome = true ∧ w'.gahp.pending = none

def Advances (w w' : World) : Prop :=
  w'.job.gmState = w.job.gmState ∨ Consumed w w' ∨
    w'.gahp.pending = w.gahp.pending ∧ w'.rank < w.rank

def NoNewReply (w w' : World) : Prop :=
  w'.gahp.pending = w.gahp.pending ∨ ∀ p, w'.gahp.pending = some p → p.result = none

def Unaborted (w w' : World) : Prop :=
  ∀ message, w'.excepted = some message →
    w.excepted = some message ∨ message ≠ assertText ∧ message ≠ doneText

structure Passed (w w' : World) : Prop where
  advances : Advances w w'
  settled : w'.job.gmState = .delete → w'.job.condorState.done = true
  replies : NoNewReply w w'
  unaborted : Unaborted w w'

theorem Advances.fuel_lt {w w' : World} (h : Advances w w')
    (moved : w'.job.gmState ≠ w.job.gmState) : w'.fuel < w.fuel := by
  rcases h with stays | ⟨asked, answered⟩ | ⟨same, less⟩
  · exact absurd stays moved
  · have rank := GMState.rank_le (decide (w'.job.remoteJobState = vmFinish)) w'.job.gmState
    simp only [fuel, asked, answered, if_true, Option.isSome_none]
    change _ + w'.rank < _
    have : w'.rank ≤ 11 := rank
    simp only [Bool.false_eq_true, if_false]
    omega
  · simp only [fuel, same]
    omega

theorem fuel_le (w : World) : w.fuel ≤ 23 := by
  have rank : w.rank ≤ 11 := GMState.rank_le _ _
  unfold fuel
  split <;> omega

end World

namespace World
theorem afterTag_state_of_id {line : String} (named : (afterTag "id=" line).isSome = true) :
    afterTag "state=" line = none := by
  unfold afterTag at named ⊢
  split at named
  · next hit =>
      rw [if_neg]
      intro other
      obtain ⟨rest, same⟩ := List.isPrefixOf_iff_prefix.mp hit
      obtain ⟨rest', same'⟩ := List.isPrefixOf_iff_prefix.mp other
      rw [← same] at same'
      simp at same'
  · cases named

/-- An id that is known stays known, and a line with one brings it. -/
theorem foldl_processLine_known (time : Int) (attrs : List String) (acc : World × Option String)
    (carried : acc.1.job.instanceId ≠ none ∨ ∃ line ∈ attrs, (afterTag "id=" line).isSome = true) :
    (attrs.foldl (processLine time) acc).1.job.instanceId ≠ none := by
  induction attrs generalizing acc with
  | nil => exact carried.resolve_right nofun
  | cons line attrs ih =>
    refine ih _ ?_
    rcases carried with known | ⟨line', member, named⟩
    · exact .inl (processLine_induct (P := fun w => w.job.instanceId ≠ none) time
        (fun _ _ _ _ _ h => h) (fun w id _ => by rw [instanceId_setInstanceId]; nofun) acc
          line known)
    · rcases List.mem_cons.mp member with rfl | later
      · obtain ⟨id, tagged⟩ := Option.isSome_iff_exists.mp named
        refine .inl ?_
        simp only [processLine, afterTag_state_of_id named, tagged]
        change (acc.1.setInstanceId (some id) time).job.instanceId ≠ none
        rw [instanceId_setInstanceId]
        nofun
      · exact .inr ⟨line', later, named⟩

theorem instanceId_report (w : World) (status : String) (time : Int) :
    (w.report status time).job.instanceId = w.job.instanceId :=
  DCloudJob.statusUpdate_member w.job time (some status) DCloudJob.instanceId (fun _ => rfl)
    fun _ _ _ => rfl

theorem processInstanceAttrs_known (w : World) (attrs : List String) (time : Int)
    (carried : ∃ line ∈ attrs, (afterTag "id=" line).isSome = true) :
    (w.processInstanceAttrs attrs time).job.instanceId ≠ none := by
  have known := foldl_processLine_known time attrs (w, none) (.inr carried)
  unfold processInstanceAttrs
  generalize attrs.foldl (processLine time) (w, none) = r at known
  obtain ⟨w₁, status⟩ := r
  cases status <;> simp only <;> split <;> simpa only [instanceId_report] using known

theorem processInstanceAttrs_kept (w : World) (attrs : List String) (time : Int) :
    (w.processInstanceAttrs attrs time).gahp = w.gahp ∧
      (w.processInstanceAttrs attrs time).excepted = w.excepted :=
  processInstanceAttrs_induct (P := fun w' => w'.gahp = w.gahp ∧ w'.excepted = w.excepted) time
    (fun _ _ _ _ _ h => h)
    (fun w' _ h => ⟨(gahp_setInstanceId w' _ _).trans h.1,
      (excepted_setInstanceId w' _ _).trans h.2⟩)
    (fun _ h => h) (fun _ _ h => h) w attrs ⟨rfl, rfl⟩

def CarriesId (argv : List String) : Prop :=
  match (readAttrsReply "DELTACLOUD_VM_SUBMIT" argv).1 with
  | .ok attrs => ∃ line ∈ attrs, (afterTag "id=" line).isSome = true
  | _ => True

def RepliesCarryId (w : World) : Prop :=
  ∀ p argv, w.gahp.pending = some p → p.command = .vmSubmit → p.result = some argv →
    CarriesId argv

variable {w w' : World}
variable {inp : PassInput}

theorem Back.passed {w₁ : World} {p : PendingRequest} (back : Back w inp p w₁)
    (gahp : w'.gahp = w₁.gahp) (excepted : w'.excepted = w₁.excepted)
    (settled : w'.job.gmState = .delete → w'.job.condorState.done = true) : Passed w w' where
  advances := .inr (.inl ⟨Option.isSome_of_eq_some back.pending, gahp ▸ back.free⟩)
  settled := settled
  replies := .inr fun q pending => by
    rw [gahp, back.free] at pending
    cases pending
  unaborted := fun _ aborted => .inl (back.excepted ▸ excepted ▸ aborted)

theorem Passed.moved (gahp : w'.gahp = w.gahp) (excepted : w'.excepted = w.excepted)
    (advances : w'.job.gmState = w.job.gmState ∨ w'.rank < w.rank)
    (settled : w'.job.gmState = .delete → w'.job.condorState.done = true) : Passed w w' where
  advances := advances.imp_right fun less => .inr ⟨congrArg GahpClient.pending gahp, less⟩
  settled := settled
  replies := .inl (congrArg GahpClient.pending gahp)
  unaborted := fun _ aborted => .inl (excepted ▸ aborted)

theorem rank_lt {unnamed : Bool}
    (view : w'.job.view = { w.job.view with gmState := next, unnamed := unnamed })
    (less : ∀ finish, next.rank finish < w.job.gmState.rank finish) : w'.rank < w.rank := by
  have state : w'.job.gmState = next := congrArg InstanceView.gmState view
  have remote : w'.job.remoteJobState = w.job.remoteJobState :=
    congrArg InstanceView.remoteJobState view
  rw [rank, state, remote]
  exact less _

theorem PassCase.passed (case : PassCase w inp w') (replies : w.RepliesCarryId)
    (settled : w.job.gmState = .delete → w.job.condorState.done = true) : Passed w w' := by
  induction case with
  | steps next unnamed edge view named aside done =>
    have state : _ = next := congrArg InstanceView.gmState view
    refine .moved aside.gahp aside.excepted ?_ fun deleted =>
        done settled (state.symm.trans deleted)
    exact edge.imp state.trans fun goes => rank_lt view (GMState.rank_goes goes)
  | checks state unknown named view aside | restored state known view aside =>
    have next := congrArg InstanceView.gmState view
    refine .moved aside.gahp aside.excepted (.inr (rank_lt view ?_)) fun deleted => ?_
    · rw [state]
      decide
    · cases next.symm.trans deleted
  | @clears next w' edge state unknown synced blank gahp history excepted done gone careless =>
    have state : w'.job.gmState = next := state
    have unfinished : next = .unsubmitted → decide (w'.job.remoteJobState = vmFinish) = false := by
      intro here
      rw [show w'.job.remoteJobState = "" from blank here]
      decide
    refine .moved gahp excepted ?_ fun deleted => done (state.symm.trans deleted)
    rw [rank, rank, state]
    exact GMState.rank_clears edge (fun here => decide_eq_true (gone here)) unfinished
  | issued p asks unanswered free mode view status pending history excepted =>
    have state : _ = w.job.gmState := congrArg InstanceView.gmState view
    refine ⟨.inl state, fun deleted => ?_, .inr fun q here => ?_, fun message aborted => ?_⟩
    · rw [status]
      exact settled (state.symm.trans deleted)
    · cases pending.symm.trans here
      exact unanswered
    · rcases excepted with same | refused
      · exact .inl (same ▸ aborted)
      · cases refused.symm.trans aborted
        exact .inr (by decide)
  | returned next back edge view aside =>
    have state : _ = next := congrArg InstanceView.gmState view
    refine back.passed aside.gahp aside.excepted fun deleted => ?_
    rcases edge with same | returns
    · have asks := back.asks
      rw [← same, state.symm.trans deleted] at asks
      cases asks
    · rw [state.symm.trans deleted, GMState.returns_delete] at returns
      cases returns
  | found id back state view gahp history excepted result read =>
    have next : _ = GMState.saveInstanceId := congrArg InstanceView.gmState view
    exact back.passed gahp excepted fun deleted => by cases next.symm.trans deleted
  | @created p w₁ attrs argv back state result read =>
    have kept := processInstanceAttrs_kept (w₁.submitAttempted inp.time) attrs inp.time
    have carries := replies p argv back.pending
      (Option.some.inj (back.asks.symm.trans (state ▸ rfl))) result
    simp only [CarriesId, read] at carries
    have known := processInstanceAttrs_known (w₁.submitAttempted inp.time) attrs inp.time carries
    unfold instanceCreated
    generalize (w₁.submitAttempted inp.time).processInstanceAttrs attrs inp.time =
        w₂ at kept known ⊢
    simp only
    rw [if_neg known]
    split
    · exact back.passed kept.1 kept.2 nofun
    · exact back.passed kept.1 kept.2 nofun
  | @probed p w₁ attrs back state =>
    have kept := processInstanceAttrs_kept w₁ attrs inp.time
    exact back.passed kept.1 kept.2 nofun
  | @destroyed p w₁ back state unfinished =>
    obtain ⟨gahp, excepted, -, next, -, state, -, -, done⟩ := destroyed_spec w₁ inp.time
    exact back.passed gahp excepted fun deleted => done (state.symm.trans deleted)
  | aborts message reason before ih =>
    refine ⟨ih.advances, ih.settled, ih.replies, ?_⟩
    rintro _ ⟨⟩
    rcases reason with other | ⟨deleted, unsettled⟩
    · exact .inr other
    · rw [settled deleted] at unsettled
      cases unsettled

theorem pass_passed (now : Int) (inp : PassInput) (replies : w.RepliesCarryId)
    (settled : w.job.gmState = .delete → w.job.condorState.done = true) :
    Passed w (w.pass now inp) :=
  (w.pass_case now inp).passed replies settled

end World
end Condor.GridManager
