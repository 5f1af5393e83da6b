import Condor.GridManager.InstanceLifetime

/-! `GM_DONE_SAVE`, `GM_CLEAR_REQUEST` and `GM_STOPPED` clear the id, and only the last destroys the
instance first. What a step has to avoid is a condition on the state before the pass and on its
input. -/
namespace Condor.GridManager
open Condor.Lib

namespace World

/-- `GM_STOPPED` gives a destroy request up after its time-out and goes on as if it had
been answered. -/
def DestroyTimesOut (w : World) (inp : PassInput) : Prop :=
  w.job.gmState = .stopped ∧ w.job.instanceId ≠ none ∧ w.job.remoteJobState ≠ vmFinish ∧
    ∃ p ∈ w.gahp.pending, p.command = .vmAction ∧ GahpClient.pendingTimedOut p inp.time = true

/-- The passes that may clear an id keep to instances that are gone. -/
def CarefulPass (w : World) (inp : PassInput) : Prop :=
  ¬w.AbandonsStopped inp ∧ ¬w.ForgetsUnnamed ∧ ¬w.DestroyTimesOut inp

end World

instance (w : World) (inp : PassInput) : Decidable (w.CarefulPass inp) := by
  delta World.CarefulPass World.AbandonsStopped World.ForgetsUnnamed World.DestroyTimesOut
  infer_instance

/-- The condition on a step; only passes have one. -/
def Careful (s : System) : Input → Prop
  | .pass inp => s.world.CarefulPass inp
  | _ => True

instance (s : System) (input : Input) : Decidable (Careful s input) :=
  match input with
  | .pass inp => inferInstanceAs (Decidable (s.world.CarefulPass inp))
  | .evaluate _ | .scheddStatus _ _ | .leaseExpired _ | .periodicPolicy _ _ _ | .scheddCommit
  | .gahpReply _ | .gahpSends _ | .batchStatus _ _ | .checkRemoteStatus _ | .resourceDown _
  | .resourceUp | .otherRequest _ | .otherCancel _ | .reconfig _ => .isTrue trivial

namespace World
variable {initial : String} {w w' : World}
variable {p : PendingRequest} {inp : PassInput}

theorem destroyAnswered_of_action {id : String}
    (t : Tracked initial w.job.view w.gahp.pending w.history) (state : w.job.gmState = .stopped)
    (known : w.job.instanceId = some id) (pending : w.gahp.pending = some p)
    (command : p.command = .vmAction) :
    DestroyAnswered id (.answered .vmAction p.args :: w.history) := by
  obtain ⟨a, asks, args⟩ :=
    t.action p pending command (Option.ne_none_iff_exists'.mpr ⟨id, known⟩)
  rw [show w.job.view.gmState = .stopped from state] at asks
  cases asks
  have args : p.args = [gahpArg w.job.serviceUrl, gahpArg w.job.username,
    gahpArg w.job.password, gahpArg w.job.instanceId, "destroy"] := args
  rw [args, known]
  exact ⟨_, _, _, List.mem_cons_self⟩

variable {w₁ : World}

theorem Back.history_kept (initial : String) (back : Back w inp p w₁) :
    (Remembered initial w.history → Remembered initial w₁.history) ∧
      lastReported initial w₁.history = lastReported initial w.history := by
  rcases back.history with answered | ⟨late, -⟩
  · rw [answered]
    exact ⟨id, rfl⟩
  · rw [late]
    exact ⟨id, rfl⟩

theorem Back.informed (back : Back w inp p w₁)
    (t : Tracked initial w.job.view w.gahp.pending w.history)
    (remembered : Remembered initial w.history) (known : Prop)
    (kept : known → w.job.view.instanceId ≠ none) : Informed initial known w₁ where
  synced := back.view ▸ t.synced
  reported := by
    rw [back.view, (back.history_kept initial).2]
    exact t.reported
  remembered := (back.history_kept initial).1 remembered
  free := back.free
  kept := by
    rw [back.view]
    exact kept

theorem PassCase.inv (case : PassCase w inp w') (h : w.Inv initial) (running : w.excepted = none)
    (careful : w.CarefulPass inp) : w'.Inv initial := by
  obtain ⟨kept, unnamed, waits⟩ := careful
  have tracked : w.job.gmState.leaving = false →
      Tracked initial w.job.view w.gahp.pending w.history :=
    fun stays => h.tracked (live_iff.mpr ⟨running, stays⟩)
  induction case with
  | @steps next u w' edge view named aside settled =>
    have state : w'.job.gmState = next := congrArg InstanceView.gmState view
    refine ⟨aside.history ▸ h.remembered, fun live => ?_⟩
    have stays : next.leaving = false := state ▸ (live_iff.mp live).2
    rw [view, aside.gahp, aside.history]
    rcases edge with rfl | goes
    · have t := tracked stays
      exact t.advance named id id id t.action rfl
    · obtain ⟨quiet, early, owned, fresh, leaves⟩ := GMState.goes_kind goes
      have t := tracked (Bool.eq_false_iff.mpr fun gone => by
        cases stays.symm.trans (leaves gone))
      refine t.advance named early owned fresh (fun p pending command known => ?_) rfl
      obtain ⟨a, asks, -⟩ := t.action p pending command known
      cases quiet.symm.trans asks
  | checks state unknown named view aside =>
    have t := tracked (by rw [state]; rfl)
    refine ⟨aside.history ▸ h.remembered, fun _ => ?_⟩
    have fresh := t.fresh (congrArg GMState.fresh state) unknown named
    rw [view, aside.gahp, aside.history]
    exact ⟨t.synced, t.reported, fun _ => ⟨unknown, fresh⟩, nofun, nofun,
      fun _ _ _ known => absurd unknown known⟩
  | restored state known view aside =>
    have t := tracked (by rw [state]; rfl)
    refine ⟨aside.history ▸ h.remembered, fun _ => ?_⟩
    rw [view, aside.gahp, aside.history]
    refine ⟨t.synced, t.reported, nofun, nofun, fun _ => known, fun p pending command _ => ?_⟩
    obtain ⟨a, asks, -⟩ := t.action p pending command known
    cases (congrArg GMState.action state).symm.trans asks
  | @clears next w' edge state unknown synced blank gahp history excepted settled gone careless =>
    obtain ⟨early, fresh, owned, stays⟩ := GMState.clears_kind edge
    have t := tracked stays
    refine ⟨?_, fun _ => .forgotten (synced t.synced) unknown (fun here => ?_) (state ▸ fresh)
      (state ▸ owned)⟩
    · rw [history]
      refine remembered_cleared h.remembered fun id known => .inl ?_
      have known : w.job.instanceId ≠ none := Option.ne_none_iff_exists'.mpr ⟨id, known⟩
      refine t.reported known (not_not.mp fun unfinished => ?_)
      exact (careless known unfinished).elim kept unnamed
    · rw [blank (early (state ▸ here))]
      decide
  | issued p asks unanswered free mode view status pending history excepted =>
    have t := tracked (GMState.leaving_of_asks asks.state)
    refine ⟨by rw [history]; exact h.remembered, fun _ => ?_⟩
    rw [view, pending, history]
    refine t.advance (fun _ => rfl) id id id (fun q same command _ => ?_) rfl
    cases same
    exact asks.action command
  | returned next back edge view aside =>
    have t := tracked (GMState.leaving_of_asks back.asks)
    obtain ⟨remembered, same⟩ := back.history_kept initial
    refine ⟨aside.history ▸ remembered h.remembered, fun _ => ?_⟩
    rw [view, aside.gahp, aside.history, back.free]
    rcases edge with rfl | returns
    · exact t.advance (fun _ => rfl) id id id nofun same
    · obtain ⟨early, owned, fresh⟩ := GMState.returns_kind returns
      exact t.advance (fun _ => rfl) early owned fresh nofun same
  | found id back state view gahp history excepted result read =>
    have t := tracked (by rw [state]; rfl)
    have unaware := t.early (congrArg GMState.early state)
    obtain ⟨remembered, same⟩ := back.history_kept initial
    refine ⟨history ▸ remembered_created _ id (remembered h.remembered), fun _ => ?_⟩
    rw [view, gahp, back.free]
    exact ⟨t.synced, fun _ finished => absurd finished unaware.2, nofun, nofun, fun _ => nofun,
      nofun⟩
  | @created p w₁ attrs argv back state result read =>
    have t := tracked (by rw [state]; rfl)
    have unaware := t.early (congrArg GMState.early state)
    have informed := back.informed t h.remembered False nofun
    exact instanceCreated_inv attrs inp.time (informed.congr rfl rfl rfl)
      fun _ => back.view ▸ unaware.2
  | @probed p w₁ attrs back state =>
    have t := tracked (by rw [state]; rfl)
    have known := t.owned (congrArg GMState.owned state)
    have read := (back.informed t h.remembered True fun _ => known).read
      (fun unknown => absurd (back.view ▸ unknown) known) attrs inp.time
    exact read.goto .submitted rfl rfl fun _ => read.kept trivial
  | @destroyed p w₁ back state unfinished =>
    have t := tracked (by rw [state]; rfl)
    have command : p.command = .vmAction :=
      Option.some.inj (back.asks.symm.trans (congrArg GMState.asks state))
    refine destroyed_inv inp.time ((back.history_kept initial).1 h.remembered)
        (back.view ▸ t.synced)
      fun id known => ?_
    have known : w.job.instanceId = some id :=
      (congrArg InstanceView.instanceId back.view).symm.trans known
    rcases back.history with answered | ⟨-, late⟩
    · rw [answered, command]
      exact destroyAnswered_of_action t state known back.pending command
    · exact absurd ⟨state, Option.ne_none_iff_exists'.mpr ⟨id, known⟩, unfinished, p,
        back.pending,
        command, late⟩ waits
  | aborts message reason before ih => exact .of_excepted ih.remembered message

theorem Inv.withGahp (h : w.Inv initial) {f : GahpClient → GahpClient}
    (same : ∀ q, (f w.gahp).pending = some q →
      ∃ p, w.gahp.pending = some p ∧ q.command = p.command ∧ q.args = p.args) :
    (w.withGahp f).Inv initial := by
  refine ⟨h.remembered, fun live => ?_⟩
  have t := h.tracked live
  refine ⟨t.synced, t.reported, t.early, t.fresh, t.owned, ?_⟩
  intro q pending command known
  obtain ⟨p, before, name, args⟩ := same q pending
  rw [args]
  exact t.action p before (name ▸ command) known

theorem Inv.report (h : w.Inv initial) (known : w.job.instanceId ≠ none) (status : String)
    (time : Int) : (w.report status time).Inv initial := by
  have state : (w.job.statusUpdate (some status) time).gmState = w.job.gmState :=
    DCloudJob.statusUpdate_member w.job time (some status) DCloudJob.gmState (fun _ => rfl)
      fun _ _ _ => rfl
  refine ⟨h.remembered, fun live => ?_⟩
  have t := h.tracked ⟨live.1, state ▸ live.2.1, state ▸ live.2.2⟩
  change Tracked initial (w.job.statusUpdate (some status) time).view w.gahp.pending
    (.reported status :: w.history)
  rw [DCloudJob.view_statusUpdate w.job status time t.synced]
  refine ⟨rfl, fun _ finished => finished, ?_, fun _ unknown => absurd unknown known, t.owned,
    t.action⟩
  intro early
  exact absurd (t.early early).1 known

theorem EnvironmentCase.inv {input : Input} (case : EnvironmentCase w input w')
    (h : w.Inv initial) : w'.Inv initial := by
  cases case with
  | aside view aside settled =>
    exact h.congr view (congrArg GahpClient.pending aside.gahp) aside.history aside.excepted
  | replied argv =>
    refine h.withGahp fun q pending => ?_
    obtain ⟨p, before, command, args, -⟩ := pending_stash pending
    exact ⟨p, before, command, args⟩
  | sent time =>
    refine h.withGahp fun q pending => ?_
    obtain ⟨p, before, command, args, -⟩ := pending_sendWaiting pending
    exact ⟨p, before, command, args⟩
  | reported status time known same => exact h.report known status time

end World

theorem System.step_inv {initial : String} {s t : System} {input : Input}
    (h : s.world.Inv initial) (careful : Careful s input) (taken : s.step input = some t) :
    t.world.Inv initial := by
  obtain ⟨-, running, case⟩ := step_case taken
  cases case with
  | enters now => exact h.congr rfl rfl rfl rfl
  | turns now inp evaluating => exact (s.world.pass_case now inp).inv h running careful
  | outside deleted case => exact case.inv h

namespace World

/-- A job restored from its ad starts in the invariant, unless the ad holds a name
without an id and the status FINISH. -/
theorem construct_inv (self : JobRef) (ad : JobAd) (resubmit gahpDefined : Bool) (time : Int)
    (resource : BaseResource) (table : Utils.HashTable String JobRef) (w : World)
    (constructed : w = construct self ad resubmit gahpDefined time resource table)
    (consistent : w.job.instanceId = none → unnamed w.job = false →
      w.job.remoteJobState ≠ vmFinish) : w.Inv w.job.remoteJobState := by
  have history : w.history = [] :=
    constructed ▸ construct_history self ad resubmit gahpDefined time resource table
  have remembered : Remembered w.job.remoteJobState w.history := by
    rw [history]
    trivial
  obtain ⟨free, hold | ⟨starting, synced⟩⟩ :=
    construct_cases self ad resubmit gahpDefined time resource table
  · exact .of_leaving remembered (by rw [constructed, hold]; rfl)
  · rw [← constructed] at free starting synced
    have view : w.job.view.gmState = .init := starting
    refine ⟨remembered, fun _ => ⟨synced.symm, ?_, ?_, fun _ => consistent, ?_, ?_⟩⟩
    · rw [history]
      exact fun _ finished => finished
    · rw [view]
      nofun
    · rw [view]
      nofun
    · rw [free]
      nofun

end World

/-- No instance is forgotten in a run whose passes are all careful. -/
theorem careful_runs_remember (self : JobRef) (ad : JobAd) (resubmit gahpDefined : Bool)
    (time : Int) (resource : BaseResource) (table : Utils.HashTable String JobRef) (w : World)
    (constructed : w = World.construct self ad resubmit gahpDefined time resource table)
    (consistent : w.job.instanceId = none → World.unnamed w.job = false →
      w.job.remoteJobState ≠ vmFinish)
    {inputs : List Input} {t : System}
    (run : Run (Guarded (Takes System.step) Careful) (System.initial w) inputs t) :
    Remembered w.job.remoteJobState t.world.history := by
  have start : (System.initial w).world.Inv w.job.remoteJobState :=
    World.construct_inv self ad resubmit gahpDefined time resource table w constructed consistent
  have ended : t.world.Inv w.job.remoteJobState :=
    run.invariant (I := fun s => s.world.Inv w.job.remoteJobState) start
      fun _ _ _ inv taken => System.step_inv inv taken.1 taken.2
  exact ended.remembered

def runningAd : JobAd where
  value
    | .jobStatus => some (.status .running)
    | .gridResource => some (.string "deltacloud http://cloud")
    | .gridJobId => some (.string "deltacloud n1 i1")
    | .gridJobStatus => some (.string "RUNNING")
    | .deltacloudUsername => some (.string "user")
    | .deltacloudPasswordFile => some (.string "password")
    | .deltacloudImageId => some (.string "image")
    | _ => none
  dirty := []

def runningJob : World :=
  World.construct 1 runningAd false true 0 ⟨[], [], 10⟩ (.create (fun _ => 0) .rejectDuplicateKeys)

def plainPass (time : Int) (policy : PolicyAction) : PassInput :=
  ⟨time, true, false, true, policy, "", none, none⟩

def holdStopped : List Input :=
  [.resourceUp, .evaluate 1, .pass (plainPass 1 .removeFromQueue),
    .pass (plainPass 1 .removeFromQueue),
    .pass (plainPass 1 .removeFromQueue), .batchStatus [("i1", "STOPPED")] 2,
    .scheddStatus ⟨.held, fun _ => none, false⟩ 3, .evaluate 4,
      .pass (plainPass 4 .removeFromQueue),
    .pass (plainPass 4 .removeFromQueue)]

theorem holdStopped_history :
    (execute System.step (System.initial runningJob) holdStopped).map (·.world.history) =
      some [.cleared "i1", .reported "STOPPED"] := by
  decide +kernel

/-- The id of a stopped instance is cleared and nobody asked for its destruction. -/
theorem held_job_forgets_stopped_instance :
    ∃ t, System.Runs (System.initial runningJob) holdStopped t ∧
      ¬Remembered runningJob.job.remoteJobState t.world.history := by
  obtain ⟨t, ended, history⟩ := Option.map_eq_some_iff.mp holdStopped_history
  refine ⟨t, .of_execute ended, ?_⟩
  have past : t.world.history = [.cleared "i1", .reported "STOPPED"] := history
  rw [past]
  rintro ⟨finished | ⟨url, user, password, answered⟩, -⟩
  · exact absurd finished (by decide)
  · simp at answered

def removeRunning : List Input :=
  [.resourceUp, .evaluate 1, .pass (plainPass 1 .removeFromQueue),
    .pass (plainPass 1 .removeFromQueue),
    .pass (plainPass 1 .removeFromQueue), .scheddStatus ⟨.removed, fun _ => none, false⟩ 2,
      .evaluate 3,
    .pass (plainPass 3 .removeFromQueue), .pass (plainPass 3 .removeFromQueue),
    .gahpReply ["1", nullString], .evaluate 4, .pass (plainPass 4 .removeFromQueue),
    .pass (plainPass 4 .removeFromQueue), .gahpReply ["2", nullString], .evaluate 5,
    .pass (plainPass 5 .removeFromQueue)]

theorem removeRunning_cleared :
    (execute (guardedStep System.step Careful) (System.initial runningJob) removeRunning).map
      (fun t => decide (.cleared "i1" ∈ t.world.history)) = some true := by
  decide +kernel

theorem careful_runs_remember_removed :
    ∃ t, Run (Guarded (Takes System.step) Careful) (System.initial runningJob) removeRunning t ∧
      .cleared "i1" ∈ t.world.history ∧
      Remembered runningJob.job.remoteJobState t.world.history := by
  obtain ⟨t, ended, cleared⟩ := Option.map_eq_some_iff.mp removeRunning_cleared
  have run : Run (Guarded (Takes System.step) Careful)
      (System.initial runningJob) removeRunning t :=
    .of_execute_guarded ended
  refine ⟨t, run, of_decide_eq_true cleared, ?_⟩
  exact careful_runs_remember 1 runningAd false true 0 ⟨[], [], 10⟩
    (.create (fun _ => 0) .rejectDuplicateKeys) runningJob rfl (by decide) run

end Condor.GridManager
