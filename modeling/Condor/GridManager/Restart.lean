import Condor.DeltacloudGahp.FindWorker
import Condor.GridManager.LateSubmit

/-! A restart before the id of a new instance is saved finds its name only. `GM_CHECK_VM` passes
`m_instanceId` to `dcloud_find`, which is NULL, and the GAHP server refuses the request. Until its
first submit request the job has no id, and no find request of it can succeed. -/
namespace Condor.GridManager
open Condor.Lib DeltacloudGahp

/-- The replies to find requests are those of the GAHP server. -/
def Answered (lib : Library) (s : System) : Input → Prop
  | .gahpReply argv => ∀ p ∈ s.world.gahp.pending, p.command = .vmFind →
      ∃ reqId : Nat, argv = readArgv [] [] false (findWorker lib (toString reqId :: p.args))
  | _ => True

/-- Some run of the restarted job finds the instance without asking for a new one. -/
def Recovers (lib : Library) (w : World) (id : String) : Prop :=
  ∃ inputs t, Run (Guarded (Takes System.step) (Answered lib)) (System.initial w) inputs t ∧
    t.world.job.gmState = .saveInstanceId ∧ t.world.job.instanceId = some id ∧
    submits t.world.history = []

/-- The states of a job that has not asked for an instance. -/
def GMState.beforeSubmit : GMState → Bool
  | .init | .start | .checkVm | .clearRequest | .unsubmitted | .saveInstanceName | .createVm
  | .stopped | .hold | .delete => true
  | _ => false

/-- A pending request that cannot bring an instance. -/
structure Fruitless (p : PendingRequest) : Prop where
  command : p.command ≠ .vmSubmit
  args : p.command = .vmFind → ∃ url user password, p.args = [url, user, password, nullString]
  result : p.command = .vmFind → ∀ argv, p.result = some argv → (readFindReply argv).1 = .failed

structure World.Waiting (w : World) : Prop where
  state : w.job.gmState.beforeSubmit = true
  unknown : w.job.instanceId = none
  pending : ∀ p, w.gahp.pending = some p → Fruitless p

variable {state next : GMState}

theorem GMState.beforeSubmit_goes (before : state.beforeSubmit = true)
    (edge : state.goes next = true) : next.beforeSubmit = true := by
  unfold goes at edge
  split at edge <;> first | rfl | cases before | cases edge

theorem GMState.beforeSubmit_clears (edge : state.clears next = true) :
    next.beforeSubmit = true := by
  unfold clears at edge
  split at edge <;> first | rfl | cases edge

theorem GMState.beforeSubmit_returns (before : state.beforeSubmit = true)
    (edge : state.returns next = true) : next.beforeSubmit = true := by
  unfold returns at edge
  split at edge <;> first | rfl | cases before | cases edge

namespace World
variable {w w' : World}

theorem Waiting.congr (h : w.Waiting) (view : w'.job.view = w.job.view)
    (pending : w'.gahp.pending = w.gahp.pending) : w'.Waiting where
  state := (congrArg (GMState.beforeSubmit ∘ InstanceView.gmState) view).trans h.state
  unknown := (congrArg InstanceView.instanceId view).trans h.unknown
  pending := fun p here => h.pending p (pending ▸ here)

variable {inp : PassInput} {p : PendingRequest} {lib : Library}

theorem Back.waiting {w₁ : World} (back : Back w inp p w₁) (gahp : w'.gahp = w₁.gahp)
    (state : w'.job.view.gmState.beforeSubmit = true) (unknown : w'.job.view.instanceId = none) :
    w'.Waiting :=
  ⟨state, unknown, fun q here => by
    cases (gahp ▸ back.free : w'.gahp.pending = none).symm.trans here⟩

theorem PassCase.waiting (case : PassCase w inp w') (h : w.Waiting) :
    w'.Waiting ∨ GridManager.submits w'.history ≠ [] := by
  induction case with
  | @steps next unnamed w' edge view named aside settled =>
    have state : w'.job.gmState = next := congrArg InstanceView.gmState view
    refine .inl ⟨?_, (congrArg InstanceView.instanceId view).trans h.unknown,
      fun p pending => h.pending p (aside.gahp ▸ pending)⟩
    rw [state]
    rcases edge with rfl | goes
    · exact h.state
    · exact GMState.beforeSubmit_goes h.state goes
  | checks state unknown named view aside =>
    exact .inl ⟨congrArg (GMState.beforeSubmit ∘ InstanceView.gmState) view,
      (congrArg InstanceView.instanceId view).trans unknown,
      fun p pending => h.pending p (aside.gahp ▸ pending)⟩
  | restored state known view aside => exact absurd h.unknown known
  | clears next edge state unknown synced blank gahp history excepted settled gone careless =>
    exact .inl ⟨(congrArg GMState.beforeSubmit state).trans (GMState.beforeSubmit_clears edge),
      unknown, fun p pending => h.pending p (gahp ▸ pending)⟩
  | issued p asks unanswered free mode view status pending history excepted =>
    by_cases submit : p.command = .vmSubmit
    · rw [history, submit]
      exact .inr nofun
    · refine .inl ⟨(congrArg (GMState.beforeSubmit ∘ InstanceView.gmState) view).trans h.state,
        (congrArg InstanceView.instanceId view).trans h.unknown, fun q here => ?_⟩
      cases pending.symm.trans here
      refine ⟨submit, fun find => ?_, fun _ argv known => ?_⟩
      · rw [asks.find find, show w.job.view.instanceId = none from h.unknown]
        exact ⟨_, _, _, rfl⟩
      · cases unanswered.symm.trans known
  | returned next back edge view aside =>
    refine .inl (back.waiting aside.gahp ?_
        ((congrArg InstanceView.instanceId view).trans h.unknown))
    rw [view]
    rcases edge with rfl | returns
    · exact h.state
    · exact GMState.beforeSubmit_returns h.state returns
  | @found p w₁ id w' back state view gahp history excepted argv result read =>
    have find : p.command = .vmFind :=
      Option.some.inj (back.asks.symm.trans (congrArg GMState.asks state))
    cases ((h.pending p back.pending).result find argv result).symm.trans read
  | @created p w₁ attrs argv back state result read =>
    have submit : p.command = .vmSubmit :=
      Option.some.inj (back.asks.symm.trans (congrArg GMState.asks state))
    exact absurd submit (h.pending p back.pending).command
  | probed attrs back state => cases (congrArg GMState.beforeSubmit state).symm.trans h.state
  | @destroyed p w₁ back state unfinished =>
    obtain ⟨gahp, -, -, next, edge, moved, unknown, -⟩ := destroyed_spec w₁ inp.time
    exact .inl (back.waiting gahp
      ((congrArg GMState.beforeSubmit moved).trans (GMState.beforeSubmit_clears edge)) unknown)
  | aborts message reason before ih => exact ih.imp_left fun waits => waits.congr rfl rfl

theorem Fruitless.answered (h : Fruitless p) {reqId : Nat} {argv : List String}
    (find : p.command = .vmFind)
    (reply : argv = readArgv [] [] false (findWorker lib (toString reqId :: p.args))) :
    (readFindReply argv).1 = .failed := by
  obtain ⟨url, user, password, args⟩ := h.args find
  obtain ⟨message, real, read⟩ := findWorker_null lib reqId url user password nullString (by decide)
  rw [reply, args, read]
  have real : message ≠ nullString := real
  simp only [readFindReply, real, if_false]

theorem EnvironmentCase.waiting {input : Input} {s : System}
    (case : EnvironmentCase s.world input w') (h : s.world.Waiting)
    (answered : Answered lib s input) : w'.Waiting := by
  cases case with
  | aside view aside settled => exact h.congr view (congrArg GahpClient.pending aside.gahp)
  | replied argv =>
    refine ⟨h.state, h.unknown, fun q here => ?_⟩
    obtain ⟨p, before, command, args, result⟩ := pending_stash here
    have fruitless := h.pending p before
    refine ⟨command ▸ fruitless.command, by rw [command, args]; exact fruitless.args,
      fun find read known => ?_⟩
    rw [command] at find
    rcases result with same | new
    · exact fruitless.result find read (same ▸ known)
    · cases new.symm.trans known
      obtain ⟨reqId, from_worker⟩ := answered p before find
      exact Fruitless.answered fruitless find from_worker
  | sent time =>
    refine ⟨h.state, h.unknown, fun q here => ?_⟩
    obtain ⟨p, before, command, args, result⟩ := pending_sendWaiting here
    have fruitless := h.pending p before
    exact ⟨command ▸ fruitless.command, by rw [command, args]; exact fruitless.args,
      by rw [command, result]; exact fruitless.result⟩
  | reported status time known same => exact absurd h.unknown known

end World

variable {lib : Library} {t : System}

/-- Until its first submit request the job waits. -/
theorem System.step_waiting {s : System} {input : Input}
    (h : submits s.world.history = [] → s.world.Waiting) (answered : Answered lib s input)
    (taken : s.step input = some t) : submits t.world.history = [] → t.world.Waiting := by
  intro none_yet
  obtain ⟨-, -, case⟩ := step_case taken
  cases case with
  | enters now => exact (h none_yet).congr rfl rfl
  | turns now inp evaluating =>
    have before : submits s.world.history = [] :=
      List.suffix_nil.mp (none_yet ▸ World.pass_submits now inp)
    exact ((s.world.pass_case now inp).waiting (h before)).resolve_right (not_not.mpr none_yet)
  | outside deleted case => exact case.waiting (h (case.submits.symm.trans none_yet)) answered

/-- A restarted job without an id does not get one before it asks for an instance. -/
theorem waits_for_request {self : JobRef} {ad : JobAd} {resubmit gahpDefined : Bool} {time : Int}
    {resource : BaseResource} {table : Utils.HashTable String JobRef} {w : World}
    (constructed : w = World.construct self ad resubmit gahpDefined time resource table)
    (nameOnly : w.job.instanceId = none) {inputs : List Input}
    (run : Run (Guarded (Takes System.step) (Answered lib)) (System.initial w) inputs t) :
    submits t.world.history = [] → t.world.Waiting := by
  obtain ⟨free, start⟩ := World.construct_cases self ad resubmit gahpDefined time resource table
  rw [← constructed] at free start
  have begins : w.Waiting := by
    refine ⟨?_, nameOnly, fun p here => by rw [free] at here; cases here⟩
    rcases start with hold | ⟨init, -⟩
    · rw [hold]
      rfl
    · rw [init]
      rfl
  exact run.invariant (I := fun s => submits s.world.history = [] → s.world.Waiting)
    (fun _ => begins) fun _ _ _ waits taken => System.step_waiting waits taken.1 taken.2

/-- No run of the restarted job finds the instance, whatever the cloud knows. -/
theorem restart_never_recovers (lib : Library) (self : JobRef) (ad : JobAd)
    (resubmit gahpDefined : Bool) (time : Int) (resource : BaseResource)
    (table : Utils.HashTable String JobRef) (w : World)
    (constructed : w = World.construct self ad resubmit gahpDefined time resource table)
    (nameOnly : w.job.instanceId = none) (id : String) : ¬Recovers lib w id := by
  rintro ⟨inputs, t, run, -, known, none_yet⟩
  rw [(waits_for_request constructed nameOnly run none_yet).unknown] at known
  cases known

def namedAd : JobAd where
  value
    | .gridJobId => some (.string "deltacloud Condor_NoPool_schedd#1.0")
    | a => newAd.value a
  dirty := []

def namedJob : World :=
  World.construct 1 namedAd false true 0 ⟨[], [], 10⟩ (.create (fun _ => 0) .rejectDuplicateKeys)

def namedCloud : Library where
  readPasswordFile path := some path
  deltacloudInitialize _ _ _ := none
  deltacloudGetInstanceById _ _ _ id :=
    if id = "Condor_NoPool_schedd#1.0" then .found "i1" else .notFound

def findReply (asked : String) : List String :=
  readArgv [] [] false (findWorker namedCloud ["1", "http://cloud", "user", "password", asked])

def findAgain : List Input :=
  [.resourceUp, .evaluate 1, openPass 1, openPass 1, openPass 1, .gahpReply (findReply nullString),
    .evaluate 2, openPass 2, openPass 2, openPass 2]

theorem findAgain_held :
    (execute System.step (System.initial namedJob) findAgain).map
      (fun t => (t.world.job.condorState, t.world.job.jobAd.stringOf .holdReason)) =
      some (.held, "Invalid_Id") := by
  decide +kernel

/-- The cloud would answer a find request for the name with `i1`. The job asks for NULL
instead and is put on hold. -/
theorem named_job_does_not_recover :
    findReply "Condor_NoPool_schedd#1.0" = ["1", nullString, "i1"] ∧
      namedJob.job.instanceName = some "Condor_NoPool_schedd#1.0" ∧
      ¬Recovers namedCloud namedJob "i1" ∧
      ∃ t, System.Runs (System.initial namedJob) findAgain t ∧ t.world.job.condorState = .held := by
  refine ⟨by decide +kernel, by decide +kernel, ?_, ?_⟩
  · rintro ⟨inputs, t, run, -, known, none_yet⟩
    have waits := waits_for_request (w := namedJob) rfl (by decide +kernel) run none_yet
    rw [waits.unknown] at known
    cases known
  · obtain ⟨t, ended, held⟩ := Option.map_eq_some_iff.mp findAgain_held
    exact ⟨t, .of_execute ended, congrArg Prod.fst held⟩

theorem restart_never_recovers_named :
    namedJob.job.instanceId = none ∧ ¬Recovers namedCloud namedJob "i1" :=
  ⟨by decide +kernel, restart_never_recovers namedCloud 1 namedAd false true 0 ⟨[], [], 10⟩
    (.create (fun _ => 0) .rejectDuplicateKeys) namedJob rfl (by decide +kernel) "i1"⟩

end Condor.GridManager
