import Condor.GridManager.JobFrame

/-! One inversion for all calls: which request a call finds, what it returns and what it leaves
behind. -/
namespace Condor.GridManager

def GahpClient.Free (g : GahpClient) (command : Command) : Prop :=
  ∀ p, g.pending = some p → p.command ≠ command

/-- What a call returns: the codes of a reply, of a time-out, and of no result yet. -/
inductive Finished {α : Type} (w : World) (inp : PassInput) (command : Command)
    (args : List String) (read : List String → CallResult α × Option String) :
    CallResult α → World → Prop
  | replied (p : PendingRequest) (argv : List String) (w' : World)
      (pending : w.gahp.pending = some p) (name : p.command = command)
      (result : p.result = some argv)
      (job : w'.job = w.job) (resource : w'.resource = w.resource)
      (free : w'.gahp.pending = none) (mode : w'.gahp.mode = w.gahp.mode)
      (history : w'.history = .answered command p.args :: w.history)
      (excepted : w'.excepted = w.excepted) :
      Finished w inp command args read (read argv).1 w'
  | timedOut (p : PendingRequest) (w' : World)
      (pending : w.gahp.pending = some p) (name : p.command = command)
      (late : GahpClient.pendingTimedOut p inp.time = true)
      (job : w'.job = w.job) (resource : w'.resource = w.resource)
      (free : w'.gahp.pending = none) (mode : w'.gahp.mode = w.gahp.mode)
      (history : w'.history = .timedOut command p.args :: w.history)
      (excepted : w'.excepted = w.excepted) : Finished w inp command args read .timedOut w'
  | waiting (p : PendingRequest)
      (pending : w.gahp.pending = some p) (name : p.command = command) :
      Finished w inp command args read .pending w
  | issued (w' : World)
      (free : w.gahp.Free command) (mode : w.gahp.mode = .normal)
      (job : w'.job = w.job) (resource : w'.resource = w.resource)
      (gahp : w'.gahp = w.gahp.nowPending command args inp.serverFull inp.time)
      (history : w'.history = .issued command args w.job.condorState :: w.history) :
      Finished w inp command args read .pending w'
  | notSubmitted (free : w.gahp.Free command) (mode : w.gahp.mode = .resultsOnly) :
      Finished w inp command args read .notSubmitted w

variable {α : Type}

theorem Finished.job {w w' : World} {inp : PassInput} {command : Command} {args : List String}
    {read : List String → CallResult α × Option String} {rc : CallResult α}
    (fin : Finished w inp command args read rc w') : w'.job = w.job := by
  cases fin with
  | replied p argv _ pending name result job resource free mode history excepted => exact job
  | timedOut p _ pending name late job resource free mode history excepted => exact job
  | waiting p pending name => rfl
  | issued _ free mode job resource gahp history => exact job
  | notSubmitted free mode => rfl

variable (w : World)

theorem World.noteError_kept (message : Option String) :
    (w.noteError message).job = w.job ∧ (w.noteError message).resource = w.resource ∧
      (w.noteError message).gahp.pending = w.gahp.pending ∧
      (w.noteError message).gahp.mode = w.gahp.mode ∧
      (w.noteError message).history = w.history ∧
      (w.noteError message).excepted = w.excepted := by
  cases message <;> exact ⟨rfl, rfl, rfl, rfl, rfl, rfl⟩

/-- A call for which no request is pending is issued, or refused in `results_only` mode. -/
theorem World.finishCall_free (inp : PassInput) (command : Command) (args : List String)
    (timeoutText : String) (read : List String → CallResult α × Option String)
    (free : w.gahp.Free command) :
    Finished w inp command args read
      (World.finishCall timeoutText read (w.gahpCall inp command args)).1
      (World.finishCall timeoutText read (w.gahpCall inp command args)).2 := by
  have poll : w.gahp.call command args inp.serverFull inp.time =
      if w.gahp.mode = .resultsOnly then (.notSubmitted, false, w.gahp)
      else (.waiting, true, w.gahp.nowPending command args inp.serverFull inp.time) := by
    unfold GahpClient.call
    cases pending : w.gahp.pending with
    | none => rfl
    | some p => simp only [free p pending, if_false]
  unfold gahpCall
  rw [poll]
  cases mode : w.gahp.mode with
  | resultsOnly => exact .notSubmitted free mode
  | normal =>
    simp only [reduceCtorEq, if_false, if_true]
    split
    · exact .issued _ free mode rfl rfl rfl rfl
    · exact .issued _ free mode rfl rfl rfl rfl

theorem World.finishCall_finished (inp : PassInput) (command : Command) (args : List String)
    (timeoutText : String) (read : List String → CallResult α × Option String) :
    Finished w inp command args read
      (World.finishCall timeoutText read (w.gahpCall inp command args)).1
      (World.finishCall timeoutText read (w.gahpCall inp command args)).2 := by
  by_cases free : w.gahp.Free command
  · exact w.finishCall_free inp command args timeoutText read free
  · unfold GahpClient.Free at free
    push Not at free
    obtain ⟨p, pending, name⟩ := free
    unfold gahpCall GahpClient.call
    simp only [pending, name, if_true]
    cases result : p.result with
    | some argv =>
      have kept := World.noteError_kept
        (({ w with gahp := w.gahp.clearPending } : World).record (.answered command p.args))
        (read argv).2
      exact .replied p argv _ pending name result kept.1 kept.2.1 kept.2.2.1 kept.2.2.2.1
        kept.2.2.2.2.1 kept.2.2.2.2.2
    | none =>
      by_cases late : GahpClient.pendingTimedOut p inp.time = true
      · simp only [late, if_true]
        exact .timedOut p _ pending name late rfl rfl rfl rfl rfl rfl
      · simp only [late]
        exact .waiting p pending name

end Condor.GridManager
