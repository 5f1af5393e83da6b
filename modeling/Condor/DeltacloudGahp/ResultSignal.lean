import Condor.Lib.Run

/-! `worker_function` and `handle_command_results` interleave by critical sections: a worker pushes
and signals its result in one, a RESULTS command drains the list in one and clears the flag in
another. -/
namespace Condor.DeltacloudGahp
open Condor.Lib

inductive Printed where
  /-- `S <n>` and the results. -/
  | results (outputs : List String)
  /-- `R`. -/
  | signal
  | output (text : String)
  /-- The answer to `ASYNC_MODE_ON` and `ASYNC_MODE_OFF`. -/
  | success
  deriving DecidableEq, Repr

/-- Whether an `R` comes before any results, the latest first. -/
def signalSinceDrain : List Printed → Bool
  | [] => false
  | .signal :: _ => true
  | .results _ :: _ => false
  | .output _ :: older => signalSinceDrain older
  | .success :: older => signalSinceDrain older

structure Gahp where
  asyncMode : Bool
  asyncResultsSignalled : Bool
  resultsList : List String
  clearing : Bool
  stdout : List Printed
  deriving DecidableEq, Repr

inductive Section where
  | worker (outputString : String)
  | drain
  | clear
  | asyncOn
  | asyncOff
  deriving DecidableEq, Repr

namespace Gahp

def initial : Gahp := ⟨false, false, [], false, []⟩

def print (g : Gahp) (p : Printed) : Gahp := { g with stdout := p :: g.stdout }

def worker (g : Gahp) (outputString : String) : Gahp :=
  if g.asyncMode then
    let g := { g with resultsList := g.resultsList ++ [outputString] }
    if g.asyncResultsSignalled then g else { g.print .signal with asyncResultsSignalled := true }
  else g.print (.output outputString)

def step (g : Gahp) : Section → Option Gahp
  | .worker outputString => some (g.worker outputString)
  | .drain =>
    if g.clearing then none
    else some { g.print (.results g.resultsList) with resultsList := [], clearing := true }
  | .clear =>
    if g.clearing then some { g with asyncResultsSignalled := false, clearing := false } else none
  | .asyncOn =>
    if g.clearing then none
    else some { g.print .success with asyncMode := true, asyncResultsSignalled := false }
  | .asyncOff => if g.clearing then none else some { g.print .success with asyncMode := false }

abbrev Runs : Gahp → List Section → Gahp → Prop := Run (Takes step)

/-- An `R` has been printed since the list was last drained. -/
def announced (g : Gahp) : Bool := signalSinceDrain g.stdout

/-- Results that wait have been announced, unless a RESULTS command is halfway. -/
def Heard (g : Gahp) : Prop := g.resultsList ≠ [] → g.clearing = false → g.announced = true

instance (g : Gahp) : Decidable g.Heard := inferInstanceAs (Decidable (_ → _))

/-- The flag is still set from before the list was drained. -/
def stale (g : Gahp) : Bool := g.clearing && g.asyncMode && g.asyncResultsSignalled && !g.announced

/-- No worker ends while the flag is stale. -/
def Prompt (g : Gahp) : Section → Prop
  | .worker _ => g.stale = false
  | _ => True

instance (g : Gahp) (s : Section) : Decidable (g.Prompt s) := by
  unfold Prompt
  split <;> infer_instance

/-- Waiting results have been announced, and so has a flag that is set and not stale. -/
structure Inv (g : Gahp) : Prop where
  waiting : g.resultsList ≠ [] → g.announced = true
  signalled : g.asyncResultsSignalled = true → g.clearing = false → g.announced = true

variable {g : Gahp}

theorem Inv.heard (inv : Inv g) : g.Heard := fun waits _ => inv.waiting waits

variable {outputString : String} {g' : Gahp}

theorem Inv.worker (inv : Inv g) (prompt : g.Prompt (.worker outputString)) :
    Inv (g.worker outputString) := by
  rw [Gahp.worker]
  split
  · next async =>
      dsimp only
      split
      · next signalled =>
          -- no new signal: the flag has to stand for one since the last drain
          have announced : g.announced = true := by
            by_cases clearing : g.clearing = true
            · simpa [Prompt, stale, clearing, async, signalled] using prompt
            · exact inv.signalled signalled (eq_false_of_ne_true clearing)
          exact ⟨fun _ => announced, fun _ _ => announced⟩
      · exact ⟨fun _ => rfl, fun _ _ => rfl⟩
  · exact ⟨inv.waiting, inv.signalled⟩

theorem Inv.step {s : Section} (inv : Inv g) (prompt : g.Prompt s) (h : g.step s = some g') :
    Inv g' := by
  cases s with
  | worker outputString =>
    cases h
    exact inv.worker prompt
  | drain =>
    rw [Gahp.step] at h
    split at h
    · cases h
    · cases h
      exact ⟨fun waits => absurd rfl waits, fun _ idle => Bool.noConfusion idle⟩
  | clear =>
    rw [Gahp.step] at h
    split at h
    · cases h
      exact ⟨inv.waiting, fun signalled => Bool.noConfusion signalled⟩
    · cases h
  | asyncOn =>
    rw [Gahp.step] at h
    split at h
    · cases h
    · cases h
      exact ⟨inv.waiting, fun signalled => Bool.noConfusion signalled⟩
  | asyncOff =>
    rw [Gahp.step] at h
    split at h
    · cases h
    · cases h
      exact ⟨inv.waiting, inv.signalled⟩

/-- A result pushed while the flag is stale is still unannounced when the RESULTS
command is over. -/
theorem stale_result_unheard (stale : g.stale = true)
    (h : (g.worker outputString).step .clear = some g') : ¬ g'.Heard := by
  simp only [Gahp.stale, Bool.and_eq_true, Bool.not_eq_true'] at stale
  obtain ⟨⟨⟨clearing, async⟩, signalled⟩, silent⟩ := stale
  simp only [Gahp.worker, async, signalled, if_true, Gahp.step, clearing, Option.some.injEq] at h
  subst h
  intro heard
  have announced := heard (by simp) rfl
  exact Bool.noConfusion (announced.symm.trans silent)

/-- In every interleaving without such a worker, waiting results have been announced. -/
theorem prompt_workers_heard {g : Gahp} {sections : List Section}
    (run : Run (Guarded (Takes Gahp.step) Prompt) initial sections g) : g.Heard := by
  have start : Inv initial :=
      ⟨fun waits => absurd rfl waits, fun signalled => Bool.noConfusion signalled⟩
  have inv := run.invariant start fun _ _ _ inv taken => inv.step taken.1 taken.2
  exact inv.heard

theorem prompt_workers_heard_twice :
    ∃ g, Run (Guarded (Takes Gahp.step) Prompt) initial
      [.asyncOn, .worker "1 NULL", .drain, .clear, .worker "2 NULL"] g ∧
      g.resultsList = ["2 NULL"] ∧ g.clearing = false ∧ g.announced = true := by
  have ran : (execute (guardedStep Gahp.step Prompt) initial
      [.asyncOn, .worker "1 NULL", .drain, .clear, .worker "2 NULL"]).map
        (fun g => (g.resultsList, g.clearing)) = some (["2 NULL"], false) := by
    decide +kernel
  obtain ⟨g, ended, found⟩ := Option.map_eq_some_iff.mp ran
  obtain ⟨waiting, idle⟩ := Prod.mk.inj found
  have run := Run.of_execute_guarded ended
  refine ⟨g, run, waiting, idle, ?_⟩
  exact prompt_workers_heard run (by simp [waiting]) idle

/-- The second worker ends between the two steps of the RESULTS command. -/
theorem late_worker_unheard :
    ∃ g, Runs initial [.asyncOn, .worker "1 NULL", .drain, .worker "2 NULL", .clear] g ∧
      ¬ g.Heard := by
  have ran : (execute Gahp.step initial
      [.asyncOn, .worker "1 NULL", .drain, .worker "2 NULL", .clear]).map
        (fun g => decide g.Heard) = some false := by
    decide +kernel
  obtain ⟨g, ended, unheard⟩ := Option.map_eq_some_iff.mp ran
  exact ⟨g, .of_execute ended, of_decide_eq_false unheard⟩

/-- The results on `stdout`. -/
def delivered : List Printed → List String
  | [] => []
  | .results outputs :: older => delivered older ++ outputs
  | .output text :: older => delivered older ++ [text]
  | _ :: older => delivered older

def ended : List Section → List String :=
  List.filterMap fun | .worker outputString => some outputString | _ => none

theorem delivered_step {s : Section} (h : g.step s = some g') :
    (delivered g'.stdout ++ g'.resultsList).Perm
      (delivered g.stdout ++ g.resultsList ++ ended [s]) := by
  cases s with
  | worker outputString =>
    cases h
    rw [Gahp.worker]
    split
    · dsimp only
      split <;> simp [print, delivered, ended]
    · -- a result that is printed at once overtakes those that wait
      simp only [print, delivered, List.append_assoc]
      exact List.perm_append_comm.append_left _
  | drain | clear | asyncOn | asyncOff =>
    rw [Gahp.step] at h
    split at h <;> cases h
    simp [print, delivered, ended]

/-- In every interleaving each result is printed or waits, exactly once. -/
theorem results_delivered_once {sections : List Section} (run : Runs g sections g') :
    (delivered g'.stdout ++ g'.resultsList).Perm
      (delivered g.stdout ++ g.resultsList ++ ended sections) := by
  induction run with
  | nil g => simp [ended]
  | @cons _ _ _ s sections taken _ ih =>
    have parts : ended (s :: sections) = ended [s] ++ ended sections := by
      rw [ended, ← List.filterMap_append, List.singleton_append]
    rw [parts, ← List.append_assoc]
    exact ih.trans ((delivered_step taken).append_right _)

theorem results_delivered_once_late :
    ∃ g, Runs initial [.asyncOn, .worker "1", .drain, .worker "2", .clear] g ∧
      (delivered g.stdout ++ g.resultsList).Perm ["1", "2"] := by
  obtain ⟨g, run⟩ : ∃ g, Runs initial [.asyncOn, .worker "1", .drain, .worker "2", .clear] g :=
    ⟨_, .of_execute rfl⟩
  exact ⟨g, run, results_delivered_once run⟩

end Gahp
end Condor.DeltacloudGahp
