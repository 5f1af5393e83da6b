import Mathlib.Data.List.Basic

/-! At most `jobLimit` jobs may have a submission in progress or an instance on the resource; the
others queue in `submitsWanted`. -/
namespace Condor.GridManager

/-- Jobs are named by the number of their object. -/
abbrev JobRef := Nat

structure BaseResource where
  submitsWanted : List JobRef
  submitsAllowed : List JobRef
  jobLimit : Nat
  deriving DecidableEq, Repr

namespace BaseResource

/-- `List::Delete`: the first occurrence goes; the return value says whether there was one. -/
def deleteJob (l : List JobRef) (job : JobRef) : Bool × List JobRef :=
  (decide (job ∈ l), l.erase job)

/-- `RequestSubmit`; `none` is the EXCEPT on a waiting job beside a free slot. -/
def requestSubmit (r : BaseResource) (job : JobRef) : Option (Bool × BaseResource) :=
  if job ∈ r.submitsWanted then some (false, r)
  else if job ∈ r.submitsAllowed then some (true, r)
  else if r.submitsAllowed.length < r.jobLimit ∧ 0 < r.submitsWanted.length then none
  else if r.submitsAllowed.length < r.jobLimit then
    some (true, { r with submitsAllowed := r.submitsAllowed ++ [job] })
  else some (false, { r with submitsWanted := r.submitsWanted ++ [job] })

/-- `CancelSubmit`: a freed slot goes to the head of the queue. The job woken by
`SetEvaluateState` is returned. -/
def cancelSubmit (r : BaseResource) (job : JobRef) : BaseResource × Option JobRef :=
  match deleteJob r.submitsAllowed job with
  | (true, allowed) =>
    match r.submitsWanted with
    | [] => ({ r with submitsAllowed := allowed }, none)
    | wanted :: rest =>
      if allowed.length < r.jobLimit then
        ({ r with submitsAllowed := allowed ++ [wanted], submitsWanted := rest }, some wanted)
      else ({ r with submitsAllowed := allowed }, none)
  | (false, _) => ({ r with submitsWanted := (deleteJob r.submitsWanted job).2 }, none)

def alreadySubmitted (r : BaseResource) (job : JobRef) : BaseResource :=
  { r with submitsAllowed := r.submitsAllowed ++ [job] }

def grants (r : BaseResource) (job : JobRef) : Bool :=
  match r.requestSubmit job with
  | some (true, _) => true
  | _ => false

variable {r : BaseResource} {job : JobRef}

theorem requestSubmit_again {r' : BaseResource} (h : r.requestSubmit job = some (true, r')) :
    r'.requestSubmit job = some (true, r') := by
  simp only [requestSubmit] at h
  split at h
  · simp at h
  · next notWanted =>
      split at h
      · next allowed =>
          cases h
          simp only [requestSubmit, notWanted, allowed, if_true, if_false]
      · split at h
        · cases h
        · split at h
          · cases h
            simp only [requestSubmit, notWanted, if_false, List.mem_append, List.mem_singleton,
              or_true, if_true]
          · simp at h

theorem grants_iff :
    r.grants job = true ↔ ∃ r', r.requestSubmit job = some (true, r') := by
  unfold grants
  cases answer : r.requestSubmit job with
  | none => simp
  | some result =>
    obtain ⟨granted, r'⟩ := result
    cases granted <;> simp

end BaseResource
end Condor.GridManager
