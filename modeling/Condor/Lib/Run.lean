import Mathlib.Data.List.Basic

/-! A system is a step relation between states, labelled by what the environment supplies. Runs are
finite and list their labels in order. -/
namespace Condor.Lib

universe u v
variable {σ : Type u} {α : Type v}

inductive Run (step : σ → α → σ → Prop) : σ → List α → σ → Prop
  | nil (s : σ) : Run step s [] s
  | cons {s t u : σ} {a : α} {as : List α} :
      step s a t → Run step t as u → Run step s (a :: as) u

def Guarded (step : σ → α → σ → Prop) (guard : σ → α → Prop) : σ → α → σ → Prop :=
  fun s a t => guard s a ∧ step s a t

def Takes (step : σ → α → Option σ) : σ → α → σ → Prop :=
  fun s a t => step s a = some t

def execute (step : σ → α → Option σ) : σ → List α → Option σ
  | s, [] => some s
  | s, a :: as => (step s a).bind fun t => execute step t as

def guardedStep (step : σ → α → Option σ) (guard : σ → α → Prop)
    [∀ s a, Decidable (guard s a)] : σ → α → Option σ :=
  fun s a => if guard s a then step s a else none

namespace Run
variable {step step' : σ → α → σ → Prop} {s t u : σ} {as bs : List α}

theorem single {a : α} (taken : step s a t) : Run step s [a] t :=
  .cons taken (.nil t)

/-- A predicate kept by every step holds at the end of every run that starts in it. -/
theorem invariant {I : σ → Prop} (run : Run step s as t) (start : I s)
    (kept : ∀ s a t, I s → step s a t → I t) : I t := by
  induction run with
  | nil s => exact start
  | cons taken _ ih => exact ih (kept _ _ _ start taken)

theorem mono (run : Run step s as t) (sub : ∀ s a t, step s a t → step' s a t) :
    Run step' s as t := by
  induction run with
  | nil s => exact .nil s
  | cons taken _ ih => exact .cons (sub _ _ _ taken) ih

variable {f : σ → α → Option σ}

theorem of_execute (h : execute f s as = some t) : Run (Takes f) s as t := by
  induction as generalizing s with
  | nil =>
    cases h
    exact .nil _
  | cons a as ih =>
    obtain ⟨u, taken, rest⟩ := Option.bind_eq_some_iff.mp h
    exact .cons taken (ih rest)

theorem of_execute_guarded {guard : σ → α → Prop} [∀ s a, Decidable (guard s a)]
    (h : execute (guardedStep f guard) s as = some t) :
    Run (Guarded (Takes f) guard) s as t := by
  refine (of_execute h).mono fun s a t taken => ?_
  unfold Takes guardedStep at taken
  split at taken
  · next met => exact ⟨met, taken⟩
  · cases taken

end Run

/-- A loop that ends or comes down in a measure at every turn ends, whatever the
environment supplies. -/
theorem exists_run_to_final {step : σ → α → Option σ} {I Final : σ → Prop} (μ : σ → Nat)
    (labels : Nat → α)
    (turn : ∀ s i, I s → ¬Final s → ∃ t, step s (labels i) = some t ∧
      (Final t ∨ I t ∧ μ t < μ s)) {s : σ} (start : I s) :
    ∃ n ≤ μ s + 1, ∃ t, Run (Takes step) s ((List.range n).map labels) t ∧ Final t := by
  generalize bound : μ s = m
  induction m using Nat.strongRecOn generalizing s labels with
  | ind m ih =>
    by_cases done : Final s
    · exact ⟨0, Nat.zero_le _, s, .nil s, done⟩
    · obtain ⟨u, taken, ended | ⟨kept, less⟩⟩ := turn s 0 start done
      · exact ⟨1, Nat.le_add_left 1 m, u, .single taken, ended⟩
      · obtain ⟨n, few, t, run, final⟩ := ih (μ u) (bound ▸ less)
          (fun i => labels (i + 1)) (fun s i => turn s (i + 1)) kept rfl
        refine ⟨n + 1, by omega, t, ?_, final⟩
        rw [List.range_succ_eq_map, List.map_cons, List.map_map]
        exact .cons taken run

end Condor.Lib
