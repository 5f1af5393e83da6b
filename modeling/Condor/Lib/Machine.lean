import Mathlib.Data.List.Basic

/-! A machine answers every input and moves to its next state. It refines another one where a
relation between the states makes the answers equal and is kept by every step. -/
namespace Condor.Lib

universe u v w x
variable {σ : Type u} {τ : Type v} {ι : Type w} {ο : Type x}

def outputs (step : σ → ι → ο × σ) : σ → List ι → List ο × σ
  | s, [] => ([], s)
  | s, i :: is => ((step s i).1 :: (outputs step (step s i).2 is).1,
      (outputs step (step s i).2 is).2)

theorem outputs_refine {step : σ → ι → ο × σ} (spec : τ → ι → ο × τ) (R : σ → τ → Prop)
    (ok : ι → Prop) {is : List ι}
    (kept : ∀ s t i, ok i → R s t → (step s i).1 = (spec t i).1 ∧ R (step s i).2 (spec t i).2)
    (all : ∀ i ∈ is, ok i) {s : σ} {t : τ} (start : R s t) :
    (outputs step s is).1 = (outputs spec t is).1
      ∧ R (outputs step s is).2 (outputs spec t is).2 := by
  induction is generalizing s t with
  | nil => exact ⟨rfl, start⟩
  | cons i is ih =>
    obtain ⟨answer, next⟩ := kept s t i (all i List.mem_cons_self) start
    obtain ⟨answers, final⟩ := ih (fun j member => all j (List.mem_cons_of_mem i member)) next
    refine ⟨?_, final⟩
    rw [outputs, outputs, answer, answers]

/-- The answer at a place is that of the state the inputs before it lead to. -/
theorem getElem?_outputs (step : σ → ι → ο × σ) (s : σ) (is : List ι) (j : Nat) :
    (outputs step s is).1[j]? = is[j]?.map fun i => (step (outputs step s (is.take j)).2 i).1 := by
  induction is generalizing s j with
  | nil => rfl
  | cons i is ih =>
    cases j with
    | zero => rfl
    | succ j =>
      rw [outputs, List.getElem?_cons_succ, List.getElem?_cons_succ, List.take_succ_cons, ih]
      rfl

end Condor.Lib
