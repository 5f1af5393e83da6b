import Mathlib.Tactic.TypeStar

/-! A call works on a state and returns a value or fails. A failed call keeps what it did to the
state. -/
namespace Condor.Lib

universe u v

def Attempt (σ : Type u) (α : Type v) := σ → Option α × σ

namespace Attempt
variable {σ : Type u} {α β : Type v}

def bind (m : Attempt σ α) (f : α → Attempt σ β) : Attempt σ β := fun s =>
  match m s with
  | (none, s) => (none, s)
  | (some a, s) => f a s

instance : Monad (Attempt σ) where
  pure a := fun s => (some a, s)
  bind := bind

def fail : Attempt σ α := fun s => (none, s)

def look {σ : Type u} : Attempt σ σ := fun s => (some s, s)

def replace (s : σ) : Attempt σ PUnit := fun _ => (some ⟨⟩, s)

@[simp] theorem pure_apply (a : α) (s : σ) : (pure a : Attempt σ α) s = (some a, s) := rfl

@[simp] theorem fail_apply (s : σ) : (fail : Attempt σ α) s = (none, s) := rfl

variable {m : Attempt σ α} {s s' : σ}

theorem bind_of_some {a : α} (f : α → Attempt σ β) (done : m s = (some a, s')) :
    (m >>= f) s = f a s' := by
  change bind m f s = _
  rw [bind, done]

theorem bind_of_none (f : α → Attempt σ β) (failed : m s = (none, s')) :
    (m >>= f) s = (none, s') := by
  change bind m f s = _
  rw [bind, failed]

end Attempt

section State
variable {σ β : Type u}

@[simp] theorem Attempt.look_bind (f : σ → Attempt σ β) (s : σ) :
    (Attempt.look >>= f) s = f s s := rfl

@[simp] theorem Attempt.replace_bind (s s' : σ) (f : PUnit → Attempt σ β) :
    (Attempt.replace s' >>= f) s = f ⟨⟩ s' := rfl

end State
end Condor.Lib
