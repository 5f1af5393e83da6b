import Mathlib.Logic.Function.Basic

/-! Owners hold at most one thing each. A table finds the owner of a thing by its key. -/
namespace Condor.Lib

universe u v w
variable {ρ : Type u} {γ : Type v} {κ : Type w}

def Indexes (key : γ → κ) (lookup : κ → Option ρ) (held : ρ → Option γ) : Prop :=
  ∀ thing owner, lookup (key thing) = some owner ↔ held owner = some thing

namespace Indexes
variable {key : γ → κ} {lookup lookup' : κ → Option ρ} {held : ρ → Option γ} {owner : ρ} {thing : γ}

theorem owner_unique (h : Indexes key lookup held) {other : ρ} (mine : held owner = some thing)
    (theirs : held other = some thing) : other = owner :=
  Option.some.inj (((h thing other).mpr theirs).symm.trans ((h thing owner).mpr mine))

theorem lookup_eq_none (h : Indexes key lookup held) (free : ∀ r, held r ≠ some thing) :
    lookup (key thing) = none := by
  cases found : lookup (key thing) with
  | none => rfl
  | some r => exact absurd ((h thing r).mp found) (free r)

variable [DecidableEq ρ] [DecidableEq κ]

/-- The owner gives its thing up and the key is taken out. -/
theorem release (h : Indexes key lookup held) (mine : held owner = some thing)
    (determined : ∀ other, key other = key thing → other = thing)
    (removed : ∀ k, lookup' k = if k = key thing then none else lookup k) :
    Indexes key lookup' (Function.update held owner none) := by
  intro other r
  rw [removed]
  by_cases same : key other = key thing
  · rw [if_pos same, determined other same]
    constructor
    · nofun
    · intro holds
      by_cases here : r = owner
      · rw [here, Function.update_self] at holds
        cases holds
      · rw [Function.update_of_ne here] at holds
        exact absurd (h.owner_unique mine holds) here
  · rw [if_neg same, h other r]
    by_cases here : r = owner
    · rw [here, Function.update_self, mine]
      constructor
      · rintro ⟨⟩
        exact absurd rfl same
      · nofun
    · rw [Function.update_of_ne here]

/-- An owner of nothing gets a thing that nobody has, and the key is put in. -/
theorem gain (h : Indexes key lookup held) (nothing : held owner = none)
    (free : ∀ r, held r ≠ some thing)
    (determined : ∀ other, key other = key thing → other = thing)
    (inserted : ∀ k, lookup' k =
      if k = key thing then some ((lookup (key thing)).getD owner) else lookup k) :
    Indexes key lookup' (Function.update held owner (some thing)) := by
  intro other r
  rw [inserted, h.lookup_eq_none free, Option.getD_none]
  by_cases same : key other = key thing
  · rw [if_pos same, determined other same]
    by_cases here : r = owner
    · rw [here, Function.update_self]
      exact iff_of_true rfl rfl
    · rw [Function.update_of_ne here]
      exact iff_of_false (fun eq => here (Option.some.inj eq).symm) (free r)
  · rw [if_neg same, h other r]
    by_cases here : r = owner
    · rw [here, Function.update_self, nothing]
      constructor
      · nofun
      · rintro ⟨⟩
        exact absurd rfl same
    · rw [Function.update_of_ne here]

end Indexes
end Condor.Lib
