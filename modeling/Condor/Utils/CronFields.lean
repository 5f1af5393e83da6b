import Condor.Utils.CronSearch

/-! What `expandParameter` makes of a parameter text. A step of zero is a division by zero. -/
namespace Condor.Utils.CronTab
open Condor.Utils

variable {idx : Nat}
variable {list : List Int} {token : Bytes}

/-- The loop divides by zero exactly when it runs with a step of zero. -/
theorem fill_isSome_iff {curStep : Int} {count : Nat} {ctr : Int} :
    (fill idx curStep count ctr list).isSome ↔ count = 0 ∨ curStep ≠ 0 := by
  induction count generalizing ctr list with
  | zero => exact iff_of_true rfl (.inl rfl)
  | succ count ih =>
    rw [fill, or_iff_right (Nat.succ_ne_zero count)]
    by_cases zero : curStep = 0
    · rw [if_pos zero]
      exact iff_of_false nofun fun other => other zero
    · rw [if_neg zero]
      refine iff_of_true ?_ zero
      dsimp only
      split
      · exact ih.mpr (.inr zero)
      · exact ih.mpr (.inr zero)

/-- A token, without its step, that selects no value of its field at all: a range that misses
it, or the wildcard for the days of the week. -/
def SelectsNothing (idx : Nat) (numerator : Bytes) : Prop :=
  if find rangeMark numerator > 0 then
    let first := atoi (trim ((tokens rangeMark numerator).getD 0 []))
    let last := atoi (trim ((tokens rangeMark numerator).getD 1 []))
    last < first ∨ last < mins idx ∨ maxs idx < first
  else wildcard ∈ numerator ∧ idx = dowIdx

theorem mins_le_maxs (idx : Nat) : mins idx ≤ maxs idx := by
  match idx with
  | 0 | 1 | 2 | 3 | 4 => decide
  | _ + 5 => exact le_refl _

theorem find_nonneg_iff {c : UInt8} {s : Bytes} : 0 ≤ find c s ↔ c ∈ s := by
  unfold find
  split
  · next inside => exact iff_of_true (Int.natCast_nonneg _) inside
  · next outside => exact iff_of_false (by decide) outside

theorem selectsNothing_iff (idx : Nat) (numerator : Bytes) :
    SelectsNothing idx numerator ↔
      ∀ lo hi, bounds idx (mins idx) (maxs idx) numerator = some (lo, hi) → hi < lo := by
  have ordered := mins_le_maxs idx
  unfold SelectsNothing bounds
  split
  · dsimp only
    generalize atoi (trim ((tokens rangeMark numerator).getD 0 [])) = first
    generalize atoi (trim ((tokens rangeMark numerator).getD 1 [])) = last
    constructor
    · rintro empty lo hi selected
      cases selected
      split <;> split <;> omega
    · intro all
      have empty := all _ _ rfl
      split at empty <;> split at empty <;> omega
  · rw [← find_nonneg_iff]
    split
    · next wild =>
        split
        · next dow => exact iff_of_true ⟨wild, dow⟩ nofun
        · next other =>
            refine iff_of_false (fun h => other h.2) fun all => ?_
            exact absurd (all _ _ rfl) (by omega)
    · next plain =>
        refine iff_of_false (fun h => plain h.1) fun all => ?_
        dsimp only at all
        split at all
        · exact absurd (all _ _ rfl) (by omega)
        · exact absurd (all _ _ rfl) (by omega)

def ZeroStep (token : Bytes) (numerator : Bytes) : Prop :=
  find stepMark token > 0 ∧ ∃ step more, tokens stepMark token = numerator :: step :: more ∧
    atoi (trim step) = 0

theorem zeroStep_iff {numerator : Bytes} :
    ZeroStep token numerator ↔ splitStep token = (numerator, 0) := by
  unfold ZeroStep splitStep
  split
  · next marked =>
      rw [and_iff_right marked]
      match pieces : tokens stepMark token with
      | [] => simp
      | [first] => simp
      | first :: second :: more => simp
  · next unmarked => exact iff_of_false (fun h => unmarked h.1) (by simp)

/-- Whether a token divides by zero does not depend on the values before it. -/
theorem expandToken_isSome_iff :
    (expandToken idx (mins idx) (maxs idx) list token).isSome ↔
      ∀ numerator, ZeroStep token numerator → SelectsNothing idx numerator := by
  simp only [zeroStep_iff, selectsNothing_iff]
  cases selected : bounds idx (mins idx) (maxs idx) (splitStep token).1 with
  | none =>
    refine iff_of_true ?_ ?_
    · rw [expandToken]
      simp only [selected]
      rfl
    · rintro numerator split lo hi some
      rw [split] at selected
      cases selected.symm.trans some
  | some range =>
    obtain ⟨lo, hi⟩ := range
    rw [expandToken]
    simp only [selected]
    rw [fill_isSome_iff]
    constructor
    · rintro safe numerator split lo' hi' selected'
      rw [split] at selected safe
      cases selected.symm.trans selected'
      have empty := safe.resolve_right (not_not.mpr rfl)
      omega
    · intro all
      by_cases zero : (splitStep token).2 = 0
      · have empty := all _ (Prod.ext rfl zero) lo hi selected
        exact .inl (by omega)
      · exact .inr zero

theorem foldlM_expandToken_isSome {words : List Bytes} (list : List Int) :
    (words.foldlM (expandToken idx (mins idx) (maxs idx)) list).isSome ↔
      ∀ token ∈ words, ∀ numerator, ZeroStep token numerator → SelectsNothing idx numerator := by
  induction words generalizing list with
  | nil => exact iff_of_true rfl nofun
  | cons token words ih =>
    have first : (expandToken idx (mins idx) (maxs idx) list token).isSome ↔ _ :=
      expandToken_isSome_iff
    rw [List.foldlM_cons, List.forall_mem_cons, ← first]
    cases expandToken idx (mins idx) (maxs idx) list token with
    | none => exact iff_of_false (fun h => nomatch h) fun h => nomatch h.1
    | some next => exact (ih next).trans (and_iff_right rfl).symm

/-- A valid parameter is expanded without a division by zero exactly when each of its tokens
with a step of zero selects nothing. -/
theorem expandParameter_isSome_iff (idx : Nat) {param : Bytes}
    (valid : validateParameter param = true) :
    (expandParameter idx (mins idx) (maxs idx) param).isSome ↔
      ∀ token ∈ tokens delimiter (param.filter (· ≠ blank)), ∀ numerator,
        ZeroStep token numerator → SelectsNothing idx numerator := by
  rw [expandParameter, if_pos valid, ← foldlM_expandToken_isSome []]
  cases (tokens delimiter (param.filter (· ≠ blank))).foldlM
    (expandToken idx (mins idx) (maxs idx)) [] <;> exact Iff.rfl

theorem expandParameter_isSome_iff_hourly :
    (expandParameter minutesIdx (mins minutesIdx) (maxs minutesIdx) (ascii "*/15")).isSome ↔
      ∀ token ∈ tokens delimiter ((ascii "*/15").filter (· ≠ blank)), ∀ numerator,
        ZeroStep token numerator → SelectsNothing minutesIdx numerator :=
  expandParameter_isSome_iff minutesIdx (by decide)

/-- `*/0` is a valid parameter. -/
theorem expandParameter_divides_by_zero :
    validateParameter (ascii "*/0") = true ∧
      expandParameter minutesIdx (mins minutesIdx) (maxs minutesIdx) (ascii "*/0") = none := by
  decide +kernel

end Condor.Utils.CronTab
