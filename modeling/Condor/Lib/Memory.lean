import Mathlib.Data.List.Range
import Mathlib.Logic.Function.Basic
import Mathlib.Data.List.GetD

/-! A buffer gives a value at every place. Writing a block at its beginning keeps what is behind the
block. A slice depends only on the places it covers. -/
namespace Condor.Lib

universe u

abbrev Memory (α : Type u) := Nat → α

namespace Memory
variable {α : Type u}

def slice (m : Memory α) (off n : Nat) : List α := (List.range n).map fun i => m (off + i)

def overlay (block : List α) (m : Memory α) : Memory α := fun i => block.getD i (m i)

@[simp] theorem length_slice (m : Memory α) (off n : Nat) : (m.slice off n).length = n := by
  rw [slice, List.length_map, List.length_range]

variable {off n i : Nat} {block : List α}
variable {m m' : Memory α}

theorem slice_congr (same : ∀ i, off ≤ i → i < off + n → m i = m' i) :
    m.slice off n = m'.slice off n := by
  apply List.map_congr_left
  intro i inside
  have bound := List.mem_range.mp inside
  exact same _ (by omega) (by omega)

theorem slice_inj (same : m.slice off n = m'.slice off n) (lower : off ≤ i) (upper : i < off + n) :
    m i = m' i := by
  have pointwise := List.map_inj_left.mp same (i - off) (List.mem_range.mpr (by omega))
  rwa [Nat.add_sub_cancel' lower] at pointwise

theorem overlay_of_lt (m m' : Memory α) (inside : i < block.length) :
    overlay block m i = overlay block m' i := by
  rw [overlay, overlay, List.getD_eq_getElem _ _ inside, List.getD_eq_getElem _ _ inside]

theorem overlay_of_le (m : Memory α) (outside : block.length ≤ i) :
    overlay block m i = m i := List.getD_eq_default _ _ outside

theorem slice_overlay (m : Memory α) (inside : off + n ≤ block.length) :
    (overlay block m).slice off n = (block.drop off).take n := by
  apply List.ext_getElem
  · rw [length_slice, List.length_take, List.length_drop]
    omega
  · intro i short _
    rw [length_slice] at short
    rw [List.getElem_take, List.getElem_drop]
    simp only [slice, List.getElem_map, List.getElem_range]
    exact List.getD_eq_getElem _ _ (by omega)

/-- Old content that continues the block is as good as a longer block. -/
theorem overlay_overlay {longer : List α} (begins : block <+: longer) (m : Memory α) :
    overlay block (overlay longer m) = overlay longer m := by
  funext i
  rcases Nat.lt_or_ge i block.length with inside | outside
  · have sizes := begins.length_le
    rw [overlay, overlay, List.getD_eq_getElem _ _ inside, List.getD_eq_getElem _ _ (by omega)]
    exact begins.getElem inside
  · exact overlay_of_le _ outside

theorem mem_slice (m : Memory α) (lower : off ≤ i) (upper : i < off + n) : m i ∈ m.slice off n := by
  rw [slice, List.mem_map]
  exact ⟨i - off, List.mem_range.mpr (by omega), by rw [Nat.add_sub_cancel' lower]⟩

theorem slice_update (m : Memory α) (b : α) (outside : off + n ≤ i) :
    slice (Function.update m i b) off n = m.slice off n := by
  apply slice_congr
  intro j _ upper
  exact Function.update_of_ne (by omega) _ _

/-- A change behind the block is not overwritten. -/
theorem overlay_update (m : Memory α) (b : α) (outside : block.length ≤ i) :
    overlay block (Function.update m i b) = Function.update (overlay block m) i b := by
  funext j
  by_cases here : j = i
  · rw [here, overlay_of_le _ outside, Function.update_self, Function.update_self]
  · rw [Function.update_of_ne here, overlay, overlay, Function.update_of_ne here]

theorem slice_append (m : Memory α) (off a b : Nat) :
    m.slice off (a + b) = m.slice off a ++ m.slice (off + a) b := by
  rw [slice, List.range_add, List.map_append, List.map_map]
  simp only [slice, Function.comp_def, Nat.add_assoc]

/-- The block decides whether a mark stands at a place, unless it breaks off inside it. -/
def Settled (mark block : List α) : Prop := block <+: mark → block = mark

instance [DecidableEq α] (mark block : List α) : Decidable (Settled mark block) :=
  inferInstanceAs (Decidable (block <+: mark → block = mark))

variable {mark block : List α}

theorem slice_eq_mark_iff (m : Memory α) (off : Nat)
    (inside : off ≤ block.length) (settled : Settled mark (block.drop off)) :
    (overlay block m).slice off mark.length = mark ↔ mark <+: block.drop off := by
  rcases Nat.lt_or_ge (block.length - off) mark.length with short | long
  · -- The block ends before the mark would.
    have begins : (overlay block m).slice off mark.length = mark → block.drop off <+: mark := by
      intro same
      have parts := slice_append (overlay block m) off (block.length - off)
        (mark.length - (block.length - off))
      rw [Nat.add_sub_cancel' (by omega), same, slice_overlay m (by omega)] at parts
      rw [List.take_of_length_le (by rw [List.length_drop])] at parts
      exact ⟨_, parts.symm⟩
    constructor
    · intro same
      exact (settled (begins same)).symm ▸ List.prefix_rfl
    · intro whole
      have sizes := whole.length_le
      rw [List.length_drop] at sizes
      omega
  · rw [slice_overlay m (by omega), List.prefix_iff_eq_take]
    exact eq_comm

theorem slice_eq_mark (m : Memory α) (off : Nat)
    (whole : mark <+: block.drop off) : (overlay block m).slice off mark.length = mark := by
  have sizes := whole.length_le
  rw [List.length_drop] at sizes
  rcases Nat.eq_zero_or_pos mark.length with blank | marked
  · rw [blank, List.length_eq_zero_iff.mp blank]
    rfl
  · rw [slice_overlay m (by omega)]
    exact (List.prefix_iff_eq_take.mp whole).symm

def Apart (mark block : List α) : Prop := ¬ mark <+: block ∧ ¬ block <+: mark

instance [DecidableEq α] (mark block : List α) : Decidable (Apart mark block) :=
  inferInstanceAs (Decidable (_ ∧ _))

theorem Apart.settled (apart : Apart mark block) : Settled mark block :=
  fun begins => absurd begins apart.2

theorem apart_append_iff (rest : List α) (long : mark.length ≤ block.length) :
    Apart mark (block ++ rest) ↔ Apart mark block := by
  have forward : mark <+: block ++ rest ↔ mark <+: block := by
    constructor
    · intro begins
      exact List.prefix_of_prefix_length_le begins ( List.prefix_append _ _) long
    · intro begins
      exact begins.trans ( List.prefix_append _ _)
  have backward : block ++ rest <+: mark → block <+: mark :=
    fun begins => ( List.prefix_append _ _).trans begins
  constructor
  · intro apart
    have unmarked : ¬ mark <+: block := fun begins => apart.1 (forward.mpr begins)
    refine ⟨unmarked, ?_⟩
    intro begins
    exact unmarked (begins.eq_of_length_le long ▸ List.prefix_rfl)
  · intro apart
    exact ⟨fun begins => apart.1 (forward.mp begins), fun begins => apart.2 (backward begins)⟩

/-- Where block and mark are not apart, the right old content shows the mark. -/
theorem exists_mark (m : Memory α) (inside : off ≤ block.length)
    (meet : ¬ Apart mark (block.drop off)) :
    ∃ old : Memory α, (overlay block old).slice off mark.length = mark := by
  by_cases whole : mark <+: block.drop off
  · exact ⟨m, slice_eq_mark m off whole⟩
  · have begins : block.drop off <+: mark := by
      by_contra apart
      exact meet ⟨whole, apart⟩
    set longer := block.take off ++ mark
    have continued : block <+: longer := by
      rw [← List.take_append_drop off block]
      exact (List.prefix_append_right_inj _).mpr begins
    have there : longer.drop off = mark := by
      rw [List.drop_append_of_le_length (by rw [List.length_take]; omega),
        List.drop_take_self, List.nil_append]
    refine ⟨overlay longer m, ?_⟩
    rw [overlay_overlay continued]
    exact slice_eq_mark m off (there.symm ▸ List.prefix_rfl)

end Memory
end Condor.Lib
