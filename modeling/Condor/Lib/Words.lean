import Mathlib.Data.List.Basic

/-! A writer puts a separator in front of each word unless the text is still empty. For a reader a
word may come back as one item, as several or as none. -/
namespace Condor.Lib

variable {α β ρ ι : Type*}

def addWord [DecidableEq α] (sep : α) (text word : List α) : List α :=
  (if text = [] then [] else text ++ [sep]) ++ word

variable {written : ι → List α} {xs : List ι}

theorem head_addWords [DecidableEq α] {q : α → Prop} {sep : α} {text : List α}
    (first : ∀ c ∈ text.head?, q c) (words : ∀ x ∈ xs, ∀ c ∈ (written x).head?, q c) :
    ∀ c ∈ (xs.foldl (fun text x => addWord sep text (written x)) text).head?, q c := by
  induction xs generalizing text with
  | nil => exact first
  | cons x xs ih =>
    refine ih ?_ fun y member => words y (List.mem_cons_of_mem x member)
    cases text with
    | nil => simpa [addWord] using words x List.mem_cons_self
    | cons c text => simpa [addWord] using first

theorem mem_addWords [DecidableEq α] {sep c : α} {text : List α}
    (member : c ∈ xs.foldl (fun text x => addWord sep text (written x)) text) :
    c ∈ text ∨ c = sep ∨ ∃ x ∈ xs, c ∈ written x := by
  induction xs generalizing text with
  | nil => exact .inl member
  | cons x xs ih => grind [addWord]

/-- The reader, which adds to a list of items, reads the items of a word at the end of the
text as well as before a separator. -/
structure Reads (read : List β → List α → ρ) (done : List β → ρ) (sep : α) (word : List α)
    (items : List β) : Prop where
  empty : word = [] → items = []
  last : ∀ list, read list word = done (list ++ items)
  next : ∀ list rest, read list (word ++ sep :: rest) = read (list ++ items) rest

namespace Reads
variable {read : List β → List α → ρ} {done : List β → ρ} {sep : α} {text word : List α}
  {before items : List β} [DecidableEq α]

theorem addWord (old : Reads read done sep text before) (new : Reads read done sep word items) :
    Reads read done sep (addWord sep text word) (before ++ items) := by
  rw [Lib.addWord]
  split
  · next empty =>
      rw [old.empty empty]
      exact new
  · next started =>
      refine ⟨fun empty => ?_, fun list => ?_, fun list rest => ?_⟩
      · simp at empty
      · rw [List.append_assoc, List.singleton_append, old.next, new.last, List.append_assoc]
      · rw [List.append_assoc, List.append_assoc, List.singleton_append, old.next, new.next,
          List.append_assoc]

/-- A text written word by word is read item by item. -/
theorem addWords {back : ι → List β} (old : Reads read done sep text before)
    (words : ∀ x ∈ xs, Reads read done sep (written x) (back x)) :
    Reads read done sep (xs.foldl (fun text x => Lib.addWord sep text (written x)) text)
      (before ++ xs.flatMap back) := by
  induction xs generalizing text before with
  | nil => simpa using old
  | cons x xs ih =>
    have first := old.addWord (words x List.mem_cons_self)
    have all := ih first fun y member => words y (List.mem_cons_of_mem x member)
    simpa [List.append_assoc] using all

end Reads
end Condor.Lib
