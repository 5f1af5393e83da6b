import Mathlib.Algebra.GroupWithZero.Nat
import Mathlib.Algebra.BigOperators.Group.List.Basic
import Mathlib.Data.List.Infix

/-! A line is a sequence of fields with separators between them and a terminator. An escape symbol
takes the special meaning off the next symbol, and a symbol may be skipped. Counting what every
symbol contributes to the fields shows that a line is read as it was meant exactly if no raw symbol
is special. -/
namespace Condor.Lib

universe u

/-- What a symbol means when it is not escaped. -/
inductive Kind where
  | plain
  | escape
  | skip
  | separator
  | terminator
  deriving DecidableEq, Repr

structure Alphabet (α : Type u) where
  kind : α → Kind
  escape : α
  separator : α
  terminator : α
  kind_escape : kind escape = .escape
  kind_separator : kind separator = .separator
  kind_terminator : kind terminator = .terminator

/-- A line that is being read: the fields so far, the current one, and whether the next
symbol is escaped. -/
structure Reading (α : Type u) where
  fields : List (List α)
  current : List α
  escaped : Bool

inductive Token (α : Type u) where
  | escaped (c : α)
  | raw (c : α)
  | separator

variable {α : Type u}

namespace Reading

def start : Reading α := ⟨[], [], false⟩

def push (r : Reading α) (c : α) : Reading α := ⟨r.fields, r.current ++ [c], false⟩

def next (r : Reading α) : Reading α := ⟨r.fields ++ [r.current], [], false⟩

end Reading

namespace Alphabet
variable (A : Alphabet α)

def readFields : Reading α → List α → Option (List (List α) × List α)
  | _, [] => none
  | r, c :: cs =>
    if r.escaped then readFields (r.push c) cs
    else
      match A.kind c with
      | .plain => readFields (r.push c) cs
      | .escape => readFields { r with escaped := true } cs
      | .skip => readFields r cs
      | .separator => readFields r.next cs
      | .terminator => some (r.fields ++ [r.current], cs)

def renderToken : Token α → List α
  | .escaped c => [A.escape, c]
  | .raw c => [c]
  | .separator => [A.separator]

def renderLine (ts : List (Token α)) : List α := ts.flatMap A.renderToken ++ [A.terminator]

/-- Only special symbols are escaped. -/
def Sparing (ts : List (Token α)) : Prop := ∀ c, Token.escaped c ∈ ts → A.kind c ≠ .plain

def Tame (ts : List (Token α)) : Prop :=
  ∀ c, Token.raw c ∈ ts → A.kind c = .plain ∨ A.kind c = .separator

def Clean (ts : List (Token α)) : Prop := ∀ c, Token.raw c ∈ ts → A.kind c = .plain

end Alphabet

def fieldsOf : List (Token α) → List (List α)
  | [] => [[]]
  | .escaped c :: ts => (fieldsOf ts).modifyHead (c :: ·)
  | .raw c :: ts => (fieldsOf ts).modifyHead (c :: ·)
  | .separator :: ts => [] :: fieldsOf ts

theorem fieldsOf_ne_nil (ts : List (Token α)) : fieldsOf ts ≠ [] := by
  cases ts with
  | nil => exact List.cons_ne_nil _ _
  | cons t ts => cases t <;> simp [fieldsOf, fieldsOf_ne_nil ts]

/-! ## A clean line is read as it was meant -/

namespace Alphabet
variable {A : Alphabet α}
variable {ts : List (Token α)}

theorem readFields_render (clean : A.Clean ts) (fields : List (List α)) (current rest : List α) :
    A.readFields ⟨fields, current, false⟩ (A.renderLine ts ++ rest) =
      some (fields ++ (fieldsOf ts).modifyHead (current ++ ·), rest) := by
  have later : ∀ {t : Token α} {ts}, A.Clean (t :: ts) → A.Clean ts :=
    fun clean c member => clean c (List.mem_cons_of_mem _ member)
  induction ts generalizing fields current with
  | nil => simp [renderLine, readFields, A.kind_terminator, fieldsOf]
  | cons t ts ih =>
    obtain ⟨f, fs, split⟩ := List.exists_cons_of_ne_nil (fieldsOf_ne_nil ts)
    have rendered : A.renderLine (t :: ts) ++ rest =
        A.renderToken t ++ (A.renderLine ts ++ rest) := by
      simp [renderLine]
    rw [rendered]
    cases t with
    | escaped c =>
      simp only [renderToken, List.cons_append, List.nil_append, readFields, A.kind_escape,
        Bool.false_eq_true, if_false, if_true, Reading.push]
      rw [ih (later clean)]
      simp [fieldsOf, split]
    | raw c =>
      have plain := clean c List.mem_cons_self
      simp only [renderToken, List.cons_append, List.nil_append, readFields, plain,
        Bool.false_eq_true, if_false, Reading.push]
      rw [ih (later clean)]
      simp [fieldsOf, split]
    | separator =>
      simp only [renderToken, List.cons_append, List.nil_append, readFields, A.kind_separator,
        Bool.false_eq_true, if_false, Reading.next]
      rw [ih (later clean)]
      simp [fieldsOf, split]

/-- Tame tokens leave the reader where the next symbol is not escaped. -/
theorem readFields_tame (tame : A.Tame ts) (fields : List (List α)) (current : List α) :
    ∃ fields' current', ∀ rest,
      A.readFields ⟨fields, current, false⟩ (ts.flatMap A.renderToken ++ rest) =
        A.readFields ⟨fields', current', false⟩ rest := by
  induction ts generalizing fields current with
  | nil => exact ⟨fields, current, fun _ => rfl⟩
  | cons t ts ih =>
    have later : A.Tame ts := fun c member => tame c (List.mem_cons_of_mem _ member)
    cases t with
    | escaped c =>
      obtain ⟨fields', current', read⟩ := ih later fields (current ++ [c])
      refine ⟨fields', current', fun rest => ?_⟩
      simp only [List.flatMap_cons, renderToken, List.cons_append, List.nil_append, readFields,
        A.kind_escape, Bool.false_eq_true, if_false, if_true, Reading.push]
      exact read rest
    | raw c =>
      rcases tame c List.mem_cons_self with plain | separator
      · obtain ⟨fields', current', read⟩ := ih later fields (current ++ [c])
        refine ⟨fields', current', fun rest => ?_⟩
        simp only [List.flatMap_cons, renderToken, List.cons_append, List.nil_append,
            readFields,
          plain, Bool.false_eq_true, if_false, Reading.push]
        exact read rest
      · obtain ⟨fields', current', read⟩ := ih later (fields ++ [current]) []
        refine ⟨fields', current', fun rest => ?_⟩
        simp only [List.flatMap_cons, renderToken, List.cons_append, List.nil_append,
            readFields,
          separator, Bool.false_eq_true, if_false, Reading.next]
        exact read rest
    | separator =>
      obtain ⟨fields', current', read⟩ := ih later (fields ++ [current]) []
      refine ⟨fields', current', fun rest => ?_⟩
      simp only [List.flatMap_cons, renderToken, List.cons_append, List.nil_append, readFields,
        A.kind_separator, Bool.false_eq_true, if_false, Reading.next]
      exact read rest

theorem readFields_plain {word : List α} (plain : ∀ c ∈ word, A.kind c = .plain)
    (fields : List (List α)) (current rest : List α) :
    A.readFields ⟨fields, current, false⟩ (word ++ rest) =
      A.readFields ⟨fields, current ++ word, false⟩ rest := by
  induction word generalizing current with
  | nil => simp
  | cons c word ih =>
    simp only [List.cons_append, readFields, plain c List.mem_cons_self, Bool.false_eq_true,
      if_false, Reading.push]
    rw [ih fun d member => plain d (List.mem_cons_of_mem _ member)]
    simp

/-! ## What is read weighs what was consumed -/

def size (fields : List (List α)) : Nat := (fields.map fun f => 2 * f.length + 1).sum

@[simp] theorem size_append (fs gs : List (List α)) : size (fs ++ gs) = size fs + size gs := by
  simp [size]

@[simp] theorem size_cons (f : List α) (fs : List (List α)) :
    size (f :: fs) = 2 * f.length + 1 + size fs := by
  simp [size]

@[simp] theorem size_nil : size ([] : List (List α)) = 0 := rfl

/-- What the symbols of a text contribute to the fields that are read from it. -/
def weight (A : Alphabet α) : Bool → List α → Nat
  | _, [] => 0
  | true, _ :: cs => 2 + weight A false cs
  | false, c :: cs =>
    match A.kind c with
    | .plain => 2 + weight A false cs
    | .escape => weight A true cs
    | .skip => weight A false cs
    | .separator => 1 + weight A false cs
    | .terminator => 1 + weight A false cs

theorem weight_bounds (cs : List α) :
    A.weight false cs ≤ A.weight true cs ∧ A.weight true cs ≤ 2 + A.weight false cs := by
  induction cs with
  | nil => exact ⟨Nat.le_refl 0, Nat.zero_le _⟩
  | cons c cs ih =>
    simp only [weight]
    cases A.kind c <;> simp only <;> omega

/-- A text weighs at least what its end weighs when the reader starts there anew. -/
theorem weight_le_append (escaped : Bool) (xs ys : List α) :
    A.weight false ys ≤ A.weight escaped (xs ++ ys) := by
  induction xs generalizing escaped with
  | nil =>
    cases escaped with
    | false => exact Nat.le_refl _
    | true => exact (weight_bounds ys).1
  | cons x xs ih =>
    have rest := ih false
    have rest' := ih true
    cases escaped with
    | true =>
      rw [List.cons_append, weight]
      omega
    | false =>
      rw [List.cons_append]
      simp only [weight]
      cases A.kind x <;> simp only <;> omega

variable {r : Reading α} {cs rest : List α} {fields : List (List α)}

theorem weight_readFields (h : A.readFields r cs = some (fields, rest)) :
    size r.fields + 2 * r.current.length + A.weight r.escaped cs =
      size fields + A.weight false rest := by
  induction cs generalizing r with
  | nil => cases h
  | cons c cs ih =>
    obtain ⟨before, current, escaped⟩ := r
    cases escaped with
    | true =>
      have step := ih h
      simp only [Reading.push, List.length_append, List.length_singleton] at step
      simp only [weight]
      omega
    | false =>
      simp only [readFields, Bool.false_eq_true, if_false] at h
      simp only [weight]
      cases kind : A.kind c with
      | plain =>
        rw [kind] at h
        have step := ih h
        simp only [Reading.push, List.length_append, List.length_singleton] at step
        simp only
        omega
      | escape =>
        rw [kind] at h
        exact ih h
      | skip =>
        rw [kind] at h
        exact ih h
      | separator =>
        rw [kind] at h
        have step := ih h
        simp only [Reading.next, size_append, size_cons, size_nil, List.length_nil] at step
        simp only
        omega
      | terminator =>
        rw [kind] at h
        cases h
        simp only [size_append, size_cons, size_nil]
        omega

theorem size_fieldsOf_push (c : α) (ts : List (Token α)) :
    size ((fieldsOf ts).modifyHead (c :: ·)) = 2 + size (fieldsOf ts) := by
  obtain ⟨f, fs, split⟩ := List.exists_cons_of_ne_nil (fieldsOf_ne_nil ts)
  simp only [split, List.modifyHead_cons, size_cons, List.length_cons]
  omega

/-- A line weighs no more than what it stands for, and less if a raw symbol is special.
After a stray escape it may weigh one more. -/
theorem weight_renderLine (sparing : A.Sparing ts) :
    A.weight false (A.renderLine ts) ≤ size (fieldsOf ts) ∧
      A.weight true (A.renderLine ts) ≤ size (fieldsOf ts) + 1 ∧
      (A.weight false (A.renderLine ts) = size (fieldsOf ts) → A.Clean ts) := by
  induction ts with
  | nil =>
    have text : A.renderLine [] = [A.terminator] := rfl
    simp only [text, weight, A.kind_terminator, fieldsOf, size_cons, size_nil, List.length_nil]
    exact ⟨Nat.le_refl 1, Nat.le_refl 2, fun _ _ member => absurd member List.not_mem_nil⟩
  | cons t ts ih =>
    obtain ⟨light, heavy, clean⟩ := ih fun c member => sparing c (List.mem_cons_of_mem _ member)
    have bounds := weight_bounds (A := A) (A.renderLine ts)
    have rendered : A.renderLine (t :: ts) = A.renderToken t ++ A.renderLine ts := by
      simp [renderLine]
    rw [rendered]
    cases t with
    | escaped c =>
      have special := sparing c List.mem_cons_self
      simp only [renderToken, List.cons_append, List.nil_append, weight, A.kind_escape,
          fieldsOf,
        size_fieldsOf_push]
      refine ⟨by omega, ?_, fun same => ?_⟩
      · cases kind : A.kind c <;> simp only <;> first | omega | exact absurd kind special
      · intro d member
        rcases List.mem_cons.mp member with here | later
        · cases here
        · exact clean (by omega) d later
    | raw c =>
      simp only [renderToken, List.cons_append, List.nil_append, weight, fieldsOf,
        size_fieldsOf_push]
      refine ⟨?_, by omega, fun same => ?_⟩
      · cases A.kind c <;> simp only <;> omega
      · have plain : A.kind c = .plain := by
          cases kind : A.kind c <;> rw [kind] at same <;> simp only at same <;>
            first | rfl | omega
        rw [plain] at same
        simp only at same
        intro d member
        rcases List.mem_cons.mp member with here | later
        · cases here
          exact plain
        · exact clean (by omega) d later
    | separator =>
      simp only [renderToken, List.cons_append, List.nil_append, weight, A.kind_separator,
        fieldsOf, size_cons, List.length_nil]
      refine ⟨by omega, by omega, fun same => ?_⟩
      intro d member
      rcases List.mem_cons.mp member with here | later
      · cases here
      · exact clean (by omega) d later

/-- A line is read as exactly what it stands for if and only if it is clean. -/
theorem readFields_eq_iff (sparing : A.Sparing ts) :
    A.readFields .start (A.renderLine ts) = some (fieldsOf ts, []) ↔ A.Clean ts := by
  constructor
  · intro read
    have weighed := weight_readFields read
    simp only [Reading.start, size_nil, List.length_nil, weight] at weighed
    exact (weight_renderLine sparing).2.2 (by omega)
  · intro clean
    have read := readFields_render clean [] [] []
    obtain ⟨f, fs, split⟩ := List.exists_cons_of_ne_nil (fieldsOf_ne_nil ts)
    simpa [split, Reading.start] using read

theorem fields_kept (h : A.readFields r cs = some (fields, rest)) {f : List α}
    (member : f ∈ r.fields) :
    f ∈ fields := by
  induction cs generalizing r with
  | nil => cases h
  | cons c cs ih =>
    rw [readFields] at h
    split at h
    · exact ih h member
    · split at h
      · exact ih h member
      · exact ih h member
      · exact ih h member
      · exact ih h (List.mem_append_left _ member)
      · cases h
        exact List.mem_append_left _ member

theorem readFields_current (h : A.readFields r cs = some (fields, rest)) :
    ∃ f ∈ fields, r.current.length ≤ f.length := by
  induction cs generalizing r with
  | nil => cases h
  | cons c cs ih =>
    have pushed : ∀ {r' : Reading α}, A.readFields r' cs = some (fields, rest) →
        r.current.length ≤ r'.current.length → ∃ f ∈ fields, r.current.length ≤ f.length := by
      intro r' read longer
      obtain ⟨f, member, bound⟩ := ih read
      exact ⟨f, member, longer.trans bound⟩
    have grows : r.current.length ≤ (r.push c).current.length := by simp [Reading.push]
    rw [readFields] at h
    split at h
    · exact pushed h grows
    · split at h
      · exact pushed h grows
      · exact pushed h (Nat.le_refl _)
      · exact pushed h (Nat.le_refl _)
      · exact ⟨r.current, fields_kept h (by simp [Reading.next]), Nat.le_refl _⟩
      · cases h
        exact ⟨r.current, by simp, Nat.le_refl _⟩

end Alphabet

/-! ## Fields with the symbols their writers escape -/

structure Written (α : Type u) where
  escapes : α → Bool
  text : List α

namespace Written

def tokens (f : Written α) : List (Token α) :=
  f.text.map fun c => if f.escapes c then .escaped c else .raw c

def lineTokens : List (Written α) → List (Token α)
  | [] => []
  | [f] => f.tokens
  | f :: g :: fs => f.tokens ++ .separator :: lineTokens (g :: fs)

/-- Exactly the special symbols among those of the field are escaped. -/
def Faithful (A : Alphabet α) (f : Written α) : Prop :=
  ∀ c ∈ f.text, A.kind c ≠ .plain → f.escapes c = true

variable (f : Written α)

theorem fieldsOf_tokens_append (ts : List (Token α)) :
    fieldsOf (f.tokens ++ ts) = (fieldsOf ts).modifyHead (f.text ++ ·) := by
  obtain ⟨escapes, text⟩ := f
  obtain ⟨g, gs, split⟩ := List.exists_cons_of_ne_nil (fieldsOf_ne_nil ts)
  induction text with
  | nil => simp [tokens, split]
  | cons c text ih =>
    simp only [tokens, split, List.map_cons, List.cons_append, List.modifyHead_cons] at ih ⊢
    split <;> simp [fieldsOf, ih]

variable {fs : List (Written α)}

theorem fieldsOf_lineTokens (nonempty : fs ≠ []) :
    fieldsOf (lineTokens fs) = fs.map Written.text := by
  induction fs with
  | nil => exact absurd rfl nonempty
  | cons f fs ih =>
    cases fs with
    | nil =>
      have whole := fieldsOf_tokens_append f []
      rw [List.append_nil] at whole
      simpa [lineTokens, fieldsOf] using whole
    | cons g fs =>
      rw [lineTokens, fieldsOf_tokens_append, fieldsOf, ih (List.cons_ne_nil _ _)]
      simp

theorem mem_lineTokens {t : Token α} (symbol : t ≠ .separator) :
    t ∈ lineTokens fs ↔ ∃ f ∈ fs, t ∈ f.tokens := by
  induction fs with
  | nil => simp [lineTokens]
  | cons f fs ih =>
    cases fs with
    | nil => simp [lineTokens]
    | cons g fs =>
      rw [lineTokens, List.mem_append, List.mem_cons, ih]
      simp [symbol]

variable {A : Alphabet α}

theorem clean_lineTokens : A.Clean (lineTokens fs) ↔ ∀ f ∈ fs, f.Faithful A := by
  constructor
  · intro clean f member c inside special
    by_contra unescaped
    refine special (clean c ((mem_lineTokens (by simp)).mpr ⟨f, member, ?_⟩))
    exact List.mem_map.mpr ⟨c, inside, if_neg unescaped⟩
  · intro faithful c raw
    obtain ⟨f, member, inside⟩ := (mem_lineTokens (by simp)).mp raw
    obtain ⟨d, here, same⟩ := List.mem_map.mp inside
    split at same
    · cases same
    · next unescaped =>
        cases same
        by_contra special
        exact unescaped (faithful f member c here special)

theorem sparing_lineTokens (special : ∀ f ∈ fs, ∀ c, f.escapes c = true → A.kind c ≠ .plain) :
    A.Sparing (lineTokens fs) := by
  intro c escaped
  obtain ⟨f, member, inside⟩ := (mem_lineTokens (by simp)).mp escaped
  obtain ⟨d, here, same⟩ := List.mem_map.mp inside
  split at same
  · next escapes =>
      cases same
      exact special f member c escapes
  · cases same

def renderFields (A : Alphabet α) (fs : List (Written α)) : List α := A.renderLine (lineTokens fs)

theorem renderTokens :
    f.tokens.flatMap A.renderToken =
      f.text.flatMap fun c => if f.escapes c then [A.escape, c] else [c] := by
  rw [tokens, List.flatMap_map]
  refine List.flatMap_congr fun c _ => ?_
  split <;> rfl

theorem flatMap_lineTokens (fs : List (Written α)) :
    (lineTokens (f :: fs)).flatMap A.renderToken = f.tokens.flatMap A.renderToken ++
      fs.flatMap fun g => A.separator :: g.tokens.flatMap A.renderToken := by
  induction fs generalizing f with
  | nil => simp [lineTokens]
  | cons g fs ih =>
    rw [lineTokens, List.flatMap_append, List.flatMap_cons, ih g, List.flatMap_cons]
    rfl

theorem renderFields_cons (fs : List (Written α)) :
    renderFields A (f :: fs) = f.tokens.flatMap A.renderToken ++
      fs.flatMap (fun g => A.separator :: g.tokens.flatMap A.renderToken) ++ [A.terminator] := by
  rw [renderFields, Alphabet.renderLine, flatMap_lineTokens]

/-- Fields are read back as they are if and only if all their special symbols are escaped. -/
theorem readFields_renderFields_iff (nonempty : fs ≠ [])
    (special : ∀ f ∈ fs, ∀ c, f.escapes c = true → A.kind c ≠ .plain) :
    A.readFields .start (renderFields A fs) = some (fs.map Written.text, []) ↔
      ∀ f ∈ fs, f.Faithful A := by
  rw [← fieldsOf_lineTokens nonempty, ← clean_lineTokens]
  exact Alphabet.readFields_eq_iff (sparing_lineTokens special)

theorem readFields_renderFields (nonempty : fs ≠ [])
    (faithful : ∀ f ∈ fs, f.Faithful A) (rest : List α) :
    A.readFields .start (renderFields A fs ++ rest) = some (fs.map Written.text, rest) := by
  have read := Alphabet.readFields_render (clean_lineTokens.mpr faithful) [] [] rest
  obtain ⟨g, gs, split⟩ := List.exists_cons_of_ne_nil (fieldsOf_ne_nil (lineTokens fs))
  rw [← fieldsOf_lineTokens nonempty]
  simpa [split, Reading.start, renderFields] using read

end Written
end Condor.Lib
