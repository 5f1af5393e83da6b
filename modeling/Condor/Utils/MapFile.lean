import Condor.Utils.Stdio

/-! `MapFile::ParseCanonicalizationFile` reads three fields from each line, each from the offset at
which the one before it ended, and `ParseField` asserts that the offset lies in the line. -/
namespace Condor.Utils.MapFile
open Condor.Utils

def quote : UInt8 := 34
def backslash : UInt8 := 92

def isWhite (c : UInt8) : Bool := c = blank || c = 9 || c = newline

/-- The loop of a field in quotes, over the rest of the line: how far it moves the offset, and
what it adds to the field. -/
def quotedField : Bytes → Nat × Bytes
  | [] => (0, [])
  | c :: rest =>
    if c = quote then (1, [])
    else if c = backslash then
      match rest with
      -- the condition has moved the offset to the end, and the last branch moves it again
      | [] => (2, [nul])
      | d :: rest =>
        let (n, field) := quotedField rest
        (n + 2, (if d = quote then [d] else [c, d]) ++ field)
    else
      let (n, field) := quotedField rest
      (n + 1, c :: field)

/-- The new offset and the field; there is no result if the assertion fails. -/
def parseField (line : Bytes) (offset : Nat) : Option (Nat × Bytes) :=
  if offset ≤ line.length then
    let start := offset + ((line.drop offset).takeWhile isWhite).length
    match line.drop start with
    | [] => some (start, [])
    | c :: rest =>
      if c = quote then some (start + 1 + (quotedField rest).1, (quotedField rest).2)
      else
        let field := (c :: rest).takeWhile (!isWhite ·)
        some (start + field.length, field)
  else none

structure CanonicalMapEntry where
  method : Bytes
  principal : Bytes
  canonicalization : Bytes
  deriving DecidableEq

def parseLine (line : Bytes) : Option CanonicalMapEntry := do
  let (offset, method) ← parseField line 0
  let (offset, principal) ← parseField line offset
  let (_, canonicalization) ← parseField line offset
  return ⟨method.map toLower, principal, canonicalization⟩

/-- `MyString::readLine`, after some pieces of the line: the line, and the rest of the file
unless its end was met. -/
def readLine (line fp : Bytes) : Bytes × Option Bytes :=
  match _piece : fgets 1023 fp with
  | ([], _) => (line, none)
  | (c :: buf, rest) =>
    let line := line ++ (c :: buf).takeWhile (· ≠ nul)
    if line.getLast? = some newline then (line, some rest) else readLine line rest
termination_by fp.length
decreasing_by exact length_of_fgets _piece

variable {line rest : Bytes}

theorem length_readLine {fp line' : Bytes} (read : readLine line fp = (line', some rest)) :
    rest.length < fp.length := by
  fun_induction readLine line fp with
  | case1 => cases read
  | case2 line fp c buf left piece line₁ ends =>
    obtain rfl := Option.some.inj (Prod.mk.inj read).2
    exact length_of_fgets piece
  | case3 line fp c buf left piece line₁ ends ih =>
    exact (ih read).trans (length_of_fgets piece)

def fileLines (fp : Bytes) : List Bytes :=
  match _read : readLine [] fp with
  | (line, none) => [line]
  | (line, some rest) => line :: fileLines rest
termination_by fp.length
decreasing_by exact length_readLine _read

def parseCanonicalizationFile (fp : Bytes) : Option (List CanonicalMapEntry) := do
  let entries ← ((fileLines fp).filter (· ≠ [])).mapM parseLine
  return entries.filter fun e => e.method ≠ [] ∧ e.principal ≠ [] ∧ e.canonicalization ≠ []

def trailingBackslashes (line : Bytes) : Nat := (line.reverse.takeWhile (· = backslash)).length

/-- A quote stands before a last backslash that is not itself behind a backslash. -/
def Torn (line : Bytes) : Prop := quote ∈ line ∧ trailingBackslashes line % 2 = 1

theorem trailing_append {c : UInt8} (other : c ≠ backslash) (front rest : Bytes) :
    trailingBackslashes (front ++ c :: rest) = trailingBackslashes rest := by
  simp only [trailingBackslashes, List.reverse_append, List.reverse_cons, List.append_assoc,
    List.singleton_append, List.takeWhile_append, List.takeWhile_cons, other, decide_false]
  split <;> simp_all

theorem trailing_pair (d : UInt8) (rest : Bytes) :
    trailingBackslashes (backslash :: d :: rest) % 2 = trailingBackslashes rest % 2 := by
  by_cases other : d = backslash
  · subst other
    simp only [trailingBackslashes, List.reverse_cons, List.append_assoc, List.takeWhile_append]
    split <;> simp_all
  · exact congrArg (· % 2) (trailing_append other [backslash] rest)

theorem quotedField_le (even : trailingBackslashes rest % 2 = 0) :
    (quotedField rest).1 ≤ rest.length := by
  fun_induction quotedField rest with
  | case1 => simp
  | case2 rest => simp
  | case3 => cases even
  | case4 notQuote d rest n field result ih =>
    rw [trailing_pair] at even
    have := ih even
    simp_all
  | case5 c rest notQuote other n field result ih =>
    rw [← List.nil_append (c :: rest), trailing_append other] at even
    have := ih even
    simp_all

theorem quotedField_torn (open_ : quote ∉ rest) (odd : trailingBackslashes rest % 2 = 1) :
    (quotedField rest).1 = rest.length + 1 := by
  fun_induction quotedField rest with
  | case1 => cases odd
  | case2 rest => simp at open_
  | case3 => rfl
  | case4 notQuote d rest n field result ih =>
    rw [trailing_pair] at odd
    have := ih (fun inside => open_ (by simp [inside])) odd
    simp_all
  | case5 c rest notQuote other n field result ih =>
    rw [← List.nil_append (c :: rest), trailing_append other] at odd
    have := ih (fun inside => open_ (by simp [inside])) odd
    simp_all

theorem parseField_inside (whole : ¬ Torn line) {offset : Nat} (inside : offset ≤ line.length) :
    ∃ r field, parseField line offset = some (r, field) ∧ offset ≤ r ∧ r ≤ line.length := by
  set start := offset + ((line.drop offset).takeWhile isWhite).length with start_eq
  have startInside : start ≤ line.length := by
    have := (List.takeWhile_sublist (l := line.drop offset) isWhite).length_le
    rw [List.length_drop] at this
    omega
  have size := List.length_drop (i := start) (l := line)
  simp only [parseField, if_pos inside, ← start_eq]
  cases rest_eq : line.drop start with
  | nil => exact ⟨_, _, rfl, by omega, startInside⟩
  | cons c rest =>
    rw [rest_eq, List.length_cons] at size
    by_cases quoted : c = quote
    · subst quoted
      have split : line.take start ++ quote :: rest = line := by
        rw [← rest_eq, List.take_append_drop]
      have even : trailingBackslashes rest % 2 = 0 := by
        rw [← trailing_append (by decide : quote ≠ backslash) (line.take start), split]
        have member : quote ∈ line := by rw [← split]; simp
        exact Nat.mod_two_ne_one.mp fun odd => whole ⟨member, odd⟩
      have bound := quotedField_le even
      exact ⟨_, _, if_pos rfl, by omega, by omega⟩
    · have bound := (List.takeWhile_sublist (l := c :: rest) (!isWhite ·)).length_le
      rw [List.length_cons] at bound
      exact ⟨_, _, if_neg quoted, by omega, by omega⟩

/-- From its last quote on, a torn line is one field that ends behind the line. -/
theorem parseField_torn (torn : Torn line) :
    ∃ offset ≤ line.length, ∃ field, parseField line offset = some (line.length + 1, field) := by
  obtain ⟨quoted, odd⟩ := torn
  obtain ⟨rest, front, reversed, last⟩ := List.eq_append_cons_of_mem (List.mem_reverse.mpr quoted)
  have split : line = front.reverse ++ quote :: rest.reverse := by
    rw [← List.reverse_reverse line, reversed]
    simp
  rw [split, trailing_append (by decide)] at odd
  have far := quotedField_torn (by simpa using last) odd
  refine ⟨front.reverse.length, by simp [split], (quotedField rest.reverse).2, ?_⟩
  have here : (front.reverse ++ quote :: rest.reverse).drop front.reverse.length =
      quote :: rest.reverse := List.drop_left
  have notWhite : (quote :: rest.reverse).takeWhile isWhite = [] := rfl
  simp only [split, parseField, here, notWhite, List.length_nil, Nat.add_zero, if_true, far]
  rw [if_pos (by simp)]
  simp
  omega

theorem parseLine_isSome (whole : ¬ Torn line) : (parseLine line).isSome := by
  obtain ⟨first, method, read₁, -, inside₁⟩ := parseField_inside whole (Nat.zero_le _)
  obtain ⟨second, principal, read₂, -, inside₂⟩ := parseField_inside whole inside₁
  obtain ⟨third, canonicalization, read₃, -⟩ := parseField_inside whole inside₂
  simp [parseLine, read₁, read₂, read₃]

theorem mapM_isSome {α β : Type} {f : α → Option β} {l : List α}
    (each : ∀ a ∈ l, (f a).isSome) : (l.mapM f).isSome := by
  induction l with
  | nil => rfl
  | cons a l ih =>
    obtain ⟨b, first⟩ := Option.isSome_iff_exists.mp (each a List.mem_cons_self)
    have others := ih fun a inside => each a (List.mem_cons_of_mem _ inside)
    obtain ⟨bs, rest⟩ := Option.isSome_iff_exists.mp others
    simp [first, rest]

/-- The offsets of a line, and the assertions of a whole file. -/
theorem parseField_inside_iff (line fp : Bytes) :
    ((∀ offset ≤ line.length, ∃ r field, parseField line offset = some (r, field) ∧
      offset ≤ r ∧ r ≤ line.length) ↔ ¬ Torn line) ∧
    ((∀ line ∈ fileLines fp, ¬ Torn line) → (parseCanonicalizationFile fp).isSome) := by
  refine ⟨⟨fun each torn => ?_, fun whole offset inside => parseField_inside whole inside⟩,
    fun whole => ?_⟩
  · obtain ⟨offset, inside, field, far⟩ := parseField_torn torn
    obtain ⟨r, field', near, -, bound⟩ := each offset inside
    rw [far] at near
    cases near
    omega
  · have each : (((fileLines fp).filter (· ≠ [])).mapM parseLine).isSome :=
      mapM_isSome fun line read => parseLine_isSome (whole line (List.mem_of_mem_filter read))
    obtain ⟨entries, parsed⟩ := Option.isSome_iff_exists.mp each
    rw [parseCanonicalizationFile, parsed]
    rfl

/-- A file with the one line `GSI "a\`, which ends without a newline. -/
theorem last_backslash_asserts :
    parseField (ascii "GSI \"a\\") 3 = some (8, ascii "a" ++ [nul]) ∧
      parseCanonicalizationFile (ascii "GSI \"a\\") = none := by
  decide +kernel

end Condor.Utils.MapFile
