import Condor.Utils.Stdio

/-! `getline_implementation` reads a line in pieces, trims it and joins it with the next one if it
ends with a backslash. What stands at the end of the file without a newline is returned as it is. -/
namespace Condor.Utils.Config
open Condor.Utils

def backslash : UInt8 := 92

/-- White space goes from the end, and then from the beginning. -/
def trim (line : Bytes) : Bytes := (line.reverse.dropWhile isSpace).reverse.dropWhile isSpace

/-- The buffer grows when it is nearly full. -/
def grown (buflen : Nat) (buf : Bytes) : Nat :=
  let len := buflen - buf.length
  if len ≤ 5 then buflen + 4096 else buflen

/-- The loop with what is in the buffer and the offset of `line_ptr` in it: the result, the size
of the buffer, and the rest of the file unless its end was met. -/
def readLogical (buflen : Nat) (buf : Bytes) (line : Nat) (fp : Bytes) :
    Option Bytes × Nat × Option Bytes :=
  let buflen := grown buflen buf
  match _read : fgets (buflen - buf.length - 1) fp with
  | ([], _) => (if buf = [] then none else some buf, buflen, none)
  | (c :: more, rest) =>
    if c = nul then readLogical buflen buf line rest
    else
      let buf := buf ++ (c :: more).takeWhile (· ≠ nul)
      if buf.getLast? ≠ some newline then readLogical buflen buf line rest
      else
        let buf := buf.take line ++ trim (buf.drop line)
        if buf.getLast? = some backslash then
          readLogical buflen buf.dropLast buf.dropLast.length rest
        else (some buf, buflen, some rest)
termination_by fp.length
decreasing_by all_goals exact length_of_fgets _read

theorem length_readLogical {buflen line buflen' : Nat} {buf fp rest : Bytes} {result : Option Bytes}
    (read : readLogical buflen buf line fp = (result, buflen', some rest)) :
    rest.length < fp.length := by
  fun_induction readLogical buflen buf line fp with
  | case1 => simp at read
  | case5 =>
    obtain rfl := Option.some.inj (Prod.mk.inj (Prod.mk.inj read).2).2
    exact length_of_fgets ‹_›
  | case2 | case3 | case4 =>
    rename_i ih
    exact (ih read).trans (length_of_fgets ‹_›)

/-- The lines that the calls of `getline_implementation` return until the first NULL. The buffer
is kept from call to call. -/
def logicalLines (requested buflen : Nat) (fp : Bytes) : List Bytes :=
  match _read : readLogical (max buflen requested) [] 0 fp with
  | (none, _, _) => []
  | (some line, _, none) => [line]
  | (some line, buflen, some rest) => line :: logicalLines requested buflen rest
termination_by fp.length
decreasing_by exact length_readLogical _read

/-! ### Pieces -/

section Pieces
variable {buflen line : Nat} {buf fp rest : Bytes}

/-- `fgets` gets room for some bytes, and they fit. -/
theorem room_grown (room : buf.length < buflen) :
    0 < grown buflen buf - buf.length - 1 ∧
      buf.length + (grown buflen buf - buf.length - 1) < grown buflen buf := by
  simp only [grown]
  split <;> omega

variable {word : Bytes}

theorem fgets_plain (plain : newline ∉ word) (n : Nat) :
    fgets n word = (word.take n, word.drop n) := by
  induction word generalizing n with
  | nil => cases n <;> rfl
  | cons c word ih =>
    simp only [List.mem_cons, not_or] at plain
    cases n with
    | zero => rfl
    | succ n => simp [fgets, Ne.symm plain.1, ih plain.2]

theorem fgets_line (plain : newline ∉ word) (n : Nat) (rest : Bytes) :
    fgets n (word ++ newline :: rest) =
      if word.length < n then (word ++ [newline], rest)
      else (word.take n, word.drop n ++ newline :: rest) := by
  induction word generalizing n with
  | nil => cases n <;> simp [fgets]
  | cons c word ih =>
    simp only [List.mem_cons, not_or] at plain
    cases n with
    | zero => rfl
    | succ n =>
      simp only [List.cons_append, fgets, if_neg (Ne.symm plain.1), ih plain.2]
      by_cases fits : word.length < n <;> simp [fits]

variable {piece : Bytes}

theorem takeWhile_noNul (noNul : nul ∉ piece) :
    piece.takeWhile (· ≠ nul) = piece := by
  refine List.takeWhile_eq_self_iff.mpr fun c inside => decide_eq_true fun same => ?_
  exact noNul (same ▸ inside)

theorem readLogical_piece (read : fgets (grown buflen buf - buf.length - 1) fp = (piece, rest))
    (filled : piece ≠ []) (plain : newline ∉ piece) (noNul : nul ∉ piece) :
    readLogical buflen buf line fp = readLogical (grown buflen buf) (buf ++ piece) line rest := by
  obtain ⟨c, more, rfl⟩ := List.exists_cons_of_ne_nil filled
  have open_ : (buf ++ c :: more).getLast? ≠ some newline := by
    intro last
    rw [List.getLast?_append_of_ne_nil _ filled] at last
    exact plain (List.mem_of_getLast? last)
  have first : c ≠ nul := fun same => noNul (by simp [same])
  rw [readLogical]
  dsimp only
  split
  next empty => cases read.symm.trans empty
  next c' more' rest' got =>
    cases read.symm.trans got
    rw [if_neg first, takeWhile_noNul noNul, if_pos open_]

theorem readLogical_newline
    (read : fgets (grown buflen buf - buf.length - 1) fp = (word ++ [newline], rest))
    (noNul : nul ∉ word) :
    readLogical buflen buf line fp =
      let buf' := (buf ++ (word ++ [newline])).take line ++
        trim ((buf ++ (word ++ [newline])).drop line)
      if buf'.getLast? = some backslash then
        readLogical (grown buflen buf) buf'.dropLast buf'.dropLast.length rest
      else (some buf', grown buflen buf, some rest) := by
  have noNul' : nul ∉ word ++ [newline] := by simp [noNul, (by decide : nul ≠ newline)]
  obtain ⟨c, more, front⟩ := List.exists_cons_of_ne_nil (l := word ++ [newline]) (by simp)
  have ends : (buf ++ c :: more).getLast? = some newline := by
    rw [← front]
    simp
  rw [front] at read noNul' ⊢
  have first : c ≠ nul := fun same => noNul' (by simp [same])
  rw [readLogical]
  dsimp only
  split
  next empty => cases read.symm.trans empty
  next c' more' rest' got =>
    cases read.symm.trans got
    rw [if_neg first, takeWhile_noNul noNul', if_neg (not_not.mpr ends)]

theorem readLogical_take {n : Nat} (line : Nat) (size : grown buflen buf - buf.length - 1 = n)
    (room : buf.length < buflen) (filled : word ≠ []) (plain : newline ∉ word) (noNul : nul ∉ word)
    (read : fgets n fp = (word.take n, rest)) :
    (word.drop n).length < word.length ∧ (buf ++ word.take n).length < grown buflen buf ∧
      readLogical buflen buf line fp =
        readLogical (grown buflen buf) (buf ++ word.take n) line rest := by
  subst size
  obtain ⟨positive, bound⟩ := room_grown room
  have some := List.length_pos_iff.mpr filled
  refine ⟨?_, ?_, readLogical_piece read ?_ (fun inside => plain (List.mem_of_mem_take inside))
    fun inside => noNul (List.mem_of_mem_take inside)⟩
  · rw [List.length_drop]
    omega
  · rw [List.length_append, List.length_take]
    omega
  · rw [← List.length_pos_iff, List.length_take]
    omega

theorem readLogical_end (line : Nat) (room : buf.length < buflen) (plain : newline ∉ word)
    (noNul : nul ∉ word) :
    ∃ k, readLogical buflen buf line word =
      (if buf ++ word = [] then none else some (buf ++ word), k, none) := by
  induction length : word.length using Nat.strong_induction_on generalizing buflen buf word with
  | _ l ih =>
    have read := fgets_plain plain
    by_cases filled : word = []
    · subst filled
      rw [readLogical, List.append_nil]
      dsimp only
      split
      next => exact ⟨_, rfl⟩
      next got => rw [read, List.take_nil] at got; cases got
    · obtain ⟨less, fits, step⟩ := readLogical_take line rfl room filled plain noNul (read _)
      obtain ⟨k, result⟩ := ih _ (length ▸ less) fits
        (fun inside => plain (List.mem_of_mem_drop inside))
        (fun inside => noNul (List.mem_of_mem_drop inside)) rfl
      rw [List.append_assoc, List.take_append_drop] at result
      exact ⟨k, step.trans result⟩

/-- A physical line, of which a part is in the buffer. -/
theorem readLogical_line {base part : Bytes} (room : (base ++ part).length < buflen)
    (plain : newline ∉ word) (noNul : nul ∉ word) (rest : Bytes) :
    ∃ k, (base ++ part ++ word).length < k ∧
      readLogical buflen (base ++ part) base.length (word ++ newline :: rest) =
        let buf' := base ++ trim (part ++ word ++ [newline])
        if buf'.getLast? = some backslash then
          readLogical k buf'.dropLast buf'.dropLast.length rest
        else (some buf', k, some rest) := by
  induction length : word.length using Nat.strong_induction_on generalizing buflen part word with
  | _ l ih =>
    obtain ⟨positive, bound⟩ := room_grown room
    generalize size : grown buflen (base ++ part) - (base ++ part).length - 1 = n at *
    have read := fgets_line plain n rest
    split at read
    next fits =>
      refine ⟨grown buflen (base ++ part), by rw [List.length_append]; omega, ?_⟩
      rw [readLogical_newline (size.symm ▸ read) noNul]
      simp [List.append_assoc]
    next long =>
      have filled : word ≠ [] := by rw [← List.length_pos_iff]; omega
      obtain ⟨less, fits, step⟩ :=
        readLogical_take base.length size room filled plain noNul read
      rw [List.append_assoc] at fits step
      obtain ⟨k, more, result⟩ := ih _ (length ▸ less) fits
        (fun inside => plain (List.mem_of_mem_drop inside))
        (fun inside => noNul (List.mem_of_mem_drop inside)) rfl
      have whole : part ++ word.take n ++ word.drop n = part ++ word := by
        rw [List.append_assoc, List.take_append_drop]
      rw [List.append_assoc base, whole, ← List.append_assoc] at more
      rw [whole] at result
      exact ⟨k, more, step.trans result⟩

end Pieces

/-! ### Lines -/

/-- Physical lines with their newlines, and a last one without. -/
def fileOf (words : List Bytes) (last : Bytes) : Bytes := words.flatMap (· ++ [newline]) ++ last

def joined (buf : Bytes) : List Bytes → Bytes → List Bytes
  | [], last => if buf ++ last = [] then [] else [buf ++ last]
  | word :: words, last =>
    let buf := buf ++ trim word
    if buf.getLast? = some backslash then joined buf.dropLast words last
    else buf :: joined [] words last

theorem trim_newline (word : Bytes) : trim (word ++ [newline]) = trim word := by
  simp [trim, show isSpace newline = true by decide]

theorem length_trim (line : Bytes) : (trim line).length ≤ line.length := by
  have first := (List.dropWhile_sublist (l := line.reverse) isSpace).length_le
  have second := (List.dropWhile_sublist (l := (line.reverse.dropWhile isSpace).reverse)
    isSpace).length_le
  rw [List.length_reverse] at first second
  exact second.trans first

/-- What the calls return after one that ended in this way. -/
def linesOf (requested : Nat) : Option Bytes × Nat × Option Bytes → List Bytes
  | (none, _, _) => []
  | (some line, _, none) => [line]
  | (some line, buflen, some rest) => line :: logicalLines requested buflen rest

theorem logicalLines_eq (requested buflen : Nat) (fp : Bytes) :
    logicalLines requested buflen fp =
      linesOf requested (readLogical (max buflen requested) [] 0 fp) := by
  rw [logicalLines]
  split
  next read => rw [read, linesOf]
  next read => rw [read, linesOf]
  next read => rw [read, linesOf]

section Lines
variable {words : List Bytes} {last : Bytes}

theorem linesOf_readLogical {requested : Nat} (positive : 0 < requested)
    (plain : ∀ word ∈ last :: words, newline ∉ word) (noNul : ∀ word ∈ last :: words, nul ∉ word)
    {buf : Bytes} {buflen : Nat} (room : buf.length < buflen) :
    linesOf requested (readLogical buflen buf buf.length (fileOf words last)) =
      joined buf words last := by
  simp only [List.forall_mem_cons] at plain noNul
  induction words generalizing buf buflen with
  | nil =>
    obtain ⟨k, result⟩ := readLogical_end buf.length room plain.1 noNul.1
    rw [fileOf, List.flatMap_nil, List.nil_append, result, joined]
    split <;> rfl
  | cons word words ih =>
    simp only [List.forall_mem_cons] at plain noNul
    have rest : ∀ {buf : Bytes} {buflen : Nat}, buf.length < buflen → linesOf requested
        (readLogical buflen buf buf.length (fileOf words last)) = joined buf words last :=
      fun room => ih room ⟨plain.1, plain.2.2⟩ ⟨noNul.1, noNul.2.2⟩
    have file : fileOf (word :: words) last = word ++ newline :: fileOf words last := by
      simp [fileOf]
    obtain ⟨k, more, result⟩ := readLogical_line (buf.append_nil.symm ▸ room) plain.2.1
      noNul.2.1 (fileOf words last)
    rw [List.append_nil] at result more
    rw [List.nil_append, trim_newline] at result
    rw [file, result, joined]
    dsimp only
    split
    · have short := length_trim word
      refine rest ?_
      simp only [List.length_dropLast, List.length_append] at more ⊢
      omega
    · rw [linesOf, logicalLines_eq]
      exact congrArg _ (rest (Nat.lt_of_lt_of_le positive (Nat.le_max_right _ _)))

/-- What a newline at the end of the file changes. -/
theorem joined_newline_iff (filled : last ≠ []) (buf : Bytes) :
    joined buf words last = joined buf (words ++ [last]) [] ↔
      trim last = last ∧ last.getLast? ≠ some backslash := by
  induction words generalizing buf with
  | nil =>
    have ends : (buf ++ last).getLast? = last.getLast? :=
      List.getLast?_append_of_ne_nil _ filled
    have before : joined buf [] last = [buf ++ last] := if_neg (by simp [filled])
    rw [before, List.nil_append]
    constructor
    · intro same
      rw [joined] at same
      split at same
      next back =>
        -- a line is continued, so its text is shorter
        have short := length_trim last
        have size := congrArg (fun lines => lines.flatten.length) same
        have some := List.length_pos_iff.mpr filled
        simp only [joined, List.append_nil] at size
        split at size
        all_goals
          simp only [List.flatten_cons, List.flatten_nil, List.append_nil, List.length_append,
            List.length_dropLast, List.length_nil] at size
          omega
      next plain =>
        have text := List.append_cancel_left (List.cons.inj same).1
        rw [← text, ends] at plain
        exact ⟨text.symm, plain⟩
    · rintro ⟨trimmed, plain⟩
      simp [joined, trimmed, ends, plain]
  | cons word words ih =>
    simp only [List.cons_append, joined]
    split
    · exact ih _
    · rw [List.cons.injEq, eq_self, true_and]
      exact ih []

theorem exists_fileOf (fp : Bytes) :
    ∃ words last, fp = fileOf words last ∧ ∀ word ∈ last :: words, newline ∉ word := by
  induction fp with
  | nil => exact ⟨[], [], rfl, by simp⟩
  | cons c fp ih =>
    obtain ⟨words, last, rfl, plain⟩ := ih
    by_cases ends : c = newline
    · exact ⟨[] :: words, last, by simp [fileOf, ends], by simpa using plain⟩
    · cases words with
      | nil => exact ⟨[], c :: last, rfl, by simpa [Ne.symm ends] using plain⟩
      | cons word words =>
        exact ⟨(c :: word) :: words, last, by simp [fileOf],
          by simpa [Ne.symm ends] using plain⟩

end Lines

def lastLine (fp : Bytes) : Bytes := (fp.reverse.takeWhile (· ≠ newline)).reverse

theorem lastLine_fileOf {words : List Bytes} {last : Bytes} (plain : newline ∉ last) :
    lastLine (fileOf words last) = last := by
  have front : last.reverse.takeWhile (· ≠ newline) = last.reverse :=
    List.takeWhile_eq_self_iff.mpr fun c inside => decide_eq_true fun same =>
      plain (List.mem_reverse.mp (same ▸ inside))
  have back : (words.flatMap (· ++ [newline])).reverse.takeWhile (· ≠ newline) = [] := by
    cases words using List.reverseRecOn with
    | nil => rfl
    | append_singleton words word => simp
  rw [lastLine, fileOf, List.reverse_append, List.takeWhile_append, front, back]
  simp

/-- A newline at the end of a file changes nothing iff the last line is not empty, is trimmed
and does not end with a backslash. -/
theorem final_newline_iff (requested : Nat) (positive : 0 < requested) (fp : Bytes)
    (noNul : nul ∉ fp) (open_ : fp.getLast? ≠ some newline) :
    logicalLines requested 0 fp = logicalLines requested 0 (fp ++ [newline]) ↔
      fp ≠ [] ∧ trim (lastLine fp) = lastLine fp ∧ (lastLine fp).getLast? ≠ some backslash := by
  obtain ⟨words, last, rfl, plain⟩ := exists_fileOf fp
  have longer : fileOf words last ++ [newline] = fileOf (words ++ [last]) [] := by simp [fileOf]
  have noNul' : ∀ word ∈ last :: words, nul ∉ word := by
    intro word member inside
    refine noNul (List.mem_append.mpr ?_)
    rcases List.mem_cons.mp member with rfl | member
    · exact Or.inr inside
    · exact Or.inl (List.mem_flatMap.mpr ⟨word, member, by simp [inside]⟩)
  have room : ([] : Bytes).length < max 0 requested := by simpa using positive
  rw [longer, lastLine_fileOf (plain last List.mem_cons_self), logicalLines_eq, logicalLines_eq]
  have each : ∀ {c : UInt8}, (∀ word ∈ last :: words, c ∉ word) →
      ∀ word ∈ [] :: (words ++ [last]), c ∉ word := by
    intro c each word member
    rcases List.mem_cons.mp member with rfl | member
    · exact List.not_mem_nil
    · exact each word (by simpa [or_comm] using member)
  have before := linesOf_readLogical positive plain noNul' room
  have after := linesOf_readLogical positive (each plain) (each noNul') room
  rw [List.length_nil] at before after
  rw [before, after]
  by_cases filled : last = []
  · subst filled
    cases words using List.reverseRecOn with
    | nil => decide
    | append_singleton words word => simp [fileOf] at open_
  · have some : fileOf words last ≠ [] := by simp [fileOf, filled]
    rw [joined_newline_iff filled, iff_true_intro some, true_and]

theorem final_newline_iff_assignment :
    logicalLines 128 0 (ascii "A = 1") = logicalLines 128 0 (ascii "A = 1" ++ [newline]) :=
  (final_newline_iff 128 (by decide) (ascii "A = 1") (by decide) (by decide)).mpr (by decide)

/-- A blank at the end of the file is part of the value, and so is a backslash. -/
theorem end_of_file_untrimmed :
    logicalLines 128 0 (ascii "A = 1 ") = [ascii "A = 1 "] ∧
    logicalLines 128 0 (ascii "A = 1 " ++ [newline]) = [ascii "A = 1"] ∧
    logicalLines 128 0 (ascii "A = 1\\") = [ascii "A = 1\\"] := by
  decide +kernel

end Condor.Utils.Config
