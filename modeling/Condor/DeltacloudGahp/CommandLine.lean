import Mathlib.Data.Bool.AllAny
import Condor.Lib.Fields

/-! The gridmanager writes a command as one line of escaped arguments. `PipeBuffer::GetNextLine`
collects chunks until one holds the end of a line, and `parse_gahp_command` splits the line. -/
namespace Condor.DeltacloudGahp
open Condor.Lib

def escapeGahpString (input : List Char) : List Char :=
  input.flatMap fun c =>
    if c = ' ' ∨ c = '\\' ∨ c = '\r' ∨ c = '\n' then ['\\', c] else [c]

/-- `GahpServer::write_line`; `args` is NULL for a command without arguments. -/
def writeLine (command : List Char) (req : Int) (args : Option (List Char)) : List Char :=
  command ++ (' ' :: (toString req).toList ++ (if args.isSome then [' '] else [])) ++
    args.getD [] ++ ['\r', '\n']

def joinArgs : List (List Char) → List Char
  | [] => []
  | [a] => escapeGahpString a
  | a :: b :: rest => escapeGahpString a ++ ' ' :: joinArgs (b :: rest)

def endsArgument (c : Char) : Bool := c = ' ' ∨ c = '\t' ∨ c = '\r' ∨ c = '\n'

/-- A command with its request id and arguments. Its name is a word. -/
structure Command where
  name : List Char
  reqId : Int
  args : List (List Char)
  named : name ≠ []
  word : ∀ c ∈ name, c ≠ '\\' ∧ endsArgument c = false

def Command.line (c : Command) : List Char :=
  writeLine c.name c.reqId (if c.args = [] then none else some (joinArgs c.args))

def Command.argv (c : Command) : List (List Char) :=
  c.name :: (toString c.reqId).toList :: c.args

/-- The loop of `GetNextLine` over one chunk: a completed line with what the chunk holds
beyond it, or `buffer` and `last_char_was_escape` for the next chunk. -/
def scanChunk (buffer : List Char) (lastCharWasEscape : Bool) :
    List Char → (List Char × List Char) ⊕ (List Char × Bool)
  | [] => .inr (buffer, lastCharWasEscape)
  | c :: rest =>
    if c = '\n' ∧ lastCharWasEscape = false then .inl (buffer, rest)
    else if c = '\r' ∧ lastCharWasEscape = false then scanChunk buffer lastCharWasEscape rest
    else scanChunk (buffer ++ [c]) (if c = '\\' then !lastCharWasEscape else false) rest

/-- `PipeBuffer::GetNextLine` on the chunks that `read` returns: the line and the chunks
that are left. The part of the chunk after the line is dropped. -/
def getNextLine (buffer : List Char) (lastCharWasEscape : Bool) :
    List (List Char) → Option (List Char × List (List Char))
  | [] => none
  | chunk :: chunks =>
    match scanChunk buffer lastCharWasEscape chunk with
    | .inl (line, _) => some (line, chunks)
    | .inr (buffer, lastCharWasEscape) => getNextLine buffer lastCharWasEscape chunks

/-- `parse_gahp_command` from the middle of a command: the arguments so far, the one in
`buff`, and `in_escape`. -/
def parseFrom (args : List (List Char)) (buff : List Char) (inEscape : Bool) :
    List Char → List (List Char)
  | [] => args ++ [buff]
  | c :: raw =>
    if inEscape then parseFrom args (buff ++ [c]) false raw
    else if c = '\\' then parseFrom args buff true raw
    else if endsArgument c then parseFrom (args ++ [buff]) [] false raw
    else parseFrom args (buff ++ [c]) false raw

def parseGahpCommand (raw : List Char) : List (List Char) := parseFrom [] [] false raw

/-- The results of successive calls until `GetNextLine` returns NULL; every call takes at
least one chunk. -/
def readCommands : Nat → List (List Char) → List (List (List Char))
  | 0, _ => []
  | calls + 1, chunks =>
    match getNextLine [] false chunks with
    | none => []
    | some (line, rest) => parseGahpCommand line :: readCommands calls rest

def commandFormat : Alphabet Char where
  kind c :=
    if c = '\\' then .escape
    else if c = '\r' then .skip
    else if c = ' ' ∨ c = '\t' then .separator
    else if c = '\n' then .terminator
    else .plain
  escape := '\\'
  separator := ' '
  terminator := '\n'
  kind_escape := rfl
  kind_separator := rfl
  kind_terminator := rfl

/-! ## The two readers are the reader of the format -/

theorem scanChunk_append (buffer : List Char) (escape : Bool) (xs ys : List Char) :
    scanChunk buffer escape (xs ++ ys) =
      match scanChunk buffer escape xs with
      | .inl (line, rest) => .inl (line, rest ++ ys)
      | .inr (buffer, escape) => scanChunk buffer escape ys := by
  induction xs generalizing buffer escape with
  | nil => rfl
  | cons c xs ih =>
    simp only [List.cons_append, scanChunk]
    split
    · rfl
    · split <;> exact ih _ _

/-- The line that is scanned parses to the fields that the format reads. -/
theorem readFields_scanChunk (buffer : List Char) (r : Reading Char)
    (agree : ∀ raw, parseGahpCommand (buffer ++ raw) = parseFrom r.fields r.current r.escaped raw)
    (cs : List Char) :
    commandFormat.readFields r cs =
      match scanChunk buffer r.escaped cs with
      | .inl (line, rest) => some (parseGahpCommand line, rest)
      | .inr _ => none := by
  induction cs generalizing buffer r with
  | nil => rfl
  | cons c cs ih =>
    obtain ⟨fields, current, escaped⟩ := r
    have appended : ∀ raw, parseGahpCommand (buffer ++ [c] ++ raw) =
        parseFrom fields current escaped (c :: raw) := by
      intro raw
      rw [List.append_assoc]
      exact agree (c :: raw)
    cases escaped with
    | true =>
      have scanned : scanChunk buffer true (c :: cs) = scanChunk (buffer ++ [c]) false cs := by
        simp [scanChunk]
      rw [Alphabet.readFields, scanned]
      exact ih _ ⟨fields, current ++ [c], false⟩ appended
    | false =>
      by_cases escape : c = '\\'
      · subst escape
        exact ih _ ⟨fields, current, true⟩ appended
      by_cases skip : c = '\r'
      · subst skip
        exact ih _ _ agree
      by_cases newline : c = '\n'
      · subst newline
        have whole := agree []
        rw [List.append_nil] at whole
        change some (fields ++ [current], cs) = some (parseGahpCommand buffer, cs)
        rw [whole]
        rfl
      have scanned : scanChunk buffer false (c :: cs) = scanChunk (buffer ++ [c]) false cs := by
        simp [scanChunk, escape, skip, newline]
      rw [Alphabet.readFields, scanned]
      by_cases blank : c = ' ' ∨ c = '\t'
      · have kind : commandFormat.kind c = .separator := by
          simp [commandFormat, escape, skip, blank]
        have ends : endsArgument c = true := by
          rcases blank with rfl | rfl <;> rfl
        simp only [kind, Bool.false_eq_true, if_false]
        refine ih _ ⟨fields ++ [current], [], false⟩ fun raw => ?_
        rw [appended, parseFrom]
        simp only [Bool.false_eq_true, if_false, escape, ends, if_true]
      · have kind : commandFormat.kind c = .plain := by
          simp [commandFormat, escape, skip, blank, newline]
        rw [not_or] at blank
        have goes : endsArgument c = false := by
          simp [endsArgument, blank, skip, newline]
        simp only [kind, Bool.false_eq_true, if_false]
        refine ih _ ⟨fields, current ++ [c], false⟩ fun raw => ?_
        rw [appended, parseFrom]
        simp only [Bool.false_eq_true, if_false, escape, goes]

theorem readFields_flatten (chunks : List (List Char)) :
    commandFormat.readFields .start chunks.flatten =
      match scanChunk [] false chunks.flatten with
      | .inl (line, rest) => some (parseGahpCommand line, rest)
      | .inr _ => none :=
  readFields_scanChunk [] .start (fun _ => rfl) chunks.flatten

variable {chunks : List (List Char)}
variable {buffer : List Char} {escape : Bool}
variable {rest : List Char} {cs : List Command} {calls : Nat}

theorem getNextLine_of_line {line : List Char}
    (scanned : scanChunk buffer escape chunks.flatten = .inl (line, rest)) :
    ∃ group post lost, chunks = group ++ post ∧ group ≠ [] ∧
      getNextLine buffer escape chunks = some (line, post) ∧ rest = lost ++ post.flatten := by
  induction chunks generalizing buffer escape with
  | nil => cases scanned
  | cons chunk chunks ih =>
    rw [List.flatten_cons, scanChunk_append] at scanned
    rw [getNextLine]
    cases here : scanChunk buffer escape chunk with
    | inl found =>
      rw [here] at scanned
      cases scanned
      exact ⟨[chunk], chunks, found.2, rfl, List.cons_ne_nil _ _, rfl, rfl⟩
    | inr state =>
      rw [here] at scanned
      obtain ⟨group, post, lost, split, -, found, left⟩ := ih scanned
      exact ⟨chunk :: group, post, lost, by rw [split]; rfl, List.cons_ne_nil _ _, found, left⟩

theorem getNextLine_of_more {state : List Char × Bool}
    (scanned : scanChunk buffer escape chunks.flatten = .inr state) :
    getNextLine buffer escape chunks = none := by
  induction chunks generalizing buffer escape with
  | nil => rfl
  | cons chunk chunks ih =>
    rw [List.flatten_cons, scanChunk_append] at scanned
    rw [getNextLine]
    cases here : scanChunk buffer escape chunk with
    | inl found =>
      rw [here] at scanned
      cases scanned
    | inr state =>
      rw [here] at scanned
      exact ih scanned

theorem getNextLine_of_readFields {fields : List (List Char)}
    (read : commandFormat.readFields .start chunks.flatten = some (fields, rest)) :
    ∃ line group post lost, chunks = group ++ post ∧ group ≠ [] ∧
      getNextLine [] false chunks = some (line, post) ∧ parseGahpCommand line = fields ∧
      rest = lost ++ post.flatten := by
  rw [readFields_flatten] at read
  cases found : scanChunk [] false chunks.flatten with
  | inl result =>
    rw [found] at read
    obtain ⟨group, post, lost, split, nonempty, next, left⟩ := getNextLine_of_line found
    cases read
    exact ⟨_, group, post, lost, split, nonempty, next, rfl, left⟩
  | inr state =>
    rw [found] at read
    cases read

theorem getNextLine_eq_none (read : commandFormat.readFields .start chunks.flatten = none) :
    getNextLine [] false chunks = none := by
  rw [readFields_flatten] at read
  cases found : scanChunk [] false chunks.flatten with
  | inl result =>
    rw [found] at read
    cases read
  | inr state => exact getNextLine_of_more found

/-! ## Nothing is gained from lost bytes -/

def total (commands : List (List (List Char))) : Nat := (commands.map Alphabet.size).sum

theorem total_readCommands_le (calls : Nat) (chunks : List (List Char)) :
    total (readCommands calls chunks) ≤ commandFormat.weight false chunks.flatten := by
  induction calls generalizing chunks with
  | zero => exact Nat.zero_le _
  | succ calls ih =>
    rw [readCommands]
    cases read : commandFormat.readFields .start chunks.flatten with
    | none =>
      rw [getNextLine_eq_none read]
      exact Nat.zero_le _
    | some result =>
      obtain ⟨fields, rest⟩ := result
      obtain ⟨line, group, post, lost, -, -, next, parsed, left⟩ :=
        getNextLine_of_readFields read
      have weighed := Alphabet.weight_readFields read
      simp only [Reading.start, Alphabet.size_nil, List.length_nil] at weighed
      have kept : commandFormat.weight false post.flatten ≤
          commandFormat.weight false rest := by
        rw [left]
        exact Alphabet.weight_le_append false lost post.flatten
      have later := ih post
      rw [next]
      simp only [total, List.map_cons, List.sum_cons, parsed] at later ⊢
      omega

/-! ## The lines of commands -/

def escaped (c : Char) : Bool := c = ' ' ∨ c = '\\' ∨ c = '\r' ∨ c = '\n'

namespace Command
variable (c : Command)

def fields : List (Written Char) := c.argv.map (Written.mk escaped)

theorem fields_eq : c.fields =
    ⟨escaped, c.name⟩ :: ⟨escaped, (toString c.reqId).toList⟩ ::
      c.args.map (Written.mk escaped) := rfl

theorem renderTokens_escaped (a : List Char) :
    (Written.mk escaped a).tokens.flatMap commandFormat.renderToken = escapeGahpString a := by
  rw [Written.renderTokens, escapeGahpString]
  simp only [escaped, decide_eq_true_eq]
  rfl

theorem joinArgs_cons (a : List Char) (as : List (List Char)) :
    joinArgs (a :: as) = escapeGahpString a ++ as.flatMap fun b => ' ' :: escapeGahpString b := by
  induction as generalizing a with
  | nil => simp [joinArgs]
  | cons b as ih => rw [joinArgs, ih b, List.flatMap_cons, List.cons_append]

variable {a : List Char}

theorem escapeGahpString_plain (plain : ∀ c ∈ a, escaped c = false) :
    escapeGahpString a = a := by
  have same : ∀ c ∈ a,
      (if c = ' ' ∨ c = '\\' ∨ c = '\r' ∨ c = '\n' then ['\\', c] else [c]) = [c] :=
    fun c member => if_neg (of_decide_eq_false (plain c member))
  rw [escapeGahpString, List.flatMap_congr same]
  simp

theorem name_plain : ∀ d ∈ c.name, commandFormat.kind d = .plain := by
  intro d member
  obtain ⟨escape, goes⟩ := c.word d member
  simp only [endsArgument, decide_eq_false_iff_not, not_or] at goes
  simp [commandFormat, escape, goes]

theorem reqId_plain : ∀ d ∈ (toString c.reqId).toList, commandFormat.kind d = .plain := by
  have digits : ∀ n : Nat, ∀ d ∈ (toString n).toList, d.isDigit = true := by
    intro n d member
    have inDigits : d ∈ Nat.toDigits 10 n := by simpa using member
    exact Nat.isDigit_of_mem_toDigits (by decide) (by decide) inDigits
  have plain : ∀ d : Char, d.isDigit = true → commandFormat.kind d = .plain := by
    intro d digit
    have apart : d ≠ '\\' ∧ d ≠ '\r' ∧ d ≠ ' ' ∧ d ≠ '\t' ∧ d ≠ '\n' := by
      refine ⟨?_, ?_, ?_, ?_, ?_⟩ <;> rintro rfl <;> cases digit
    simp [commandFormat, apart]
  intro d member
  cases id : c.reqId with
  | ofNat n =>
    rw [id] at member
    exact plain d (digits n d member)
  | negSucc n =>
    rw [id] at member
    have text : toString (Int.negSucc n) = "-" ++ toString (n + 1) := rfl
    have signed : d ∈ '-' :: (toString (n + 1)).toList := by
      rw [text, String.toList_append] at member
      exact member
    rcases List.mem_cons.mp signed with rfl | digit
    · rfl
    · exact plain d (digits _ d digit)

theorem line_eq : c.line =
    (Written.lineTokens c.fields).flatMap commandFormat.renderToken ++ ['\r', '\n'] := by
  have unescaped : ∀ a : List Char, (∀ d ∈ a, commandFormat.kind d = .plain) →
      escapeGahpString a = a := by
    intro a plain
    refine escapeGahpString_plain fun d member => decide_eq_false ?_
    rintro (rfl | rfl | rfl | rfl) <;> cases plain _ member
  have separator : commandFormat.separator = ' ' := rfl
  rw [fields_eq, Written.flatMap_lineTokens, List.flatMap_cons, List.flatMap_map]
  simp only [renderTokens_escaped, unescaped _ c.name_plain, unescaped _ c.reqId_plain, separator]
  unfold line writeLine
  cases c.args with
  | nil => simp
  | cons a as => simp [joinArgs_cons]

theorem tame : commandFormat.Tame (Written.lineTokens c.fields) := by
  intro d raw
  obtain ⟨f, member, inside⟩ := (Written.mem_lineTokens (by simp)).mp raw
  obtain ⟨a, -, rfl⟩ := List.mem_map.mp member
  obtain ⟨e, -, same⟩ := List.mem_map.mp inside
  split at same
  · cases same
  · next unescaped =>
      cases same
      simp only [escaped, decide_eq_true_eq, not_or] at unescaped
      by_cases tab : d = '\t'
      · exact .inr (by rw [tab]; rfl)
      · exact .inl (by simp [commandFormat, unescaped, tab])

theorem escapes_special :
    ∀ f ∈ c.fields, ∀ d, f.escapes d = true → commandFormat.kind d ≠ .plain := by
  intro f member d escapes
  obtain ⟨a, -, rfl⟩ := List.mem_map.mp member
  rcases of_decide_eq_true escapes with rfl | rfl | rfl | rfl <;> decide

def Untabbed : Prop := ∀ a ∈ c.args, '\t' ∉ a

theorem faithful_of_plain (plain : ∀ d ∈ a, commandFormat.kind d = .plain) :
    (Written.mk escaped a).Faithful commandFormat :=
  fun d member special => absurd (plain d member) special

theorem faithful_iff : (∀ f ∈ c.fields, f.Faithful commandFormat) ↔ c.Untabbed := by
  rw [fields_eq, List.forall_mem_cons, List.forall_mem_cons, List.forall_mem_map,
    and_iff_right (faithful_of_plain c.name_plain), and_iff_right (faithful_of_plain c.reqId_plain)]
  refine forall₂_congr fun a _ => ?_
  constructor
  · intro faithful tab
    cases faithful '\t' tab (by decide)
  · intro untabbed d member special
    by_contra unescaped
    simp only [escaped, decide_eq_true_eq, not_or] at unescaped
    have tab : d ≠ '\t' := fun same => untabbed (same ▸ member)
    exact special (by simp [commandFormat, unescaped, tab])

/-- A command line is read to its end, and as it was meant if and only if it has no tab. -/
theorem readFields_line : ∃ seen, (∀ rest,
    commandFormat.readFields .start (c.line ++ rest) = some (seen, rest)) ∧
      Alphabet.size seen ≤ Alphabet.size c.argv ∧ (seen = c.argv ↔ c.Untabbed) := by
  obtain ⟨fields', current', read⟩ := Alphabet.readFields_tame c.tame [] []
  have nonempty : c.fields ≠ [] := List.cons_ne_nil _ _
  have texts : c.fields.map Written.text = c.argv := by
    rw [fields, List.map_map]
    exact List.map_id c.argv
  have whole : commandFormat.readFields .start (Written.renderFields commandFormat c.fields) =
      some (fields' ++ [current'], []) := read ['\n']
  refine ⟨fields' ++ [current'], fun rest => ?_, ?_, ?_⟩
  · rw [line_eq, List.append_assoc]
    exact read _
  · have weighed := Alphabet.weight_readFields whole
    have light := (Alphabet.weight_renderLine (Written.sparing_lineTokens c.escapes_special)).1
    rw [Written.fieldsOf_lineTokens nonempty, texts] at light
    simp only [Reading.start, Alphabet.size_nil, List.length_nil, Alphabet.weight] at weighed
    change 0 + 2 * 0 + commandFormat.weight false (commandFormat.renderLine _) = _ at weighed
    omega
  · rw [← c.faithful_iff, ← Written.readFields_renderFields_iff nonempty c.escapes_special, whole,
      texts, Option.some.injEq, Prod.mk.injEq, and_iff_left rfl]

theorem line_head : ∃ d rest, c.line = d :: rest ∧ commandFormat.kind d = .plain := by
  obtain ⟨d, name, split⟩ := List.exists_cons_of_ne_nil c.named
  obtain ⟨rest, text⟩ : ∃ rest, c.line = c.name ++ rest :=
    ⟨_, by rw [line, writeLine, List.append_assoc, List.append_assoc]⟩
  refine ⟨d, name ++ rest, ?_, c.name_plain d (split ▸ List.mem_cons_self)⟩
  rw [text, split, List.cons_append]

end Command

theorem weight_stream_le (cs : List Command) :
    commandFormat.weight false (cs.flatMap Command.line) ≤ total (cs.map Command.argv) := by
  induction cs with
  | nil => exact Nat.le_refl 0
  | cons c cs ih =>
    obtain ⟨seen, read, light, -⟩ := c.readFields_line
    have weighed := Alphabet.weight_readFields (read (cs.flatMap Command.line))
    simp only [Reading.start, Alphabet.size_nil, List.length_nil] at weighed
    simp only [total, List.flatMap_cons, List.map_cons, List.sum_cons] at ih ⊢
    omega

/-- The chunks end where the lines end. -/
def Aligned (chunks : List (List Char)) (cs : List Command) : Prop :=
  ∃ groups : List (List (List Char)), groups.flatten = chunks ∧
    groups.map List.flatten = cs.map Command.line

theorem aligned_of_read (enough : chunks.length ≤ calls) (nonempty : ∀ k ∈ chunks, k ≠ [])
    (stream : chunks.flatten = cs.flatMap Command.line)
    (read : readCommands calls chunks = cs.map Command.argv) :
    (∀ c ∈ cs, c.Untabbed) ∧ Aligned chunks cs := by
  induction cs generalizing calls chunks with
  | nil =>
    have empty : chunks = [] := by
      cases chunks with
      | nil => rfl
      | cons k chunks =>
        rw [List.flatten_cons, List.flatMap_nil, List.append_eq_nil_iff] at stream
        exact absurd stream.1 (nonempty k List.mem_cons_self)
    exact ⟨nofun, [], empty.symm, rfl⟩
  | cons c cs ih =>
    obtain ⟨seen, whole, -, exactly⟩ := c.readFields_line
    have first := whole (cs.flatMap Command.line)
    rw [← List.flatMap_cons, ← stream] at first
    obtain ⟨line, group, post, lost, split, some_, next, parsed, left⟩ :=
      getNextLine_of_readFields first
    have fewer : post.length + 1 ≤ chunks.length := by
      have one := List.length_pos_of_ne_nil some_
      rw [split, List.length_append]
      omega
    cases calls with
    | zero => omega
    | succ calls =>
      rw [readCommands, next, List.map_cons] at read
      obtain ⟨same, later⟩ := List.cons_eq_cons.mp read
      -- A lost part would start with a symbol that counts.
      have kept : lost = [] := by
        by_contra something
        obtain ⟨d, lost', rfl⟩ := List.exists_cons_of_ne_nil something
        cases cs with
        | nil => cases left
        | cons c' cs =>
          obtain ⟨e, rest, head, plain⟩ := c'.line_head
          have light := weight_stream_le (c' :: cs)
          have read_le := total_readCommands_le calls post
          have counts : 2 + commandFormat.weight false post.flatten ≤
              commandFormat.weight false ((c' :: cs).flatMap Command.line) := by
            have begins : e = d := by
              rw [List.flatMap_cons, head] at left
              exact (List.cons_eq_cons.mp left).1
            rw [left, List.cons_append, ← begins]
            simp only [Alphabet.weight, plain]
            have rest_le := Alphabet.weight_le_append (A := commandFormat) false lost'
              post.flatten
            omega
          rw [later] at read_le
          omega
      subst kept
      rw [List.nil_append] at left
      have here : group.flatten = c.line := by
        rw [split, List.flatten_append, List.flatMap_cons, ← left] at stream
        exact List.append_cancel_right stream
      have others : ∀ k ∈ post, k ≠ [] :=
        fun k member => nonempty k (split ▸ List.mem_append_right group member)
      obtain ⟨untabbed, groups, chunked, lines⟩ := ih (by omega) others left.symm later
      refine ⟨List.forall_mem_cons.mpr ⟨exactly.mp (parsed.symm.trans same), untabbed⟩,
        group :: groups, ?_, ?_⟩
      · rw [List.flatten_cons, chunked, split]
      · rw [List.map_cons, List.map_cons, lines, here]

theorem getNextLine_exact {group : List (List Char)} {line : List Char}
    (nonempty : ∀ k ∈ group, k ≠ [])
    (scanned : scanChunk buffer escape group.flatten = .inl (line, [])) (post : List (List Char)) :
    getNextLine buffer escape (group ++ post) = some (line, post) := by
  induction group generalizing buffer escape with
  | nil => cases scanned
  | cons chunk group ih =>
    rw [List.flatten_cons, scanChunk_append] at scanned
    rw [List.cons_append, getNextLine]
    cases here : scanChunk buffer escape chunk with
    | inl found =>
      obtain ⟨l, u⟩ := found
      rw [here] at scanned
      simp only [Sum.inl.injEq, Prod.mk.injEq, List.append_eq_nil_iff] at scanned
      obtain ⟨rfl, -, done⟩ := scanned
      cases group with
      | nil => rfl
      | cons k group =>
        rw [List.flatten_cons, List.append_eq_nil_iff] at done
        exact absurd done.1 (nonempty k (List.mem_cons_of_mem _ List.mem_cons_self))
    | inr state =>
      rw [here] at scanned
      exact ih (fun k member => nonempty k (List.mem_cons_of_mem _ member)) scanned

theorem read_of_aligned (enough : chunks.length ≤ calls) (nonempty : ∀ k ∈ chunks, k ≠ [])
    (untabbed : ∀ c ∈ cs, c.Untabbed) (aligned : Aligned chunks cs) :
    readCommands calls chunks = cs.map Command.argv := by
  induction cs generalizing calls chunks with
  | nil =>
    obtain ⟨groups, rfl, lines⟩ := aligned
    rw [List.map_nil, List.map_eq_nil_iff] at lines
    subst lines
    cases calls <;> rfl
  | cons c cs ih =>
    obtain ⟨groups, chunked, lines⟩ := aligned
    cases groups with
    | nil => cases lines
    | cons group groups =>
      rw [List.map_cons, List.map_cons, List.cons_eq_cons] at lines
      rw [List.flatten_cons] at chunked
      obtain ⟨seen, whole, -, exactly⟩ := c.readFields_line
      have read := whole []
      rw [List.append_nil, ← lines.1, readFields_flatten] at read
      have mine : ∀ k ∈ group, k ≠ [] :=
        fun k member => nonempty k (chunked ▸ List.mem_append_left _ member)
      cases scanned : scanChunk [] false group.flatten with
      | inr state =>
        rw [scanned] at read
        cases read
      | inl found =>
        rw [scanned] at read
        obtain ⟨parsed, ended⟩ := Prod.mk.inj (Option.some.inj read)
        have next := getNextLine_exact mine (scanned.trans (by rw [← ended])) groups.flatten
        rw [chunked] at next
        have fewer : groups.flatten.length + 1 ≤ chunks.length := by
          have one : group ≠ [] := by
            rintro rfl
            obtain ⟨d, rest, head, -⟩ := c.line_head
            rw [head] at lines
            cases lines.1
          have positive := List.length_pos_of_ne_nil one
          rw [← chunked, List.length_append]
          omega
        cases calls with
        | zero => omega
        | succ calls =>
          have seen_eq := exactly.mpr (untabbed c List.mem_cons_self)
          rw [readCommands, next, List.map_cons]
          simp only
          rw [parsed, seen_eq, ih (by omega)
            (fun k member => nonempty k (chunked ▸ List.mem_append_right _ member))
            (fun c member => untabbed c (List.mem_cons_of_mem _ member))
            ⟨groups, rfl, lines.2⟩]

/-- The GAHP sees the commands that were sent, whatever the chunks of the pipe, exactly if
no argument contains a tab and every line ends where a chunk ends. -/
theorem commands_read_iff (cs : List Command) (chunks : List (List Char))
    (nonempty : ∀ k ∈ chunks, k ≠ []) (stream : chunks.flatten = cs.flatMap Command.line) :
    readCommands chunks.length chunks = cs.map Command.argv ↔
      (∀ c ∈ cs, c.Untabbed) ∧ Aligned chunks cs :=
  ⟨aligned_of_read (Nat.le_refl _) nonempty stream,
    fun ⟨untabbed, aligned⟩ => read_of_aligned (Nat.le_refl _) nonempty untabbed aligned⟩

def statusCommand : Command where
  name := "DELTACLOUD_VM_STATUS".toList
  reqId := 2
  args := ["http://cloud".toList, "user".toList, "/pass word".toList, "i 7".toList]
  named := by decide
  word := List.all_iff_forall_prop.mp (by decide)

def stopCommand : Command where
  name := "DELTACLOUD_VM_ACTION".toList
  reqId := 3
  args := ["http://cloud".toList, "user".toList, "/pass word".toList, "i 7".toList, "stop".toList]
  named := by decide
  word := List.all_iff_forall_prop.mp (by decide)

/-- Commands that arrive in one chunk: the second one is never seen. -/
theorem second_command_lost :
    readCommands 1 [statusCommand.line ++ stopCommand.line] = [statusCommand.argv] := by
  decide +kernel

/-- The first command arrives in two chunks, the second one in a chunk of its own. -/
theorem commands_read_iff_chunked :
    readCommands 3 [statusCommand.line.take 10, statusCommand.line.drop 10, stopCommand.line] =
      [statusCommand.argv, stopCommand.argv] := by
  refine (commands_read_iff [statusCommand, stopCommand]
    [statusCommand.line.take 10, statusCommand.line.drop 10, stopCommand.line]
    (by decide +kernel) (by decide +kernel)).mpr ⟨by unfold Command.Untabbed; decide +kernel,
      [[statusCommand.line.take 10, statusCommand.line.drop 10], [stopCommand.line]], rfl,
      by decide +kernel⟩

end Condor.DeltacloudGahp
