import Mathlib.Algebra.Order.BigOperators.Group.List
import Mathlib.Algebra.Order.Ring.Nat
import Condor.Utils.ArgRoundTrip
import Condor.Utils.HashTableRuns

/-! `env.cpp`. The V2 text of an environment is an argument list of `name=value` words; the V1 text
joins the words with a delimiter, and cannot hold values with it or a newline. Where the two share a
channel V2 starts with a blank. An unexpanded `$$()` entry is a name with a value that stands for
none. -/
namespace Condor.Utils

open Condor.Lib HashTable

inductive Opsys where
  | unix
  | windows
  deriving DecidableEq, Repr

def envDelimiter : Opsys → Char
  | .unix => ';'
  | .windows => '|'

def noEnvironmentValue : Text := ['\x01', '\x02', '\x03', '\x04', '\x05', '\x06']

/-- `strstr(expr, "$$")`. -/
def hasDollars : Text → Bool
  | '$' :: '$' :: _ => true
  | _ :: expr => hasDollars expr
  | [] => false

def parseNameValue (expr : Text) : Except Text (Text × Text) :=
  if expr = [] then .error []
  else if '=' ∉ expr then
    if hasDollars expr then .ok (expr, noEnvironmentValue)
    else .error ("ERROR: Missing '=' after environment variable '".toList ++ expr ++ "'.".toList)
  else if expr.head? = some '=' then
    .error ("ERROR: missing variable in '".toList ++ expr ++ "'.".toList)
  else .ok (expr.takeWhile (· ≠ '='), (expr.dropWhile (· ≠ '=')).drop 1)

/-- `ReadFromDelimitedString` until the end of the text, without the empty entries; `output`
is the entry being read. -/
def delimitedEntries (os : Opsys) (output : Text) : Text → List Text
  | [] => if output = [] then [] else [output]
  | c :: input =>
    -- leading blanks are stripped
    if output = [] ∧ isBlank c then delimitedEntries os [] input
    else if c = '\n' ∨ c = envDelimiter os then
      (if output = [] then [] else [output]) ++ delimitedEntries os [] input
    else delimitedEntries os (output ++ [c]) input

def isSafeEnvV1Value (str : Text) (delim : Char) : Bool := !str.any fun c => c == delim || c == '\n'

def entryText (entry : Text × Text) : Text :=
  if entry.2 = noEnvironmentValue then entry.1 else entry.1 ++ '=' :: entry.2

/-- A turn of the loop of `getDelimitedStringV1Raw`; the flag is `emptyString`. -/
def writeV1 (delim : Char) (written : Bool × Text) (entry : Text × Text) :
    Except Text (Bool × Text) :=
  if isSafeEnvV1Value entry.1 delim && isSafeEnvV1Value entry.2 delim then
    .ok (false, (if written.1 then written.2 else written.2 ++ [delim]) ++ entryText entry)
  else .error ("Environment entry is not compatible with V1 syntax: ".toList ++ entry.1 ++
    '=' :: entry.2)

structure Env where
  envTable : HashTable Text Text
  inputWasV1 : Bool

namespace Env

def create (hash : Text → Nat) : Env := ⟨.create hash .updateDuplicateKeys, false⟩

def get (env : Env) (var : Text) : Option Text := env.envTable.lookup var

/-- The variables in the order of `iterate`. -/
def entries (env : Env) : List (Text × Text) :=
  env.envTable.buckets.map fun b => (b.index, b.value)

/-- `SetEnv` for a name that is not empty. -/
def setEnv (env : Env) (entry : Text × Text) : Env :=
  { env with envTable := (env.envTable.insert entry.1 entry.2).2 }

def setEnvWithErrorMessage (env : Env) (nameValueExpr : Text) : Except Text Env :=
  (parseNameValue nameValueExpr).map env.setEnv

def mergeFromV2Raw (env : Env) (delimitedString : Text) : Except Text Env :=
  (splitArgs delimitedString []).bind fun envList => envList.foldlM setEnvWithErrorMessage env

def mergeFromV1Raw (os : Opsys) (env : Env) (delimitedString : Text) : Except Text Env :=
  (delimitedEntries os [] delimitedString).foldlM setEnvWithErrorMessage
    { env with inputWasV1 := true }

def mergeFromV1or2Raw (os : Opsys) (env : Env) (delimitedString : Text) : Except Text Env :=
  if delimitedString.head? = some ' ' then env.mergeFromV2Raw delimitedString
  else env.mergeFromV1Raw os delimitedString

def getDelimitedStringV2Raw (env : Env) (result : Text) (markV2 : Bool) : Text :=
  joinArgs (env.entries.map entryText) (if markV2 then result ++ [' '] else result)

def getDelimitedStringV1Raw (env : Env) (result : Text) (delim : Char) : Except Text Text :=
  (env.entries.foldlM (writeV1 delim) (true, result)).map Prod.snd

def getDelimitedStringV1or2Raw (os : Opsys) (env : Env) (result : Text) : Text :=
  match env.getDelimitedStringV1Raw result (envDelimiter os) with
  | .ok v1 => v1
  | .error _ => env.getDelimitedStringV2Raw result true

inductive Parsed (os : Opsys) (hash : Text → Nat) : Env → Prop
  | create : Parsed os hash (create hash)
  | v1 {env env' : Env} {text : Text} : Parsed os hash env →
      env.mergeFromV1Raw os text = .ok env' → Parsed os hash env'
  | v2 {env env' : Env} {text : Text} : Parsed os hash env →
      env.mergeFromV2Raw text = .ok env' → Parsed os hash env'

end Env

/-! ## One entry -/

variable {var : Text} {entry : Text × Text}

theorem parseNameValue_split (named : var ≠ []) (plain : '=' ∉ var) (val : Text) :
    parseNameValue (var ++ '=' :: val) = .ok (var, val) := by
  have before : ∀ c ∈ var, decide (c ≠ '=') = true := by
    intro c member
    refine decide_eq_true ?_
    rintro rfl
    exact plain member
  have head : (var ++ '=' :: val).head? ≠ some '=' := by
    cases var with
    | nil => exact absurd rfl named
    | cons c var => simpa using before c List.mem_cons_self
  rw [parseNameValue, if_neg (by simp), if_neg (by simp), if_neg head,
    List.takeWhile_append_of_pos before, List.dropWhile_append_of_pos before]
  simp

theorem parseNameValue_iff {expr : Text} :
    parseNameValue expr = .ok entry ↔ entry.1 ≠ [] ∧ '=' ∉ entry.1 ∧
      (expr = entry.1 ++ '=' :: entry.2 ∨
        expr = entry.1 ∧ entry.2 = noEnvironmentValue ∧ hasDollars entry.1 = true) := by
  obtain ⟨var, val⟩ := entry
  constructor
  · intro parsed
    by_cases has : '=' ∈ expr
    · obtain ⟨var', val', rfl, plain⟩ := List.eq_append_cons_of_mem has
      by_cases named : var' = []
      · subst named
        simp only [parseNameValue, List.nil_append, List.head?_cons] at parsed
        simp at parsed
      · rw [parseNameValue_split named plain] at parsed
        cases parsed
        exact ⟨named, plain, .inl rfl⟩
    · rw [parseNameValue, if_pos has] at parsed
      split at parsed
      · cases parsed
      · next named =>
          split at parsed
          · next dollars =>
              cases parsed
              exact ⟨named, has, .inr ⟨rfl, rfl, dollars⟩⟩
          · cases parsed
  · rintro ⟨named, plain, rfl | ⟨rfl, rfl, dollars⟩⟩
    · exact parseNameValue_split named plain val
    · rw [parseNameValue, if_neg named, if_pos plain, if_pos dollars]

/-- What is written for a variable sets that variable, unless it is taken for an entry
without a value. -/
theorem parseNameValue_entryText {read : Text × Text} (named : entry.1 ≠ []) (plain : '=' ∉ entry.1)
    :
    parseNameValue (entryText entry) = .ok read ↔
      read = entry ∧ (entry.2 = noEnvironmentValue → hasDollars entry.1 = true) := by
  rw [entryText]
  split
  · next valueless =>
      constructor
      · intro parsed
        obtain ⟨-, -, split | ⟨same, value, dollars⟩⟩ := parseNameValue_iff.mp parsed
        · exact absurd (by simp [split]) plain
        · exact ⟨Prod.ext same.symm (value.trans valueless.symm), fun _ => same ▸ dollars⟩
      · rintro ⟨rfl, dollars⟩
        exact parseNameValue_iff.mpr ⟨named, plain, .inr ⟨rfl, valueless, dollars valueless⟩⟩
  · next valued =>
      rw [parseNameValue_split named plain, Except.ok.injEq]
      constructor
      · rintro rfl
        exact ⟨rfl, fun same => absurd same valued⟩
      · rintro ⟨rfl, -⟩
        rfl

namespace Env

/-! ## The table -/

/-- What every parsed environment keeps. -/
structure WellFormed (env : Env) : Prop where
  chained : env.envTable.Chained
  policy : env.envTable.duplicateKeyBehavior = .updateDuplicateKeys
  named : ∀ entry ∈ env.entries, entry.1 ≠ [] ∧ '=' ∉ entry.1

variable {env : Env}

theorem mem_entries (chained : env.envTable.Chained) :
    entry ∈ env.entries ↔ env.get entry.1 = some entry.2 := by
  rw [entries, get, chained.lookup_eq_some_iff, List.mem_map]
  grind

theorem entries_nodup (chained : env.envTable.Chained) : (env.entries.map Prod.fst).Nodup := by
  have distinct := chained.distinct
  rw [entries, List.map_map]
  exact distinct

theorem get_setEnv (chained : env.envTable.Chained)
    (policy : env.envTable.duplicateKeyBehavior = .updateDuplicateKeys) (entry : Text × Text)
    (var : Text) :
    (env.setEnv entry).get var = if var = entry.1 then some entry.2 else env.get var :=
  (chained.insert_update policy entry.1 entry.2).2 var

theorem WellFormed.setEnv (h : env.WellFormed) (named : entry.1 ≠ [] ∧ '=' ∉ entry.1) :
    (env.setEnv entry).WellFormed := by
  have chained := (h.chained.insert_update h.policy entry.1 entry.2).1
  refine ⟨chained, (insert_duplicateKeyBehavior ..).trans h.policy, fun other member => ?_⟩
  have found := (@mem_entries other (env.setEnv entry) chained).mp member
  rw [get_setEnv h.chained h.policy] at found
  split at found
  · next here => rwa [here]
  · exact h.named other ((mem_entries h.chained).mpr found)

theorem WellFormed.create (hash : Text → Nat) (inputWasV1 : Bool) :
    ({ Env.create hash with inputWasV1 } : Env).WellFormed :=
  ⟨.create hash _, rfl, fun entry member => absurd member (by
    simp [entries, Env.create, buckets, HashTable.create])⟩

variable {exprs : List Text}
variable {env' : Env} {read : List (Text × Text)}

theorem foldlM_setEnv {env : Env} :
    exprs.foldlM setEnvWithErrorMessage env = .ok env' ↔
      ∃ read, List.Forall₂ (fun expr entry => parseNameValue expr = .ok entry) exprs read ∧
        env' = read.foldl setEnv env := by
  induction exprs generalizing env with
  | nil =>
    simp only [List.forall₂_nil_left_iff, exists_eq_left, List.foldl_nil]
    exact ⟨fun h => (Except.ok.inj h).symm, fun h => h ▸ rfl⟩
  | cons expr exprs ih =>
    rw [List.foldlM_cons, setEnvWithErrorMessage]
    cases parsed : parseNameValue expr with
    | error message =>
      refine iff_of_false nofun ?_
      rintro ⟨read, all, -⟩
      cases all with
      | cons first rest =>
        rw [parsed] at first
        cases first
    | ok entry =>
      refine ih.trans ?_
      constructor
      · rintro ⟨read, all, rfl⟩
        exact ⟨entry :: read, .cons parsed all, rfl⟩
      · rintro ⟨read, all, rfl⟩
        cases all with
        | cons first rest =>
          cases parsed.symm.trans first
          exact ⟨_, rest, rfl⟩

theorem Forall₂.parsed
    (all : List.Forall₂ (fun expr entry => parseNameValue expr = .ok entry) exprs read) :
    (∀ expr ∈ exprs, ∃ entry, parseNameValue expr = .ok entry) ∧
      ∀ entry ∈ read, ∃ expr ∈ exprs, parseNameValue expr = .ok entry := by
  induction all with
  | nil => simp
  | cons parsed rest ih => grind

theorem WellFormed.foldl (h : env.WellFormed) (named : ∀ entry ∈ read, entry.1 ≠ [] ∧ '=' ∉ entry.1)
    :
    (read.foldl Env.setEnv env).WellFormed ∧
      (∀ var val, (read.foldl Env.setEnv env).get var = some val →
        env.get var = some val ∨ (var, val) ∈ read) ∧
      ((read.map Prod.fst).Nodup → ∀ entry ∈ read,
        (read.foldl Env.setEnv env).get entry.1 = some entry.2) ∧
      ∀ var, var ∉ read.map Prod.fst → (read.foldl Env.setEnv env).get var = env.get var := by
  induction read generalizing env with
  | nil => exact ⟨h, fun _ _ => .inl, by simp, by simp⟩
  | cons entry read ih =>
    have set := get_setEnv h.chained h.policy entry
    obtain ⟨kept, origin, last, other⟩ := ih (h.setEnv (named entry List.mem_cons_self))
      fun e member => named e (List.mem_cons_of_mem entry member)
    refine ⟨kept, ?_, ?_, ?_⟩
    · intro var val found
      rcases origin var val found with before | later
      · grind
      · exact .inr (List.mem_cons_of_mem entry later)
    · intro nodup e member
      rw [List.map_cons, List.nodup_cons] at nodup
      rcases List.mem_cons.mp member with rfl | later
      · rw [List.foldl_cons, other _ nodup.1, set, if_pos rfl]
      · exact last nodup.2 e later
    · intro var absent
      rw [List.map_cons, List.mem_cons, not_or] at absent
      rw [List.foldl_cons, other var absent.2, set, if_neg absent.1]

theorem Forall₂.named
    (all : List.Forall₂ (fun expr entry => parseNameValue expr = .ok entry) exprs read) :
    ∀ entry ∈ read, entry.1 ≠ [] ∧ '=' ∉ entry.1 := by
  intro entry member
  obtain ⟨expr, -, parsed⟩ := (Forall₂.parsed all).2 entry member
  obtain ⟨named, plain, -⟩ := parseNameValue_iff.mp parsed
  exact ⟨named, plain⟩

theorem WellFormed.merge {env : Env} (h : env.WellFormed)
    (merged : exprs.foldlM setEnvWithErrorMessage env = .ok env') : env'.WellFormed := by
  obtain ⟨read, all, rfl⟩ := foldlM_setEnv.mp merged
  exact (h.foldl (Forall₂.named all)).1

variable {hash : Text → Nat}

/-- Every variable of an environment that was empty comes from one of the texts. -/
theorem get_merged {inputWasV1 : Bool}
    (merged : exprs.foldlM setEnvWithErrorMessage { Env.create hash with inputWasV1 } = .ok env')
    {val : Text} (found : env'.get var = some val) :
    ∃ expr ∈ exprs, parseNameValue expr = .ok (var, val) := by
  obtain ⟨read, all, rfl⟩ := foldlM_setEnv.mp merged
  obtain ⟨-, origin, -, -⟩ := (WellFormed.create hash inputWasV1).foldl (Forall₂.named all)
  rcases origin var val found with fresh | member
  · cases fresh
  · exact (Forall₂.parsed all).2 _ member

theorem Parsed.wellFormed {os : Opsys} (parsed : Parsed os hash env) : env.WellFormed := by
  induction parsed with
  | create => exact .create hash false
  | v1 before merged ih =>
    refine WellFormed.merge ?_ merged
    exact { ih with }
  | v2 before merged ih =>
    rw [mergeFromV2Raw] at merged
    cases split : splitArgs _ [] with
    | error message =>
      rw [split] at merged
      cases merged
    | ok exprs =>
      rw [split] at merged
      exact ih.merge merged

/-- Setting what was written gives the variables back if every entry without a value is an
unexpanded `$$()`. -/
theorem WellFormed.merge_written (h : env.WellFormed) (hash : Text → Nat) (inputWasV1 : Bool) :
    (∃ env', (env.entries.map entryText).foldlM setEnvWithErrorMessage
        { Env.create hash with inputWasV1 } = .ok env' ∧ ∀ var, env'.get var = env.get var) ↔
      ∀ entry ∈ env.entries, entry.2 = noEnvironmentValue → hasDollars entry.1 = true := by
  constructor
  · rintro ⟨env', merged, -⟩ entry member
    obtain ⟨read, all, -⟩ := foldlM_setEnv.mp merged
    obtain ⟨back, parsed⟩ := (Forall₂.parsed all).1 _ (List.mem_map_of_mem member)
    obtain ⟨named, plain⟩ := h.named entry member
    exact ((parseNameValue_entryText named plain).mp parsed).2
  · intro marked
    refine ⟨_, foldlM_setEnv.mpr ⟨env.entries, ?_, rfl⟩, fun var => ?_⟩
    · rw [List.forall₂_map_left_iff, List.forall₂_same]
      intro entry member
      obtain ⟨named, plain⟩ := h.named entry member
      exact (parseNameValue_entryText named plain).mpr ⟨rfl, marked entry member⟩
    · obtain ⟨-, origin, last, -⟩ := (WellFormed.create hash inputWasV1).foldl h.named
      ext val
      constructor
      · intro found
        rcases origin var val found with fresh | member
        · cases fresh
        · exact (mem_entries h.chained).mp member
      · intro found
        exact last (entries_nodup h.chained) (var, val) ((mem_entries h.chained).mpr found)

/-- A V2 string gives back the environment it was written from. -/
theorem v2_environment_round_trip {os : Opsys} {hash : Text → Nat} {env : Env}
    (parsed : Parsed os hash env)
    (marked : ∀ var, env.get var = some noEnvironmentValue → hasDollars var = true) :
    ∃ env', (Env.create hash).mergeFromV2Raw (env.getDelimitedStringV2Raw [] false) = .ok env' ∧
      ∀ var, env'.get var = env.get var := by
  have h := parsed.wellFormed
  rw [mergeFromV2Raw, getDelimitedStringV2Raw, if_neg Bool.false_ne_true, splitArgs_joinArgs]
  refine (h.merge_written hash false).mpr fun entry member valueless => ?_
  exact marked entry.1 (valueless ▸ (mem_entries h.chained).mp member)

theorem v2_environment_round_trip_one :
    ∃ env, (Env.create List.length).mergeFromV2Raw ['A', '=', '1'] = .ok env ∧
      ∃ env', (Env.create List.length).mergeFromV2Raw (env.getDelimitedStringV2Raw [] false) =
        .ok env' ∧ ∀ var, env'.get var = env.get var := by
  refine ⟨(Env.create List.length).setEnv (['A'], ['1']), rfl,
    v2_environment_round_trip (@Parsed.v2 .unix _ _ _ ['A', '=', '1'] .create rfl)
      fun var found => ?_⟩
  rw [@get_setEnv (Env.create List.length) (WellFormed.create _ false).chained rfl] at found
  split at found
  · simp [noEnvironmentValue] at found
  · cases found

end Env

/-! ## V1 syntax -/

def safeV1 (os : Opsys) (entry : Text × Text) : Bool :=
  isSafeEnvV1Value entry.1 (envDelimiter os) && isSafeEnvV1Value entry.2 (envDelimiter os)

def startsBlank (text : Text) : Bool := text.head?.any isBlank

variable {os : Opsys}

theorem isSafeEnvV1Value_iff {str : Text} :
    isSafeEnvV1Value str (envDelimiter os) = true ↔
      ∀ c ∈ str, c ≠ envDelimiter os ∧ c ≠ '\n' := by
  simp [isSafeEnvV1Value]

theorem safe_entryText (safe : safeV1 os entry = true) :
    ∀ c ∈ entry.1 ++ '=' :: entry.2, c ≠ envDelimiter os ∧ c ≠ '\n' := by
  rw [safeV1, Bool.and_eq_true, isSafeEnvV1Value_iff, isSafeEnvV1Value_iff] at safe
  intro c member
  rcases List.mem_append.mp member with name | rest
  · exact safe.1 c name
  · rcases List.mem_cons.mp rest with rfl | value
    · cases os <;> decide
    · exact safe.2 c value

theorem entryText_ne_nil (named : entry.1 ≠ []) : entryText entry ≠ [] := by
  rw [entryText]
  split <;> simp [named]

theorem entryText_sublist (entry : Text × Text) :
    (entryText entry).Sublist (entry.1 ++ '=' :: entry.2) := by
  rw [entryText]
  split
  · exact List.sublist_append_left ..
  · exact .refl _

variable {word text : Text}

theorem delimitedEntries_append (safe : ∀ c ∈ word, c ≠ envDelimiter os ∧ c ≠ '\n') (output : Text)
    (begun : output = [] → startsBlank word = false) (rest : Text) :
    delimitedEntries os output (word ++ rest) = delimitedEntries os (output ++ word) rest := by
  induction word generalizing output with
  | nil => simp
  | cons c word ih =>
    obtain ⟨delim, newline⟩ := safe c List.mem_cons_self
    have content : ¬(output = [] ∧ isBlank c = true) := by
      rintro ⟨empty, blank⟩
      have plain := begun empty
      simp [startsBlank, blank] at plain
    rw [List.cons_append, delimitedEntries, if_neg content, if_neg (by simp [delim, newline]),
      ih (fun d member => safe d (List.mem_cons_of_mem c member)) _ (by simp)]
    simp

theorem reads_delimited (safe : ∀ c ∈ word, c ≠ envDelimiter os ∧ c ≠ '\n') (filled : word ≠ [])
    (plain : startsBlank word = false) :
    Reads (fun list text => list ++ delimitedEntries os [] text) id (envDelimiter os) word
      [word] := by
  have read := delimitedEntries_append safe [] fun _ => plain
  refine ⟨fun empty => absurd empty filled, fun list => ?_, fun list rest => ?_⟩
  · have whole := read []
    rw [List.append_nil] at whole
    simp [whole, delimitedEntries, filled]
  · simp [read, delimitedEntries, filled]

/-- What is read of a V1 string does not start with a blank. -/
theorem delimitedEntries_head (output : Text) (plain : startsBlank output = false) :
    ∀ expr ∈ delimitedEntries os output text, startsBlank expr = false := by
  induction text generalizing output with
  | nil => grind [delimitedEntries]
  | cons c text ih =>
    intro expr member
    have grown : ¬(output = [] ∧ isBlank c = true) → startsBlank (output ++ [c]) = false := by
      cases output <;> simp_all [startsBlank]
    rw [delimitedEntries] at member
    grind [startsBlank]

namespace Env

theorem foldlM_writeV1 {entries : List (Text × Text)}
    (named : ∀ entry ∈ entries, entry.1 ≠ []) (text : Text) (delim : Char) :
    (∀ entry ∈ entries, (isSafeEnvV1Value entry.1 delim && isSafeEnvV1Value entry.2 delim) = true) ∧
        (entries.foldlM (writeV1 delim) (text.isEmpty, text)).map Prod.snd =
          .ok (entries.foldl (fun text entry => addWord delim text (entryText entry)) text) ∨
      (∃ entry ∈ entries,
        (isSafeEnvV1Value entry.1 delim && isSafeEnvV1Value entry.2 delim) = false) ∧
        ∃ message, (entries.foldlM (writeV1 delim) (text.isEmpty, text)).map Prod.snd =
          .error message := by
  induction entries generalizing text with
  | nil => exact .inl ⟨by simp, rfl⟩
  | cons entry entries ih =>
    have filled := entryText_ne_nil (named entry List.mem_cons_self)
    have word : (if text.isEmpty then text else text ++ [delim]) ++ entryText entry =
        addWord delim text (entryText entry) := by
      cases text <;> rfl
    have begun : (addWord delim text (entryText entry)).isEmpty = false := by
      simp [addWord, filled]
    cases safe : isSafeEnvV1Value entry.1 delim && isSafeEnvV1Value entry.2 delim with
    | false =>
      refine .inr ⟨⟨entry, List.mem_cons_self, safe⟩, ?_⟩
      rw [List.foldlM_cons, writeV1, safe]
      exact ⟨_, rfl⟩
    | true =>
      have first : writeV1 delim (text.isEmpty, text) entry =
          .ok (false, addWord delim text (entryText entry)) := by
        rw [writeV1, safe, if_pos rfl, word]
      have rest := ih (fun e member => named e (List.mem_cons_of_mem entry member))
        (addWord delim text (entryText entry))
      rw [begun] at rest
      rw [List.foldlM_cons, first]
      rcases rest with ⟨all, written⟩ | ⟨⟨bad, member, delimited⟩, failed⟩
      · exact .inl ⟨List.forall_mem_cons.mpr ⟨safe, all⟩, written⟩
      · exact .inr ⟨⟨bad, List.mem_cons_of_mem entry member, delimited⟩, failed⟩

theorem mergeFromV1Raw_plain {hash : Text → Nat} {env' : Env}
    (merged : (Env.create hash).mergeFromV1Raw os text = .ok env') {val : Text}
    (found : env'.get var = some val) : startsBlank var = false := by
  obtain ⟨expr, source, parsed⟩ := get_merged merged found
  have plain := delimitedEntries_head [] rfl expr source
  obtain ⟨filled, -, rfl | ⟨rfl, -, -⟩⟩ := parseNameValue_iff.mp parsed
  · cases var with
    | nil => exact absurd rfl filled
    | cons c var => exact plain
  · exact plain

end Env

/-! ## A V1 string taken for V2 -/

/-- `split_args` takes no character twice. -/
theorem splitFrom_count (p : Char → Bool) {quote : Option Text} {buf : Text} {parsed : Bool}
    {list exprs : List Text} {args : Text}
    (split : splitFrom quote buf parsed list args = .ok exprs) :
    (exprs.map (List.countP p)).sum ≤
      (list.map (List.countP p)).sum + buf.countP p + args.countP p := by
  fun_induction splitFrom quote buf parsed list args <;> grind

theorem countP_foldl_addWord {ι : Type*} {p : Char → Bool} {sep : Char} (skipped : p sep = false)
    (written : ι → Text) (xs : List ι) (text : Text) :
    (xs.foldl (fun text x => addWord sep text (written x)) text).countP p =
      text.countP p + (xs.map fun x => (written x).countP p).sum := by
  induction xs generalizing text with
  | nil => simp
  | cons x xs ih =>
    rw [List.foldl_cons, ih, addWord]
    split
    · next empty => simp [empty]
    · simp [skipped, Nat.add_assoc]

namespace Env

def v1Text (os : Opsys) (env : Env) : Text :=
  env.entries.foldl (fun text entry => addWord (envDelimiter os) text (entryText entry)) []

/-- A V1 string that starts with a blank is taken for V2, and the blank is dropped: the
words read are too short to set every variable. -/
theorem WellFormed.misread {env : Env} (h : env.WellFormed)
    (safe : ∀ entry ∈ env.entries, safeV1 os entry = true)
    (marked : (env.v1Text os).head? = some ' ') (hash : Text → Nat) {env' : Env}
    (merged : (Env.create hash).mergeFromV2Raw (env.v1Text os) = .ok env') :
    ¬∀ var, env'.get var = env.get var := by
  intro same
  let p : Char → Bool := fun c => c ≠ envDelimiter os
  have counts : p ' ' = true := by cases os <;> rfl
  have whole {text : Text} (clean : ∀ c ∈ text, c ≠ envDelimiter os ∧ c ≠ '\n') :
      text.countP p = text.length :=
    List.countP_eq_length.mpr fun c member => decide_eq_true (clean c member).1
  have total : (env.v1Text os).countP p = (env.entries.map fun e => (entryText e).length).sum := by
    rw [v1Text, countP_foldl_addWord (by simp [p]), List.countP_nil, Nat.zero_add]
    congr 1
    refine List.map_congr_left fun entry member => whole fun c inText => ?_
    exact safe_entryText (safe entry member) c ((entryText_sublist entry).subset inText)
  obtain ⟨text, starts⟩ : ∃ text, env.v1Text os = ' ' :: text := by
    cases shape : env.v1Text os with
    | nil =>
      rw [shape] at marked
      cases marked
    | cons c text =>
      rw [shape] at marked
      cases marked
      exact ⟨text, rfl⟩
  rw [starts, List.countP_cons_of_pos counts] at total
  rw [starts, mergeFromV2Raw, splitArgs, splitFrom, if_neg (by decide),
    if_pos (by decide), if_neg (by decide)] at merged
  cases split : splitFrom none [] false [] text with
  | error message =>
    rw [split] at merged
    cases merged
  | ok exprs =>
    rw [split] at merged
    have source : ∀ entry ∈ env.entries, ∃ expr ∈ exprs, parseNameValue expr = .ok entry ∧
        (entryText entry).length ≤ expr.countP p := by
      intro entry member
      have found := (same entry.1).trans ((mem_entries h.chained).mp member)
      obtain ⟨expr, inExprs, back⟩ := get_merged merged found
      have clean := safe_entryText (safe entry member)
      refine ⟨expr, inExprs, back, ?_⟩
      obtain ⟨-, -, rfl | ⟨rfl, value, -⟩⟩ := parseNameValue_iff.mp back
      · rw [whole clean]
        exact (entryText_sublist entry).length_le
      · rw [whole fun c inName => clean c (List.mem_append_left _ inName), entryText,
          if_pos value]
    choose! word inExprs back long using source
    have distinct : (env.entries.map word).Nodup := by
      refine List.Nodup.map_on (fun x inX y inY equal => ?_) (entries_nodup h.chained).of_map
      have parsedX := back x inX
      rw [equal, back y inY] at parsedX
      exact (Except.ok.inj parsedX).symm
    have within : env.entries.map word ⊆ exprs := by
      intro expr member
      obtain ⟨entry, inEntries, rfl⟩ := List.mem_map.mp member
      exact inExprs entry inEntries
    obtain ⟨picked, perm, sub⟩ := List.subperm_of_subset distinct within
    have counted := splitFrom_count p split
    have fits : ((env.entries.map word).map (List.countP p)).sum ≤
        (exprs.map (List.countP p)).sum := by
      rw [← (perm.map (List.countP p)).sum_eq]
      exact (sub.map _).sum_le_sum fun _ _ => Nat.zero_le _
    have longer : (env.entries.map fun e => (entryText e).length).sum ≤
        ((env.entries.map word).map (List.countP p)).sum := by
      rw [List.map_map]
      exact List.sum_le_sum fun entry member => long entry member
    simp only [List.map_nil, List.sum_nil, List.countP_nil] at counted
    omega

/-- An environment that parsing V1 or V2 strings built is read back where the two share a
channel exactly when every entry without a value is an unexpanded `$$()` and no name starts
with a blank while V1 syntax can write every variable. -/
theorem v1or2_environment_round_trip_iff {hash : Text → Nat} {env : Env}
    (parsed : Parsed os hash env) :
    (∃ env', (Env.create hash).mergeFromV1or2Raw os (env.getDelimitedStringV1or2Raw os []) =
        .ok env' ∧ ∀ var, env'.get var = env.get var) ↔
      (∀ entry ∈ env.entries, entry.2 = noEnvironmentValue → hasDollars entry.1 = true) ∧
      ((∀ entry ∈ env.entries, safeV1 os entry = true) →
        ∀ entry ∈ env.entries, startsBlank entry.1 = false) := by
  have h := parsed.wellFormed
  have named entry (member : entry ∈ env.entries) := (h.named entry member).1
  rw [getDelimitedStringV1or2Raw, getDelimitedStringV1Raw]
  rcases foldlM_writeV1 named [] (envDelimiter os) with
    ⟨safe, written⟩ | ⟨⟨bad, member, delimited⟩, message, failed⟩
  · have v1 : (env.entries.foldlM (writeV1 (envDelimiter os)) (true, [])).map Prod.snd =
        .ok (env.v1Text os) := written
    simp only [v1]
    by_cases plain : ∀ entry ∈ env.entries, startsBlank entry.1 = false
    · have first : ∀ entry ∈ env.entries, startsBlank (entryText entry) = false := by
        intro entry member
        have name := plain entry member
        rw [entryText]
        split
        · exact name
        · cases var : entry.1 with
          | nil => exact absurd var (named entry member)
          | cons c rest => simpa [startsBlank, var] using name
      have unmarked : (env.v1Text os).head? ≠ some ' ' := by
        intro marked
        have unblank : ∀ c ∈ (env.v1Text os).head?, isBlank c = false := by
          refine head_addWords (by simp) fun entry member c start => ?_
          have name := first entry member
          rw [startsBlank, start] at name
          exact name
        exact absurd (unblank ' ' marked) (by decide)
      have read : delimitedEntries os [] (env.v1Text os) = env.entries.map entryText := by
        have start : Reads (fun list text => list ++ delimitedEntries os [] text) id
            (envDelimiter os) [] ([] : List Text) :=
          ⟨fun _ => rfl, by simp [delimitedEntries], by cases os <;>
            simp [delimitedEntries, envDelimiter, isBlank]⟩
        have all := start.addWords fun entry (member : entry ∈ env.entries) =>
          reads_delimited (fun c inText => safe_entryText (safe entry member) c
            ((entryText_sublist entry).subset inText)) (entryText_ne_nil (named entry member))
            (first entry member)
        have whole := all.last []
        rw [← List.map_eq_flatMap] at whole
        exact whole
      rw [mergeFromV1or2Raw, if_neg unmarked, mergeFromV1Raw, read]
      rw [and_iff_left fun _ => plain]
      exact h.merge_written hash true
    · refine iff_of_false ?_ fun both => plain (both.2 safe)
      rintro ⟨env', merged, same⟩
      rw [mergeFromV1or2Raw] at merged
      split at merged
      · next marked => exact h.misread safe marked hash merged same
      · push Not at plain
        obtain ⟨entry, member, blank⟩ := plain
        have found := (same entry.1).trans ((mem_entries h.chained).mp member)
        exact blank (mergeFromV1Raw_plain merged found)
  · have v2 : (env.entries.foldlM (writeV1 (envDelimiter os)) (true, [])).map Prod.snd =
        .error message := failed
    have vacuous : ¬∀ entry ∈ env.entries, safeV1 os entry = true := by
      intro safe
      have wrong := (safe bad member).symm.trans delimited
      cases wrong
    have split : splitArgs (joinArgs (env.entries.map entryText) [' ']) [] =
        .ok (env.entries.map entryText) :=
      (reads_joinArgs reads_marker _).last []
    obtain ⟨rest, marked⟩ := joinArgs_cons (env.entries.map entryText) ' ' []
    rw [marked] at split
    simp only [v2, getDelimitedStringV2Raw, if_true, List.nil_append, marked]
    rw [mergeFromV1or2Raw, if_pos (List.head?_cons ..), mergeFromV2Raw, split,
      and_iff_left fun safe => absurd safe vacuous]
    exact h.merge_written hash false

theorem v1or2_environment_round_trip_iff_one :
    (∃ env', (Env.create List.length).mergeFromV1or2Raw .unix
        (((Env.create List.length).setEnv (['A'], ['1'])).getDelimitedStringV1or2Raw .unix []) =
          .ok env' ∧
            ∀ var, env'.get var = ((Env.create List.length).setEnv (['A'], ['1'])).get var) :=
  (v1or2_environment_round_trip_iff (@Parsed.v2 .unix _ _ _ ['A', '=', '1'] .create rfl)).mpr
    ⟨by decide, fun _ => by decide⟩

/-- A name that starts with a blank can be written in V2 syntax; where the two share a channel
it is written in V1 syntax, taken for V2 and read without the blank. -/
theorem leading_blank_lost :
    ((Env.create List.length).mergeFromV2Raw ['\'', ' ', 'X', '=', '1', '\'']).map entries =
        .ok [([' ', 'X'], ['1'])] ∧
    (((Env.create List.length).mergeFromV2Raw ['\'', ' ', 'X', '=', '1', '\'']).bind fun env =>
      (Env.create List.length).mergeFromV1or2Raw .unix
        (env.getDelimitedStringV1or2Raw .unix [])).map entries = .ok [(['X'], ['1'])] :=
  ⟨rfl, rfl⟩

end Env
end Condor.Utils
