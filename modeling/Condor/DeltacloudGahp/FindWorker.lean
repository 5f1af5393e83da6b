import Mathlib.Data.Bool.AllAny
import Mathlib.Data.List.Basic

/-! `dcloud_find_worker` and its result line, which the client's `read_argv` reads back. The
deltacloud library and the file system are parameters. -/
namespace Condor.DeltacloudGahp

inductive Lookup where
  | found (id : String)
  /-- A negative result with `DELTACLOUD_GET_URL_ERROR`. -/
  | notFound
  | error (details : String)
  /-- A negative result without `deltacloud_get_last_error`. -/
  | unknown

/-- The code outside the worker: `read_password_file`, `deltacloud_initialize` with its
last error, and the lookup of an instance. -/
structure Library where
  readPasswordFile : String → Option String
  deltacloudInitialize : String → String → String → Option String
  deltacloudGetInstanceById : String → String → String → String → Lookup

/-- `STRCASEEQ( s, NULLSTRING )`. -/
def isNull (s : String) : Bool := decide (s.toList.map Char.toLower = "null".toList)

def createFailure (reqId message : String) : List Char :=
  reqId.toList ++
    ' ' :: message.toList.flatMap (fun c => if c = ' ' then ['\\', c] else [c]) ++ ['\n']

def escapeId (id : String) : List Char :=
  id.toList.flatMap fun c => if c = ' ' ∨ c = '\\' then ['\\', c] else [c]

def findOutput (reqId id : String) : Lookup → List Char
  | .found found => reqId.toList ++ " NULL ".toList ++ escapeId found ++ ['\n']
  | .notFound => reqId.toList ++ " NULL NULL\n".toList
  | .error details => createFailure reqId ("Instance_Fetch_Failure " ++ id ++ ": " ++ details)
  | .unknown => createFailure reqId ("Instance_Fetch_Failure " ++ id)

/-- `dcloud_find_worker` on the arguments after the command name. -/
def findWorker (lib : Library) : List String → List Char
  | [reqId, url, user, passwordFile, id] =>
    if isNull url then createFailure reqId "Invalid_URL"
    else if isNull user then createFailure reqId "Invalid_User"
    else if isNull id then createFailure reqId "Invalid_Id"
    else
      -- A NULL path makes `read_password_file` return NULL.
      match if isNull passwordFile then none else lib.readPasswordFile passwordFile with
      | none => createFailure reqId "Invalid_Password_File"
      | some password =>
        match lib.deltacloudInitialize url user password with
        | some error => createFailure reqId ("Deltacloud_Init_Failure: " ++ error)
        | none => findOutput reqId id (lib.deltacloudGetInstanceById url user password id)
  | _ => createFailure "0" "Wrong_Argument_Number"

/-- `GahpServer::read_argv`, without the response text that its callers turn off: the
arguments so far, the one being read and whether a backslash was seen. -/
def readArgv (args : List String) (buf : List Char) (escapeSeen : Bool) : List Char → List String
  | [] => []
  | c :: rest =>
    if escapeSeen then readArgv args (buf ++ [c]) false rest
    else if c = '\\' then readArgv args buf true rest
    else if c = '\r' then readArgv args buf false rest
    else if c = ' ' then readArgv (args ++ [String.ofList buf]) [] false rest
    else if c = '\n' then args ++ [String.ofList buf]
    else readArgv args (buf ++ [c]) false rest

def plain (c : Char) : Bool := decide (c ≠ '\\' ∧ c ≠ '\r' ∧ c ≠ ' ' ∧ c ≠ '\n')

theorem readArgv_plain (word : List Char) (plainly : ∀ c ∈ word, plain c = true)
    (args : List String) (buf rest : List Char) :
    readArgv args buf false (word ++ rest) = readArgv args (buf ++ word) false rest := by
  induction word generalizing buf with
  | nil => simp
  | cons c word ih =>
    have here : c ≠ '\\' ∧ c ≠ '\r' ∧ c ≠ ' ' ∧ c ≠ '\n' :=
      of_decide_eq_true (plainly c List.mem_cons_self)
    rw [List.cons_append, readArgv]
    simp only [here.1, here.2.1, here.2.2.1, here.2.2.2, if_false, Bool.false_eq_true]
    rw [ih fun c member => plainly c (List.mem_cons_of_mem _ member)]
    simp

theorem plain_of_isDigit {c : Char} (digit : c.isDigit = true) : plain c = true := by
  unfold plain
  apply decide_eq_true
  refine ⟨?_, ?_, ?_, ?_⟩ <;> rintro rfl <;> cases digit

theorem plain_toString (n : Nat) : ∀ c ∈ (toString n).toList, plain c = true := by
  intro c member
  have digits : c ∈ Nat.toDigits 10 n := by simpa using member
  exact plain_of_isDigit (Nat.isDigit_of_mem_toDigits (by decide) (by decide) digits)

theorem readArgv_createFailure (reqId : Nat) (message : String)
    (plainly : ∀ c ∈ message.toList, plain c = true) :
    readArgv [] [] false (createFailure (toString reqId) message) = [toString reqId, message] := by
  have unescaped : message.toList.flatMap (fun c => if c = ' ' then ['\\', c] else [c]) =
      message.toList := by
    have same : ∀ c ∈ message.toList, (if c = ' ' then ['\\', c] else [c]) = [c] := by
      intro c member
      have here : c ≠ '\\' ∧ c ≠ '\r' ∧ c ≠ ' ' ∧ c ≠ '\n' :=
        of_decide_eq_true (plainly c member)
      rw [if_neg here.2.2.1]
    rw [List.flatMap_congr same]
    simp
  unfold createFailure
  rw [unescaped, List.append_assoc, readArgv_plain _ (plain_toString reqId), List.cons_append,
    readArgv]
  simp only [Bool.false_eq_true, if_false, if_true, List.nil_append, Char.reduceEq]
  rw [readArgv_plain _ plainly, readArgv]
  simp only [Bool.false_eq_true, if_false, if_true, List.nil_append, Char.reduceEq,
    String.ofList_toList, List.cons_append]

/-- A request without an instance is refused before the cloud is asked. -/
theorem findWorker_null (lib : Library) (reqId : Nat) (url user passwordFile id : String)
    (null : isNull id = true) :
    ∃ message, message ≠ "NULL" ∧
      readArgv [] [] false (findWorker lib [toString reqId, url, user, passwordFile, id]) =
        [toString reqId, message] := by
  simp only [findWorker, null, if_true]
  split
  · exact ⟨"Invalid_URL", by decide,
      readArgv_createFailure reqId "Invalid_URL" (List.all_iff_forall_prop.mp (by decide))⟩
  · split
    · exact ⟨"Invalid_User", by decide,
        readArgv_createFailure reqId "Invalid_User" (List.all_iff_forall_prop.mp (by decide))⟩
    · exact ⟨"Invalid_Id", by decide,
        readArgv_createFailure reqId "Invalid_Id" (List.all_iff_forall_prop.mp (by decide))⟩

end Condor.DeltacloudGahp
