import Mathlib.Data.Nat.Digits.Defs
import Condor.DeltacloudGahp.FindWorker
import Condor.Lib.Fields

/-! The texts of `create_failure`, `create_instance_output` and `dcloud_statusall_worker`, and how
`GahpServer::read_argv` reads them. Each writer escapes some of the special symbols. -/
namespace Condor.DeltacloudGahp
open Condor.Lib

structure Instance where
  id : String
  state : String
  /-- `rel` of each action. -/
  actions : List String
  publicAddresses : List String
  privateAddresses : List String

/-- The loops over actions and addresses: a comma before every entry but the first. -/
def commaList : List String → List Char
  | [] => []
  | [s] => s.toList
  | s :: t :: rest => s.toList ++ ',' :: commaList (t :: rest)

def createInstanceOutput (reqId : String) (inst : Instance) : List Char :=
  reqId.toList ++ " NULL ".toList ++
    ("id=".toList ++ escapeId inst.id ++ [' ']) ++
    ("state=".toList ++ inst.state.toList ++ [' ']) ++
    ("actions=".toList ++ commaList inst.actions ++ [' ']) ++
    ("public_addresses=".toList ++ commaList inst.publicAddresses ++ [' ']) ++
    ("private_addresses=".toList ++ commaList inst.privateAddresses) ++ ['\n']

def statusAllOutput (reqId : String) (instances : List Instance) : List Char :=
  reqId.toList ++ " NULL".toList ++
    instances.flatMap (fun curr =>
      " ".toList ++ escapeId curr.id ++ " ".toList ++ curr.state.toList) ++ "\n".toList

/-- `buf_size` of `read_argv`. -/
def argvBufSize : Nat := 1024 * 500

/-- `GahpServer::read_argv` without a prefix in use: the arguments of the next line and
what is left to read, or a failed `ASSERT`. At the end of the file there are no arguments.
A line with the single argument `R` is trashed. -/
def readArgvLine (args : List String) (buf : List Char) (escapeSeen : Bool) :
    List Char → Except String (List String × List Char)
  | [] =>
    if buf.length < argvBufSize then .ok ([], [])
    else .error "Assertion ERROR on (ibuf < buf_size)"
  | c :: rest =>
    if argvBufSize ≤ buf.length then .error "Assertion ERROR on (ibuf < buf_size)"
    else if escapeSeen then readArgvLine args (buf ++ [c]) false rest
    else if c = '\\' then readArgvLine args buf true rest
    else if c = '\r' then readArgvLine args buf false rest
    else if c = ' ' then readArgvLine (args ++ [String.ofList buf]) [] false rest
    else if c = '\n' then
      if args = [] ∧ buf.head? = some 'R' then readArgvLine [] [] false rest
      else .ok (args ++ [String.ofList buf], rest)
    else readArgvLine args (buf ++ [c]) false rest

inductive Reply where
  | failure (message : String)
  | instanceOutput (inst : Instance)
  | statusAll (instances : List Instance)

namespace Reply

def text (reqId : String) : Reply → List Char
  | .failure message => createFailure reqId message
  | .instanceOutput inst => createInstanceOutput reqId inst
  | .statusAll instances => statusAllOutput reqId instances

def arguments (reqId : String) : Reply → List String
  | .failure message => [reqId, message]
  | .instanceOutput inst =>
    [reqId, "NULL", "id=" ++ inst.id, "state=" ++ inst.state,
      "actions=" ++ ",".intercalate inst.actions,
      "public_addresses=" ++ ",".intercalate inst.publicAddresses,
      "private_addresses=" ++ ",".intercalate inst.privateAddresses]
  | .statusAll instances => reqId :: "NULL" :: instances.flatMap fun curr => [curr.id, curr.state]

end Reply

def argvFormat : Alphabet Char where
  kind c :=
    if c = '\\' then .escape
    else if c = '\r' then .skip
    else if c = ' ' then .separator
    else if c = '\n' then .terminator
    else .plain
  escape := '\\'
  separator := ' '
  terminator := '\n'
  kind_escape := rfl
  kind_separator := rfl
  kind_terminator := rfl

theorem kind_plain_iff {c : Char} : argvFormat.kind c = .plain ↔ plain c = true := by
  unfold argvFormat plain
  simp only [decide_eq_true_eq]
  split
  · simp [*]
  · split
    · simp [*]
    · split
      · simp [*]
      · split <;> simp [*]

def Reply.fields (reqId : String) : Reply → List (Written Char)
  | .failure message => [⟨fun _ => false, reqId.toList⟩, ⟨fun c => c = ' ', message.toList⟩]
  | .instanceOutput inst =>
    [⟨fun _ => false, reqId.toList⟩, ⟨fun _ => false, "NULL".toList⟩,
      ⟨fun c => c = ' ' ∨ c = '\\', "id=".toList ++ inst.id.toList⟩,
      ⟨fun _ => false, "state=".toList ++ inst.state.toList⟩,
      ⟨fun _ => false, "actions=".toList ++ commaList inst.actions⟩,
      ⟨fun _ => false, "public_addresses=".toList ++ commaList inst.publicAddresses⟩,
      ⟨fun _ => false, "private_addresses=".toList ++ commaList inst.privateAddresses⟩]
  | .statusAll instances =>
    ⟨fun _ => false, reqId.toList⟩ :: ⟨fun _ => false, "NULL".toList⟩ ::
      instances.flatMap fun curr =>
        [⟨fun c => c = ' ' ∨ c = '\\', curr.id.toList⟩, ⟨fun _ => false, curr.state.toList⟩]

/-- Every special symbol of the reply is one that its writer escapes. -/
def Reply.Escaped : Reply → Prop
  | .failure message => ∀ c ∈ message.toList, c ≠ '\\' ∧ c ≠ '\r' ∧ c ≠ '\n'
  | .instanceOutput inst =>
    (∀ c ∈ inst.id.toList, c ≠ '\r' ∧ c ≠ '\n') ∧
      ∀ s ∈ inst.state :: (inst.actions ++ inst.publicAddresses ++ inst.privateAddresses),
        ∀ c ∈ s.toList, plain c = true
  | .statusAll instances =>
    ∀ inst ∈ instances, (∀ c ∈ inst.id.toList, c ≠ '\r' ∧ c ≠ '\n') ∧
      ∀ c ∈ inst.state.toList, plain c = true

instance : DecidablePred Reply.Escaped
  | .failure _ => List.decidableBAll _ _
  | .instanceOutput _ =>
    @instDecidableAnd _ _ (List.decidableBAll _ _)
      (@List.decidableBAll _ _ (fun _ => List.decidableBAll _ _) _)
  | .statusAll _ =>
    @List.decidableBAll _ _
      (fun _ => @instDecidableAnd _ _ (List.decidableBAll _ _) (List.decidableBAll _ _)) _

/-! ## The reader is the reader of the format, with a buffer of fixed size -/

theorem map_ofList_inj {fs gs : List (List Char)} :
    fs.map String.ofList = gs.map String.ofList ↔ fs = gs :=
  (List.map_injective_iff.mpr fun _ _ same => String.ofList_injective same).eq_iff

theorem readArgvLine_plain {word : List Char} (plainly : ∀ c ∈ word, plain c = true)
    (args : List String) (buf rest : List Char) (fits : (buf ++ word).length < argvBufSize) :
    readArgvLine args buf false (word ++ rest) = readArgvLine args (buf ++ word) false rest := by
  induction word generalizing buf with
  | nil => simp
  | cons c word ih =>
    have here : c ≠ '\\' ∧ c ≠ '\r' ∧ c ≠ ' ' ∧ c ≠ '\n' :=
      of_decide_eq_true (plainly c List.mem_cons_self)
    have short : ¬argvBufSize ≤ buf.length := by
      rw [List.length_append] at fits
      omega
    rw [List.cons_append, readArgvLine]
    simp only [short, here.1, here.2.1, here.2.2.1, here.2.2.2, if_false, Bool.false_eq_true]
    rw [ih (fun c member => plainly c (List.mem_cons_of_mem _ member)) _ (by simpa using fits)]
    simp

theorem readArgvLine_eq_ok_iff {args : List (List Char)} (later : args ≠ [])
    (bounded : ∀ f ∈ args, f.length < argvBufSize) (buf : List Char) (escapeSeen : Bool)
    (cs : List Char) {fs : List (List Char)} (nonempty : fs ≠ []) (rest : List Char) :
    readArgvLine (args.map String.ofList) buf escapeSeen cs = .ok (fs.map String.ofList, rest) ↔
      argvFormat.readFields ⟨args, buf, escapeSeen⟩ cs = some (fs, rest) ∧
        ∀ f ∈ fs, f.length < argvBufSize := by
  induction cs generalizing args buf escapeSeen with
  | nil =>
    refine iff_of_false ?_ (fun ⟨read, _⟩ => by cases read)
    rw [readArgvLine]
    split
    · intro same
      have empty : fs.map String.ofList = [] := (Prod.mk.inj (Except.ok.inj same)).1.symm
      exact nonempty (List.map_eq_nil_iff.mp empty)
    · exact fun same => by cases same
  | cons c cs ih =>
    by_cases long : argvBufSize ≤ buf.length
    · rw [readArgvLine, if_pos long]
      refine iff_of_false (fun same => by cases same) fun ⟨read, short⟩ => ?_
      obtain ⟨f, member, grown⟩ := Alphabet.readFields_current read
      exact absurd (short f member) (Nat.not_lt.mpr (long.trans grown))
    have more : ∀ f ∈ args ++ [buf], f.length < argvBufSize := by
      intro f member
      rcases List.mem_append.mp member with old | new
      · exact bounded f old
      · rw [List.mem_singleton.mp new]
        exact Nat.not_le.mp long
    rw [readArgvLine, if_neg long, Alphabet.readFields]
    cases escapeSeen with
    | true => exact ih later bounded _ _
    | false =>
      simp only [Bool.false_eq_true, if_false]
      by_cases escape : c = '\\'
      · subst escape
        exact ih later bounded _ _
      by_cases skip : c = '\r'
      · subst skip
        exact ih later bounded _ _
      by_cases blank : c = ' '
      · subst blank
        have next := ih (List.append_ne_nil_of_right_ne_nil args (List.cons_ne_nil buf [])) more
          [] false
        rw [List.map_append] at next
        exact next
      by_cases newline : c = '\n'
      · subst newline
        have notR : ¬(args.map String.ofList = [] ∧ buf.head? = some 'R') :=
          fun both => later (List.map_eq_nil_iff.mp both.1)
        change (if _ ∧ _ then _ else Except.ok (_ ++ [String.ofList buf], cs)) = _ ↔
          some (args ++ [buf], cs) = _ ∧ _
        have whole : args.map String.ofList ++ [String.ofList buf] =
            (args ++ [buf]).map String.ofList := by rw [List.map_append]; rfl
        rw [if_neg notR, whole, Except.ok.injEq, Option.some.injEq, Prod.mk.injEq,
          Prod.mk.injEq, map_ofList_inj]
        constructor
        · rintro ⟨rfl, rfl⟩
          exact ⟨⟨rfl, rfl⟩, more⟩
        · exact And.left
      · have kind : argvFormat.kind c = .plain :=
          kind_plain_iff.mpr (decide_eq_true ⟨escape, skip, blank, newline⟩)
        simp only [escape, skip, blank, newline, if_false, kind]
        exact ih later bounded _ _

/-! ## The replies are lines of fields -/

theorem commaList_eq (ss : List String) : String.ofList (commaList ss) = ",".intercalate ss := by
  induction ss with
  | nil => rfl
  | cons s ss ih =>
    cases ss with
    | nil => simp [commaList]
    | cons t ss =>
      rw [String.intercalate_cons_cons, ← ih, commaList, String.ofList_append,
        String.ofList_cons]
      simp [String.append_assoc]

theorem plain_commaList {ss : List String} :
    (∀ c ∈ commaList ss, plain c = true) ↔ ∀ s ∈ ss, ∀ c ∈ s.toList, plain c = true := by
  have comma : plain ',' = true := by decide
  induction ss with
  | nil => simp [commaList]
  | cons s ss ih =>
    cases ss with
    | nil => simp [commaList]
    | cons t ss =>
      simp only [commaList, List.forall_mem_append, List.forall_mem_cons, comma,
        true_and] at ih ⊢
      exact and_congr Iff.rfl ih

theorem unescaped (s : List Char) :
    (Written.mk (fun _ => false) s).tokens.flatMap argvFormat.renderToken = s := by
  rw [Written.renderTokens]
  simp

theorem escapedId (label id : String) (unmarked : ∀ c ∈ label.toList, ¬(c = ' ' ∨ c = '\\')) :
    (Written.mk (fun c => c = ' ' ∨ c = '\\') (label.toList ++ id.toList)).tokens.flatMap
      argvFormat.renderToken = label.toList ++ escapeId id := by
  have plainly : label.toList.flatMap
      (fun c => if c = ' ' ∨ c = '\\' then ['\\', c] else [c]) = label.toList := by
    rw [List.flatMap_congr fun c member => if_neg (unmarked c member)]
    simp
  rw [Written.renderTokens]
  simp only [decide_eq_true_eq]
  rw [List.flatMap_append, show argvFormat.escape = '\\' from rfl, plainly]
  rfl

variable (reqId : String)

theorem Reply.text_eq (reply : Reply) :
    reply.text reqId = Written.renderFields argvFormat (reply.fields reqId) := by
  cases reply with
  | failure message =>
    rw [fields, Written.renderFields_cons, unescaped]
    simp [text, createFailure, argvFormat, Written.renderTokens]
  | instanceOutput inst =>
    have id := escapedId "id=" inst.id (List.all_iff_forall_prop.mp (by decide))
    simp only [fields, Written.renderFields_cons, List.flatMap_cons, List.flatMap_nil,
      unescaped, id]
    simp [text, createInstanceOutput, argvFormat]
  | statusAll instances =>
    have id := fun curr : Instance => escapedId "" curr.id nofun
    simp only [String.toList_empty, List.nil_append] at id
    simp only [fields, Written.renderFields_cons, List.flatMap_cons, unescaped,
      List.flatMap_assoc, List.flatMap_nil, id]
    simp [text, statusAllOutput, argvFormat]

theorem Reply.arguments_eq (reply : Reply) :
    reply.arguments reqId = ((reply.fields reqId).map Written.text).map String.ofList := by
  cases reply with
  | failure message => simp [arguments, fields]
  | instanceOutput inst =>
    simp only [arguments, fields, List.map_cons, List.map_nil, String.ofList_append,
      String.ofList_toList, commaList_eq]
  | statusAll instances =>
    simp only [arguments, fields, List.map_cons, String.ofList_toList, List.map_flatMap]
    simp

theorem Reply.escapes_special (reply : Reply) :
    ∀ f ∈ reply.fields reqId, ∀ c, f.escapes c = true → argvFormat.kind c ≠ .plain := by
  have special : ∀ f ∈ reply.fields reqId, ∀ c, f.escapes c = true → c = ' ' ∨ c = '\\' := by
    cases reply with
    | failure message => simp [fields]
    | instanceOutput inst => simp [fields]
    | statusAll instances =>
      simp only [fields, List.forall_mem_cons, List.mem_flatMap]
      refine ⟨nofun, nofun, ?_⟩
      rintro f ⟨curr, -, member⟩ c escapes
      rcases List.mem_pair.mp member with rfl | rfl
      · exact of_decide_eq_true escapes
      · cases escapes
  intro f member c escapes
  rcases special f member c escapes with rfl | rfl <;> decide

variable {s : List Char}

theorem faithful_iff_plain {escapes : Char → Bool} :
    (Written.mk escapes s).Faithful argvFormat ↔ ∀ c ∈ s, plain c = true ∨ escapes c = true := by
  simp only [Written.Faithful, ne_eq, kind_plain_iff, or_iff_not_imp_left]

theorem faithful_unescaped :
    (Written.mk (fun _ => false) s).Faithful argvFormat ↔ ∀ c ∈ s, plain c = true := by
  simp [faithful_iff_plain]

theorem faithful_message :
    (Written.mk (fun c => c = ' ') s).Faithful argvFormat ↔
      ∀ c ∈ s, c ≠ '\\' ∧ c ≠ '\r' ∧ c ≠ '\n' := by
  rw [faithful_iff_plain]
  refine forall₂_congr fun c _ => ?_
  simp only [plain, decide_eq_true_eq]
  constructor
  · rintro (⟨a, b, -, d⟩ | rfl)
    · exact ⟨a, b, d⟩
    · decide
  · rintro ⟨a, b, d⟩
    by_cases blank : c = ' '
    · exact .inr blank
    · exact .inl ⟨a, b, blank, d⟩

theorem faithful_id :
    (Written.mk (fun c => c = ' ' ∨ c = '\\') s).Faithful argvFormat ↔
      ∀ c ∈ s, c ≠ '\r' ∧ c ≠ '\n' := by
  rw [faithful_iff_plain]
  refine forall₂_congr fun c _ => ?_
  simp only [plain, decide_eq_true_eq]
  constructor
  · rintro (⟨-, b, -, d⟩ | rfl | rfl)
    · exact ⟨b, d⟩
    · decide
    · decide
  · rintro ⟨b, d⟩
    by_cases marked : c = ' ' ∨ c = '\\'
    · exact .inr marked
    · rw [not_or] at marked
      exact .inl ⟨marked.2, b, marked.1, d⟩

theorem Reply.faithful_iff (plainly : ∀ c ∈ reqId.toList, plain c = true) (reply : Reply) :
    (∀ f ∈ reply.fields reqId, f.Faithful argvFormat) ↔ reply.Escaped := by
  cases reply with
  | failure message =>
    simp only [fields, Escaped, List.forall_mem_cons, faithful_unescaped, faithful_message]
    exact ⟨fun all => all.2.1, fun message => ⟨plainly, message, nofun⟩⟩
  | instanceOutput inst =>
    simp only [fields, Escaped, List.forall_mem_cons, faithful_unescaped, faithful_id,
      List.forall_mem_append, plain_commaList]
    constructor
    · rintro ⟨-, -, ⟨-, id⟩, ⟨-, state⟩, ⟨-, actions⟩, ⟨-, pub⟩, ⟨-, priv⟩, -⟩
      exact ⟨id, state, ⟨actions, pub⟩, priv⟩
    · rintro ⟨id, state, ⟨actions, pub⟩, priv⟩
      have label : ∀ s ∈ ["NULL", "state=", "actions=", "public_addresses=",
          "private_addresses="], ∀ c ∈ s.toList, plain c = true := by
        simp only [List.forall_mem_cons, ← List.all_eq_true]
        decide
      have idLabel : ∀ c ∈ "id=".toList, c ≠ '\r' ∧ c ≠ '\n' :=
        List.all_iff_forall_prop.mp (by decide)
      exact ⟨plainly, label _ (by simp), ⟨idLabel, id⟩, ⟨label _ (by simp), state⟩,
        ⟨label _ (by simp), actions⟩, ⟨label _ (by simp), pub⟩, ⟨label _ (by simp), priv⟩,
        nofun⟩
  | statusAll instances =>
    simp only [fields, Escaped, List.forall_mem_cons, faithful_unescaped, List.mem_flatMap]
    constructor
    · rintro ⟨-, -, all⟩ inst member
      exact ⟨faithful_id.mp (all _ ⟨inst, member, List.mem_cons_self⟩),
        faithful_unescaped.mp (all _ ⟨inst, member, List.mem_cons_of_mem _ List.mem_cons_self⟩)⟩
    · refine fun all => ⟨plainly, List.all_iff_forall_prop.mp (by decide), ?_⟩
      rintro f ⟨inst, member, inside⟩
      rcases List.mem_pair.mp inside with rfl | rfl
      · exact faithful_id.mpr (all inst member).1
      · exact faithful_unescaped.mpr (all inst member).2

theorem Reply.fields_eq (reply : Reply) :
    ∃ f fs, reply.fields reqId = ⟨fun _ => false, reqId.toList⟩ :: f :: fs := by
  cases reply <;> exact ⟨_, _, rfl⟩

theorem Reply.readArgvLine_text (reply : Reply) {reqId : String}
    (plainly : ∀ c ∈ reqId.toList, plain c = true) (short : reqId.toList.length < argvBufSize)
    (rest : List Char) :
    readArgvLine [] [] false (reply.text reqId ++ rest) = .ok (reply.arguments reqId, rest) ↔
      argvFormat.readFields .start (Written.renderFields argvFormat (reply.fields reqId) ++ rest) =
          some ((reply.fields reqId).map Written.text, rest) ∧
        ∀ f ∈ (reply.fields reqId).map Written.text, f.length < argvBufSize := by
  obtain ⟨f, fs, split⟩ := reply.fields_eq reqId
  have nonempty : (reply.fields reqId).map Written.text ≠ [] := by
    rw [split]
    exact List.cons_ne_nil _ _
  have start : ∃ more, Written.renderFields argvFormat (reply.fields reqId) ++ rest =
      reqId.toList ++ ' ' :: more := by
    rw [split, Written.renderFields_cons, unescaped]
    exact ⟨_, by simp only [List.flatMap_cons, List.append_assoc, List.cons_append]; rfl⟩
  obtain ⟨more, begins⟩ := start
  have bounded : ∀ f ∈ [reqId.toList], f.length < argvBufSize := by simpa using short
  have first : readArgvLine [] reqId.toList false (' ' :: more) =
      readArgvLine ([reqId.toList].map String.ofList) [] false more := by
    rw [readArgvLine, if_neg (Nat.not_le.mpr short)]
    rfl
  rw [reply.text_eq, reply.arguments_eq, begins, readArgvLine_plain plainly [] [] _ short,
    List.nil_append, first, readArgvLine_eq_ok_iff (List.cons_ne_nil _ _) bounded _ _ _ nonempty,
    Reading.start, Alphabet.readFields_plain fun c member => kind_plain_iff.mpr (plainly c member)]
  rfl

/-- A reply is read as exactly one line with the arguments it is meant to have if and only
if its special symbols are among those its writer escapes and its arguments fit the buffer. -/
theorem reply_read_iff (reqId : Nat) (small : reqId < 2 ^ 31) (reply : Reply) :
    (∀ rest, readArgvLine [] [] false (reply.text (toString reqId) ++ rest) =
        .ok (reply.arguments (toString reqId), rest)) ↔
      reply.Escaped ∧ ∀ a ∈ reply.arguments (toString reqId), a.length < 512000 := by
  have plainly := plain_toString reqId
  have short : (toString reqId).toList.length < argvBufSize := by
    have digits := Nat.toDigits_length 10 reqId 10 (by decide) (small.trans (by decide))
    have same : (toString reqId).toList.length = (Nat.toDigits 10 reqId).length := by simp
    rw [same]
    exact digits.trans_lt (by decide)
  have nonempty : reply.fields (toString reqId) ≠ [] := by
    obtain ⟨f, fs, split⟩ := reply.fields_eq (toString reqId)
    rw [split]
    exact List.cons_ne_nil _ _
  have lengths : (∀ a ∈ reply.arguments (toString reqId), a.length < 512000) ↔
      ∀ f ∈ (reply.fields (toString reqId)).map Written.text, f.length < argvBufSize := by
    rw [reply.arguments_eq, List.forall_mem_map]
    simp [argvBufSize]
  have readable := Written.readFields_renderFields_iff nonempty (reply.escapes_special _)
  rw [lengths, ← reply.faithful_iff _ plainly, ← readable]
  constructor
  · intro read
    have alone := (reply.readArgvLine_text plainly short []).mp (read [])
    rwa [List.append_nil] at alone
  · rintro ⟨read, bounded⟩ rest
    exact (reply.readArgvLine_text plainly short rest).mpr
      ⟨Written.readFields_renderFields nonempty (readable.mp read) rest, bounded⟩

def twoLines : Reply := .failure "Deltacloud_Init_Failure: bad\nrequest"

/-- The line end is not escaped: the message is cut, and its rest becomes another line. -/
theorem twoLines_split :
    readArgvLine [] [] false (twoLines.text "7") =
      .ok (["7", "Deltacloud_Init_Failure: bad"], "request\n".toList) := by
  decide +kernel

theorem reply_read_iff_instance :
    let reply := Reply.instanceOutput ⟨"i 7\\", "RUNNING", ["stop", "reboot"], ["10.0.0.1"], []⟩
    ∀ rest, readArgvLine [] [] false (reply.text (toString 7) ++ rest) =
      .ok (["7", "NULL", "id=i 7\\", "state=RUNNING", "actions=stop,reboot",
        "public_addresses=10.0.0.1", "private_addresses="], rest) := by
  intro reply rest
  have read := (reply_read_iff 7 (by decide) reply).mpr
    ⟨by decide +kernel, by decide +kernel⟩ rest
  exact read

end Condor.DeltacloudGahp
