import Condor.Utils.ArgList

/-! Each syntax is treated word by word: what the reader makes of one written argument, whatever
follows it. The writer's choice of a syntax is compared with the reader's guess. -/
namespace Condor.Utils

open Condor.Lib

/-! ## V2 syntax -/

/-- What `append_arg` writes for the rest of an argument, inside or outside a quoted
section. -/
def quotedText : Bool → Text → Text
  | inside, [] => if inside then ['\''] else []
  | inside, c :: arg =>
    if isBlank c || c == '\'' then
      (if inside then [] else ['\'']) ++ (if c = '\'' then ['\'', '\''] else [c]) ++
        quotedText true arg
    else (if inside then ['\''] else []) ++ c :: quotedText false arg

def v2Word (arg : Text) : Text := if arg = [] then ['\'', '\''] else quotedText false arg

theorem foldl_appendChar (arg : Text) (inside : Bool) (result : Text)
    (closed : inside = false → result.getLast? ≠ some '\'') :
    arg.foldl appendChar (result ++ if inside then ['\''] else []) =
      result ++ quotedText inside arg := by
  induction arg generalizing inside result with
  | nil => rfl
  | cons c arg ih =>
    rw [List.foldl_cons, quotedText]
    by_cases special : (isBlank c || c == '\'') = true
    · have more := ih true (result ++ (if inside then [] else ['\'']) ++
        if c = '\'' then [c] else []) nofun
      cases inside with
      | true => grind [appendChar]
      | false => grind [appendChar]
    · have more := ih false (result ++ (if inside then ['\''] else []) ++ [c])
      grind [appendChar]

theorem appendArg_eq (result arg : Text) :
    appendArg result arg = addWord ' ' result (v2Word arg) := by
  have closed : (if result = [] then result else result ++ [' ']).getLast? ≠ some '\'' := by
    split
    · next empty =>
        rw [empty]
        decide
    · rw [List.getLast?_concat]
      decide
  have whole := foldl_appendChar arg false _ fun _ => closed
  grind [appendArg, addWord, v2Word]

variable {rest buf : Text} {parsed : Bool}

/-- A quoted text is read up to its end if no quote follows. -/
theorem splitFrom_quotedText (fresh : rest.head? ≠ some '\'') (arg : Text) :
    (∀ quote buf list, splitFrom (some quote) buf true list (quotedText true arg ++ rest) =
      splitFrom none (buf ++ arg) true list rest) ∧
    ∀ buf parsed list, splitFrom none buf parsed list (quotedText false arg ++ rest) =
      splitFrom none (buf ++ arg) (parsed || !arg.isEmpty) list rest := by
  induction arg with
  | nil =>
    constructor
    · intro quote buf list
      have unescaped : ∀ args, rest = '\'' :: args → False := by
        rintro args rfl
        exact fresh rfl
      simp [quotedText, splitFrom.eq_4 _ _ _ _ _ unescaped]
    · intro buf parsed list
      simp [quotedText]
  | cons c arg ih =>
    obtain ⟨inside, outside⟩ := ih
    by_cases special : (isBlank c || c == '\'') = true
    · by_cases quote : c = '\''
      · subst quote
        simp [quotedText, splitFrom, inside]
      · have blank : isBlank c = true := by simpa [quote] using special
        simp [quotedText, splitFrom, blank, quote, inside]
    · have plain : isBlank c = false ∧ c ≠ '\'' := by simpa using special
      simp [quotedText, splitFrom, plain, outside]

theorem reads_v2Word (arg : Text) : Reads (splitFrom none [] false) .ok ' ' (v2Word arg) [arg] := by
  have word (rest : Text) (fresh : rest.head? ≠ some '\'') (list : List Text) :
      splitFrom none [] false list (v2Word arg ++ rest) = splitFrom none arg true list rest := by
    rw [v2Word]
    split
    · next empty =>
        have unescaped : ∀ args, rest = '\'' :: args → False := by
          rintro args rfl
          exact fresh rfl
        simp [empty, splitFrom, splitFrom.eq_4 _ _ _ _ _ unescaped]
    · next content =>
        have filled : arg.isEmpty = false := by simpa using content
        rw [(splitFrom_quotedText fresh arg).2, filled]
        rfl
  refine ⟨fun empty => ?_, fun list => ?_, fun list rest => ?_⟩
  · cases arg with
    | nil => cases empty
    | cons c arg =>
      rw [v2Word, if_neg (List.cons_ne_nil c arg), quotedText] at empty
      split at empty <;> simp at empty
  · have ended := word [] nofun list
    rw [List.append_nil] at ended
    rw [ended]
    rfl
  · rw [word _ (by simp)]
    simp [splitFrom, isBlank]

theorem reads_nil : Reads (splitFrom none [] false) .ok ' ' [] [] :=
  ⟨fun _ => rfl, by simp [splitFrom], by simp [splitFrom, isBlank]⟩

theorem reads_marker : Reads (splitFrom none [] false) .ok ' ' [' '] [] :=
  ⟨nofun, by simp [splitFrom, isBlank], by simp [splitFrom, isBlank]⟩

theorem reads_joinArgs {text : Text} (start : Reads (splitFrom none [] false) .ok ' ' text [])
    (args : List Text) :
    Reads (splitFrom none [] false) .ok ' ' (joinArgs args text) args := by
  have all := start.addWords fun arg (_ : arg ∈ args) => reads_v2Word arg
  have each : (args.flatMap fun arg => [arg]) = args := by simp
  rw [List.nil_append, each] at all
  have same : appendArg = fun text arg => addWord ' ' text (v2Word arg) := by
    funext text arg
    exact appendArg_eq text arg
  rw [joinArgs, same]
  exact all

theorem joinArgs_cons (args : List Text) (c : Char) (text : Text) :
    ∃ rest, joinArgs args (c :: text) = c :: rest := by
  induction args generalizing text with
  | nil => exact ⟨text, rfl⟩
  | cons arg args ih =>
    have first : appendArg (c :: text) arg = c :: (text ++ ' ' :: v2Word arg) := by
      simp [appendArg_eq, addWord]
    obtain ⟨rest, all⟩ := ih (text ++ ' ' :: v2Word arg)
    exact ⟨rest, by rw [← all, ← first]; rfl⟩

theorem splitArgs_joinArgs (args list : List Text) :
    splitArgs (joinArgs args []) list = .ok (list ++ args) :=
  (reads_joinArgs reads_nil args).last list

/-! ## Double quotes -/

theorem escapeChars_cons (c escape : Char) (s : Text) :
    escapeChars (c :: s) ['"'] escape =
      (if c = '"' then [escape, c] else [c]) ++ escapeChars s ['"'] escape := by
  simp [escapeChars]

theorem unquote_escapeChars (s : Text) (fresh : rest.head? ≠ some '"') :
    unquote (escapeChars s ['"'] '"' ++ '"' :: rest) = some (s, rest) := by
  induction s with
  | nil =>
    have unescaped : ∀ input, rest = '"' :: input → False := by
      rintro input rfl
      exact fresh rfl
    exact unquote.eq_3 _ unescaped
  | cons c s ih =>
    rw [escapeChars_cons]
    by_cases quote : c = '"'
    · subst quote
      simp [unquote, ih]
    · simp [unquote, ih, quote]

variable (raw : Text)

theorem isV2QuotedString_v2RawToV2Quoted :
    isV2QuotedString (v2RawToV2Quoted raw) = true := rfl

theorem v2QuotedToV2Raw_v2RawToV2Quoted : v2QuotedToV2Raw (v2RawToV2Quoted raw) = .ok raw := by
  have opened : ((v2RawToV2Quoted raw).dropWhile isSpaceChar).drop 1 =
      escapeChars raw ['"'] '"' ++ ['"'] := rfl
  rw [v2QuotedToV2Raw, opened, unquote_escapeChars raw (by simp)]
  rfl

theorem isV2QuotedString_v1RawToV1Wacked : isV2QuotedString (v1RawToV1Wacked raw) = false := by
  rw [isV2QuotedString, v1RawToV1Wacked]
  induction raw with
  | nil => rfl
  | cons c raw ih =>
    rw [escapeChars_cons]
    by_cases quote : c = '"'
    · subst quote
      rfl
    · by_cases space : isSpaceChar c = true
      · simpa [quote, space] using ih
      · simp [quote, space]

theorem v1WackedToV1Raw_v1RawToV1Wacked : v1WackedToV1Raw (v1RawToV1Wacked raw) = .ok raw := by
  rw [v1RawToV1Wacked]
  induction raw with
  | nil => rfl
  | cons c raw ih =>
    rw [escapeChars_cons]
    by_cases quote : c = '"'
    · subst quote
      simp [v1WackedToV1Raw, ih, Except.map]
    · -- an escaped text never starts with a bare quote
      have wacked : ∀ input, c = '\\' → escapeChars raw ['"'] '\\' = '"' :: input → False := by
        intro input _ starts
        cases raw with
        | nil => cases starts
        | cons d raw =>
          rw [escapeChars_cons] at starts
          split at starts <;> simp_all
      rw [if_neg quote, List.singleton_append, v1WackedToV1Raw.eq_4 _ _ wacked quote, ih]
      rfl

namespace ArgList

/-- A list written in V2 syntax is read back, raw and enclosed in double quotes. -/
theorem v2_round_trip (writer reader : ArgList) :
    splitArgs (joinArgs writer.argsList []) [] = .ok writer.argsList ∧
    reader.appendArgsV2Quoted writer.getArgsStringV2Quoted =
      .ok { reader with argsList := reader.argsList ++ writer.argsList } := by
  refine ⟨splitArgs_joinArgs writer.argsList [], ?_⟩
  rw [appendArgsV2Quoted, getArgsStringV2Quoted, if_pos (isV2QuotedString_v2RawToV2Quoted _),
    v2QuotedToV2Raw_v2RawToV2Quoted]
  simp only [Except.bind, appendArgsV2Raw, getArgsStringV2Raw, splitArgs_joinArgs, Except.map]

end ArgList

/-! ## V1 syntax -/

theorem splitBlanks_list (buf : Text) (parsed : Bool) (list : List Text) (args : Text) :
    splitBlanks buf parsed list args = list ++ splitBlanks buf parsed [] args := by
  induction args generalizing buf parsed list with
  | nil => cases parsed <;> simp [splitBlanks]
  | cons c args ih =>
    rw [splitBlanks, splitBlanks, ih _ _ (list ++ [buf]), ih _ _ ([] ++ [buf])]
    grind

theorem splitBlanks_next (fresh : parsed = false → buf = []) (list : List Text) (args rest : Text) :
    splitBlanks buf parsed list (args ++ ' ' :: rest) =
      splitBlanks [] false (splitBlanks buf parsed list args) rest := by
  induction args generalizing buf parsed list with
  | nil => cases parsed <;> simp_all [splitBlanks, isBlank]
  | cons c args ih =>
    rw [List.cons_append, splitBlanks, splitBlanks]
    split
    · split
      · exact ih (fun _ => rfl) _
      · exact ih (fun _ => fresh (by simpa using ‹¬parsed = true›)) _
    · exact ih (fun wrong => by cases wrong) _

def v1Words (args : Text) : List Text := splitBlanks [] false [] args

theorem reads_v1Words (args : Text) : Reads (splitBlanks [] false) id ' ' args (v1Words args) where
  empty := by
    rintro rfl
    rfl
  last list := splitBlanks_list [] false list args
  next list rest := by
    rw [splitBlanks_next (fun _ => rfl), splitBlanks_list [] false list args, v1Words]

variable {arg args : Text}

theorem splitBlanks_safe (safe : ArgList.isSafeArgV1Value arg = true) (buf : Text) (parsed : Bool) :
    splitBlanks buf parsed [] arg =
      if (parsed || !arg.isEmpty) = true then [buf ++ arg] else [] := by
  induction arg generalizing buf parsed with
  | nil => simp [splitBlanks]
  | cons c arg ih =>
    have plain : isBlank c = false ∧ ArgList.isSafeArgV1Value arg = true := by
      simpa [ArgList.isSafeArgV1Value] using safe
    simp [splitBlanks, plain.1, ih plain.2]

theorem v1Words_safe (safe : ArgList.isSafeArgV1Value arg = true) :
    v1Words arg = if arg = [] then [] else [arg] := by
  rw [v1Words, splitBlanks_safe safe]
  cases arg <;> simp

theorem mem_splitBlanks {list : List Text}
    (good : ∀ a ∈ list, a ≠ [] ∧ ArgList.isSafeArgV1Value a = true)
    (begun : parsed = true → buf ≠ []) (safe : ArgList.isSafeArgV1Value buf = true)
    (member : arg ∈ splitBlanks buf parsed list args) :
    arg ≠ [] ∧ ArgList.isSafeArgV1Value arg = true := by
  induction args generalizing buf parsed list with
  | nil => grind [splitBlanks]
  | cons c args ih =>
    have grown (plain : ¬isBlank c = true) : ArgList.isSafeArgV1Value (buf ++ [c]) = true := by
      simp_all [ArgList.isSafeArgV1Value]
    rw [splitBlanks] at member
    grind [ArgList.isSafeArgV1Value]

theorem mem_v1Words (member : arg ∈ v1Words args) :
    arg ≠ [] ∧ ArgList.isSafeArgV1Value arg = true :=
  mem_splitBlanks (fun _ none => absurd none List.not_mem_nil) (fun wrong => by cases wrong) rfl
    member

namespace ArgList

theorem getArgsStringV1Raw_eq (a : ArgList) (result : Text) :
    (∃ text, a.getArgsStringV1Raw result = .ok text ∧
      text = a.argsList.foldl (fun text arg => addWord ' ' text arg) result ∧
      ∀ arg ∈ a.argsList, isSafeArgV1Value arg = true) ∨
    (∃ message, a.getArgsStringV1Raw result = .error message) ∧
      ∃ arg ∈ a.argsList, isSafeArgV1Value arg = false := by
  rw [getArgsStringV1Raw]
  induction a.argsList generalizing result with
  | nil => exact .inl ⟨result, rfl, rfl, by simp⟩
  | cons arg args ih =>
    rw [List.foldlM_cons]
    cases safe : isSafeArgV1Value arg with
    | false => exact .inr ⟨⟨_, rfl⟩, arg, List.mem_cons_self, safe⟩
    | true =>
      rcases ih (addWord ' ' result arg) with ⟨text, written, same, all⟩ | ⟨⟨m, failed⟩, bad⟩
      · exact .inl ⟨text, written, same, by simpa [safe] using all⟩
      · obtain ⟨other, member, blank⟩ := bad
        exact .inr ⟨⟨m, failed⟩, other, List.mem_cons_of_mem arg member, blank⟩

theorem appendArgsV1Raw_written {reader : ArgList} (unix : reader.v1Syntax ≠ .win32)
    {args : List Text} (safe : ∀ arg ∈ args, isSafeArgV1Value arg = true) :
    (reader.appendArgsV1Raw (args.foldl (fun text arg => addWord ' ' text arg) [])).map argsList =
      .ok (reader.argsList ++ args.filter (· ≠ [])) := by
  have words : args.flatMap v1Words = args.filter (· ≠ []) := by
    induction args with
    | nil => rfl
    | cons arg args ih =>
      rw [List.flatMap_cons, ih fun a member => safe a (List.mem_cons_of_mem arg member),
        v1Words_safe (safe arg List.mem_cons_self)]
      split <;> simp_all
  have all := (reads_v1Words []).addWords fun arg (_ : arg ∈ args) => reads_v1Words arg
  have back := all.last reader.argsList
  rw [words] at back
  rw [appendArgsV1Raw]
  split
  · next win32 => exact absurd win32 unix
  · exact congrArg Except.ok back
  · exact congrArg Except.ok back

/-- Where V1 and V2 share a channel, a list is read back exactly when it has no empty
argument or has one with a blank: an empty argument is written as nothing in V1 syntax. -/
theorem v1or2_round_trip_iff (writer reader : ArgList) (unix : reader.v1Syntax ≠ .win32) :
    (reader.appendArgsV1or2Raw (writer.getArgsStringV1or2Raw [])).map argsList =
        .ok (reader.argsList ++ writer.argsList) ↔
      (∀ arg ∈ writer.argsList, arg ≠ []) ∨
        ∃ arg ∈ writer.argsList, isSafeArgV1Value arg = false := by
  rw [getArgsStringV1or2Raw]
  rcases writer.getArgsStringV1Raw_eq [] with ⟨text, written, rfl, safe⟩ | ⟨⟨m, failed⟩, blank⟩
  · -- a V1 text never starts with the blank that marks V2
    have v1 : ∀ args, writer.argsList.foldl (fun text arg => addWord ' ' text arg) [] =
        ' ' :: args → False := by
      intro args starts
      have unmarked : ∀ c ∈ (' ' :: args).head?, isBlank c = false := by
        rw [← starts]
        refine head_addWords (by simp) fun arg member c first => ?_
        have plain := safe arg member
        cases arg <;> simp_all [isSafeArgV1Value]
      exact absurd (unmarked ' ' rfl) (by decide)
    have read := appendArgsV1Raw_written unix safe
    simp only [written]
    rw [appendArgsV1or2Raw.eq_2 _ _ v1, read, Except.ok.injEq, List.append_cancel_left_eq,
      List.filter_eq_self]
    grind
  · simp only [failed]
    have read := (reads_joinArgs reads_marker writer.argsList).last reader.argsList
    obtain ⟨args, marked⟩ := joinArgs_cons writer.argsList ' ' []
    rw [marked] at read
    have skipped : splitArgs args reader.argsList = .ok (reader.argsList ++ writer.argsList) := by
      simpa [splitArgs, splitFrom, isBlank] using read
    rw [getArgsStringV2Raw, List.nil_append, marked, appendArgsV1or2Raw, appendArgsV2Raw, skipped]
    exact iff_of_true rfl (.inr blank)

theorem v1or2_round_trip_iff_two :
    ({} : ArgList).v1Syntax ≠ .win32 ∧
    ((({} : ArgList).appendArgsV1or2Raw
        (({ argsList := [['a'], ['b']] } : ArgList).getArgsStringV1or2Raw [])).map argsList =
        .ok ([] ++ [['a'], ['b']]) ↔
      (∀ arg ∈ [['a'], ['b']], arg ≠ []) ∨
        ∃ arg ∈ [['a'], ['b']], isSafeArgV1Value arg = false) :=
  ⟨by decide, v1or2_round_trip_iff { argsList := [['a'], ['b']] } {} (by decide)⟩

/-- One empty argument comes back as no argument. -/
theorem v1or2_loses_empty :
    (({} : ArgList).appendArgsV1or2Raw
      (({ argsList := [[]] } : ArgList).getArgsStringV1or2Raw [])).map argsList = .ok [] := rfl

end ArgList

/-! ## Windows -/

theorem splitWin32_backslashes (quote : Text) (n k : Nat) (buf : Text) (begun : Bool)
    (list : List Text) (rest : Text) :
    splitWin32 (some (quote, n)) buf begun list (List.replicate k '\\' ++ rest) =
      splitWin32 (some (quote, n + k)) buf begun list rest := by
  induction k generalizing n with
  | zero => rfl
  | succ k ih =>
    rw [List.replicate_succ, List.cons_append, splitWin32, if_pos rfl, ih]
    congr 3
    omega

/-- A quoted argument is read up to its closing quote. -/
theorem splitWin32_escapeWin32 (quote : Text) (n : Nat) (arg buf : Text) (begun : Bool)
    (list : List Text) (rest : Text) :
    splitWin32 (some (quote, n)) buf begun list (escapeWin32 n arg ++ '"' :: rest) =
      splitWin32 none (buf ++ List.replicate n '\\' ++ arg) begun list rest := by
  induction arg generalizing n buf with
  | nil =>
    have half : (n + n) / 2 = n := by omega
    have even : (n + n) % 2 ≠ 1 := by omega
    rw [escapeWin32, splitWin32_backslashes]
    simp [splitWin32, even, half]
  | cons c arg ih =>
    rw [escapeWin32]
    by_cases backslash : c = '\\'
    · subst backslash
      simp [splitWin32, ih (n + 1), List.replicate_succ']
    · by_cases mark : c = '"'
      · subst mark
        have odd : (n + n + 1) % 2 = 1 := by omega
        have half : (n + n + 1) / 2 = n := by omega
        rw [if_neg (by decide), if_pos rfl, List.append_assoc, splitWin32_backslashes]
        simp [splitWin32, odd, half, ih 0]
      · simp [splitWin32, backslash, mark, ih 0]

/-- Outside quotes Windows separates arguments as V1 syntax does. -/
theorem splitWin32_plain (plain : '"' ∉ args) (buf : Text) (begun : Bool)
    (fresh : begun = false → buf = []) (list : List Text) :
    splitWin32 none buf begun list args = .ok (splitBlanks buf begun list args) ∧
    ∀ rest, splitWin32 none buf begun list (args ++ ' ' :: rest) =
      splitWin32 none [] false (splitBlanks buf begun list args) rest := by
  induction args generalizing buf begun list with
  | nil => simp [splitWin32, splitBlanks, isBlank]
  | cons c args ih =>
    have other : c ≠ '"' ∧ '"' ∉ args := by grind
    cases blank : isBlank c with
    | true =>
      cases begun with
      | true =>
        simpa [splitBlanks, splitWin32, blank] using
          ih other.2 [] false (fun _ => rfl) (list ++ [buf])
      | false =>
        simpa [splitBlanks, splitWin32, blank, fresh rfl] using
          ih other.2 [] false (fun _ => rfl) list
    | false =>
      simpa [splitBlanks, splitWin32, blank, other.1] using
        ih other.2 (buf ++ [c]) true nofun list

/-- What is read of an argument in a Windows command line. -/
def win32Words (arg : Text) : List Text := if needsQuotes arg then [arg] else v1Words arg

theorem reads_quoteWin32 (arg : Text) :
    Reads (splitWin32 none [] false) .ok ' ' (quoteWin32 arg) (win32Words arg) := by
  rw [quoteWin32, win32Words]
  split
  · refine ⟨nofun, fun list => ?_, fun list rest => ?_⟩
    all_goals simp [splitWin32, splitWin32_escapeWin32, isBlank]
  · next unquoted =>
      have plain : '"' ∉ arg := by
        intro member
        exact unquoted (List.any_eq_true.mpr ⟨'"', member, rfl⟩)
      have read := splitWin32_plain plain [] false fun _ => rfl
      refine ⟨(reads_v1Words arg).empty, fun list => ?_, fun list rest => ?_⟩
      · rw [(read list).1, splitBlanks_list]
        rfl
      · rw [(read list).2, splitBlanks_list]
        rfl

namespace ArgList

/-- A Windows command line is read back exactly when no argument is empty and those with a
newline or a carriage return also have a blank, a tab or a quote. -/
theorem win32_round_trip_iff (writer reader : ArgList)
    (known : writer.inputWasUnknownPlatformV1 = false) :
    reader.appendArgsV1RawWin32 (writer.getArgsStringWin32 0 []) =
        .ok { reader with argsList := reader.argsList ++ writer.argsList } ↔
      ∀ arg ∈ writer.argsList, arg ≠ [] ∧
        (needsQuotes arg = true ∨ isSafeArgV1Value arg = true) := by
  have empty : Reads (splitWin32 none [] false) .ok ' ' [] [] := reads_quoteWin32 []
  have all := empty.addWords fun arg (_ : arg ∈ writer.argsList) => reads_quoteWin32 arg
  have read : reader.appendArgsV1RawWin32 (writer.getArgsStringWin32 0 []) =
      .ok { reader with argsList := reader.argsList ++ writer.argsList.flatMap win32Words } := by
    simp only [appendArgsV1RawWin32, getArgsStringWin32, known, Bool.false_eq_true, if_false,
      List.drop_zero, all.last, Except.map, List.nil_append]
  rw [read]
  simp only [Except.ok.injEq, ArgList.mk.injEq, List.append_cancel_left_eq, and_true]
  constructor
  · -- an argument that is read was quoted, or has no blank and is not empty
    intro same arg member
    rw [← same] at member
    obtain ⟨source, -, back⟩ := List.mem_flatMap.mp member
    rw [win32Words] at back
    split at back
    · next quoted =>
        obtain rfl := List.mem_singleton.mp back
        refine ⟨?_, .inl quoted⟩
        rintro rfl
        cases quoted
    · obtain ⟨filled, safe⟩ := mem_v1Words back
      exact ⟨filled, .inr safe⟩
  · intro good
    have each : ∀ arg ∈ writer.argsList, win32Words arg = [arg] := by
      intro arg member
      rw [win32Words]
      obtain ⟨filled, quoted | safe⟩ := good arg member
      · rw [if_pos quoted]
      · rw [v1Words_safe safe, if_neg filled, ite_self]
    rw [List.flatMap_congr each]
    simp

theorem win32_round_trip_iff_two :
    ({ argsList := [['a'], ['b', ' ']] } : ArgList).inputWasUnknownPlatformV1 = false ∧
    (({} : ArgList).appendArgsV1RawWin32
        (({ argsList := [['a'], ['b', ' ']] } : ArgList).getArgsStringWin32 0 []) =
        .ok { ({} : ArgList) with argsList := [] ++ [['a'], ['b', ' ']] } ↔
      ∀ arg ∈ [['a'], ['b', ' ']], arg ≠ [] ∧
        (needsQuotes arg = true ∨ isSafeArgV1Value arg = true)) :=
  ⟨rfl, win32_round_trip_iff { argsList := [['a'], ['b', ' ']] } {} rfl⟩

/-- An empty argument is lost, and a newline separates arguments. -/
theorem win32_loses_arguments :
    ({} : ArgList).appendArgsV1RawWin32
      (({ argsList := [[]] } : ArgList).getArgsStringWin32 0 []) = .ok {} ∧
    ({} : ArgList).appendArgsV1RawWin32
      (({ argsList := [['a', '\n', 'b']] } : ArgList).getArgsStringWin32 0 []) =
        .ok { argsList := [['a'], ['b']] } :=
  ⟨rfl, rfl⟩

end ArgList
end Condor.Utils
