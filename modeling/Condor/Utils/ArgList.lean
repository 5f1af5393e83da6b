import Condor.Lib.Words

/-! `condor_arglist.cpp`. The V1 syntax separates arguments by blanks and cannot write a blank; the
V2 syntax puts blanks and single quotes between single quotes. V2 is enclosed in double quotes in a
submit file, and starts with a blank where V1 and V2 share a channel. -/
namespace Condor.Utils

open Condor.Lib

abbrev Text := List Char

def isBlank (c : Char) : Bool := c == ' ' || c == '\t' || c == '\n' || c == '\r'

def isSpaceChar (c : Char) : Bool := isBlank c || c == '\x0b' || c == '\x0c'

/-! ## V2 syntax -/

/-- One turn of the loop of `append_arg`: a quoted section that has just been closed is
opened again for the next character that needs one. -/
def appendChar (result : Text) (c : Char) : Text :=
  if isBlank c || c == '\'' then
    let opened := if result.getLast? = some '\'' then result.dropLast else result ++ ['\'']
    (if c = '\'' then opened ++ ['\''] else opened) ++ [c, '\'']
  else result ++ [c]

def appendArg (result arg : Text) : Text :=
  let separated := if result = [] then result else result ++ [' ']
  arg.foldl appendChar (if arg = [] then separated ++ ['\'', '\''] else separated)

def joinArgs (argsList : List Text) (result : Text) : Text := argsList.foldl appendArg result

/-- The loops of `split_args`: the first argument is where an open quoted section starts. -/
def splitFrom : Option Text → Text → Bool → List Text → Text → Except Text (List Text)
  | none, buf, parsedToken, argsList, [] =>
    .ok (if parsedToken then argsList ++ [buf] else argsList)
  | some quote, _, _, _, [] => .error ("Unbalanced quote starting here: ".toList ++ quote)
  -- a repeated quote stands for itself
  | some quote, buf, parsedToken, argsList, '\'' :: '\'' :: args =>
    splitFrom (some quote) (buf ++ ['\'']) parsedToken argsList args
  | some _, buf, parsedToken, argsList, '\'' :: args =>
    splitFrom none buf parsedToken argsList args
  | some quote, buf, parsedToken, argsList, c :: args =>
    splitFrom (some quote) (buf ++ [c]) parsedToken argsList args
  | none, buf, parsedToken, argsList, c :: args =>
    if c = '\'' then splitFrom (some (c :: args)) buf true argsList args
    else if isBlank c then
      if parsedToken then splitFrom none [] false (argsList ++ [buf]) args
      else splitFrom none buf false argsList args
    else splitFrom none (buf ++ [c]) true argsList args

def splitArgs (args : Text) (argsList : List Text) : Except Text (List Text) :=
  splitFrom none [] false argsList args

def escapeChars (s q : Text) (escape : Char) : Text :=
  s.flatMap fun c => if c ∈ q then [escape, c] else [c]

def v2RawToV2Quoted (v2Raw : Text) : Text := '"' :: escapeChars v2Raw ['"'] '"' ++ ['"']

def v1RawToV1Wacked (v1Raw : Text) : Text := escapeChars v1Raw ['"'] '\\'

def isV2QuotedString (str : Text) : Bool := (str.dropWhile isSpaceChar).head? == some '"'

/-- The loop of `V2QuotedToV2Raw`: the text up to the closing quote, and what follows it. -/
def unquote : Text → Option (Text × Text)
  | [] => none
  | '"' :: '"' :: input => (unquote input).map fun (raw, rest) => ('"' :: raw, rest)
  | '"' :: input => some ([], input)
  | c :: input => (unquote input).map fun (raw, rest) => (c :: raw, rest)

def v2QuotedToV2Raw (input : Text) : Except Text Text :=
  match unquote ((input.dropWhile isSpaceChar).drop 1) with
  | none => .error "Unterminated double-quote.".toList
  | some (raw, rest) =>
    if rest.dropWhile isSpaceChar = [] then .ok raw
    else .error (("Unexpected characters following double-quote.  Did you forget to escape " ++
      "the double-quote by repeating it?  Here is the quote and trailing characters: ").toList ++
      '"' :: rest ++ ['\n'])

def v1WackedToV1Raw : Text → Except Text Text
  | [] => .ok []
  | '\\' :: '"' :: input => (v1WackedToV1Raw input).map ('"' :: ·)
  | '"' :: input => .error ("Found illegal unescaped double-quote: ".toList ++ '"' :: input)
  | c :: input => (v1WackedToV1Raw input).map (c :: ·)

/-! ## V1 syntax -/

def splitBlanks (buf : Text) (parsedToken : Bool) (argsList : List Text) : Text → List Text
  | [] => if parsedToken then argsList ++ [buf] else argsList
  | c :: args =>
    if isBlank c then
      if parsedToken then splitBlanks [] false (argsList ++ [buf]) args
      else splitBlanks buf false argsList args
    else splitBlanks (buf ++ [c]) true argsList args

/-- The loops of `AppendArgsV1Raw_win32`: in a quoted section, where it starts and the
number of backslashes just read; `begun` when the argument has a character. -/
def splitWin32 : Option (Text × Nat) → Text → Bool → List Text → Text → Except Text (List Text)
  | none, buf, begun, argsList, [] => .ok (if begun then argsList ++ [buf] else argsList)
  | some (quote, _), _, _, _, [] =>
    .error ("Unterminated quote in windows argument string starting here: ".toList ++ quote)
  | none, buf, begun, argsList, c :: args =>
    if isBlank c then
      splitWin32 none [] false (if begun then argsList ++ [buf] else argsList) args
    else if c = '"' then splitWin32 (some (c :: args, 0)) buf true argsList args
    else splitWin32 none (buf ++ [c]) true argsList args
  | some (quote, backslashes), buf, begun, argsList, c :: args =>
    if c = '\\' then splitWin32 (some (quote, backslashes + 1)) buf begun argsList args
    else if c = '"' then
      if backslashes % 2 = 1 then
        splitWin32 (some (quote, 0)) (buf ++ List.replicate (backslashes / 2) '\\' ++ [c])
          begun argsList args
      else splitWin32 none (buf ++ List.replicate (backslashes / 2) '\\') begun argsList args
    else
      splitWin32 (some (quote, 0)) (buf ++ List.replicate backslashes '\\' ++ [c])
        begun argsList args

/-- The loop of `GetArgsStringWin32` over a quoted argument; `n` backslashes stand just
before. They are doubled before a quote. -/
def escapeWin32 : Nat → Text → Text
  | n, [] => List.replicate n '\\'
  | n, c :: arg =>
    if c = '\\' then c :: escapeWin32 (n + 1) arg
    else if c = '"' then List.replicate n '\\' ++ '\\' :: c :: escapeWin32 0 arg
    else c :: escapeWin32 0 arg

/-- `strcspn(argstr, " \t\"")` ends before the argument does. -/
def needsQuotes (arg : Text) : Bool := arg.any fun c => c == ' ' || c == '\t' || c == '"'

def quoteWin32 (arg : Text) : Text :=
  if needsQuotes arg then '"' :: escapeWin32 0 arg ++ ['"'] else arg

/-! ## The class -/

inductive ArgV1Syntax where
  | unknown
  | win32
  | unix
  deriving DecidableEq, Repr

structure ArgList where
  argsList : List Text := []
  inputWasUnknownPlatformV1 : Bool := false
  v1Syntax : ArgV1Syntax := .unknown

namespace ArgList

def appendArgsV2Raw (a : ArgList) (args : Text) : Except Text ArgList :=
  (splitArgs args a.argsList).map fun argsList => { a with argsList }

def appendArgsV2Quoted (a : ArgList) (args : Text) : Except Text ArgList :=
  if isV2QuotedString args then (v2QuotedToV2Raw args).bind a.appendArgsV2Raw
  else .error "Expecting double-quoted input string (V2 format).".toList

def appendArgsV1RawWin32 (a : ArgList) (args : Text) : Except Text ArgList :=
  (splitWin32 none [] false a.argsList args).map fun argsList => { a with argsList }

def appendArgsV1RawUnix (a : ArgList) (args : Text) : ArgList :=
  { a with argsList := splitBlanks [] false a.argsList args }

def appendArgsV1Raw (a : ArgList) (args : Text) : Except Text ArgList :=
  match a.v1Syntax with
  | .win32 => a.appendArgsV1RawWin32 args
  | .unix => .ok (a.appendArgsV1RawUnix args)
  | .unknown => .ok ({ a with inputWasUnknownPlatformV1 := true }.appendArgsV1RawUnix args)

def appendArgsV1or2Raw (a : ArgList) (args : Text) : Except Text ArgList :=
  match args with
  | ' ' :: args => a.appendArgsV2Raw args
  | args => a.appendArgsV1Raw args

def appendArgsV1WackedOrV2Quoted (a : ArgList) (args : Text) : Except Text ArgList :=
  if isV2QuotedString args then (v2QuotedToV2Raw args).bind a.appendArgsV2Raw
  else (v1WackedToV1Raw args).bind a.appendArgsV1Raw

def isSafeArgV1Value (str : Text) : Bool := !str.any isBlank

def getArgsStringV1Raw (a : ArgList) (result : Text) : Except Text Text :=
  a.argsList.foldlM (fun result arg =>
    if isSafeArgV1Value arg then .ok (addWord ' ' result arg)
    else .error ("Cannot represent '".toList ++ arg ++ "' in V1 arguments syntax.".toList)) result

def getArgsStringV2Raw (a : ArgList) (result : Text) : Text := joinArgs a.argsList result

def getArgsStringV2Quoted (a : ArgList) : Text := v2RawToV2Quoted (a.getArgsStringV2Raw [])

def getArgsStringV1WackedOrV2Quoted (a : ArgList) : Text :=
  match a.getArgsStringV1Raw [] with
  | .ok v1Raw => v1RawToV1Wacked v1Raw
  | .error _ => a.getArgsStringV2Quoted

def getArgsStringV1or2Raw (a : ArgList) (result : Text) : Text :=
  match a.getArgsStringV1Raw result with
  | .ok v1Raw => v1Raw
  | .error _ => a.getArgsStringV2Raw (result ++ [' '])

def getArgsStringWin32 (a : ArgList) (skipArgs : Nat) (result : Text) : Text :=
  (a.argsList.drop skipArgs).foldl (fun result arg =>
    addWord ' ' result (if a.inputWasUnknownPlatformV1 then arg else quoteWin32 arg)) result

end ArgList
end Condor.Utils
