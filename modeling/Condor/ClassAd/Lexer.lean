import Condor.ClassAd.ExprTree

/-! `input` holds the current character and those still to come; an empty `input` is the character
-1. `wind` drops one character. -/
namespace Condor.ClassAd
open Condor.Utils

/-- The switch and the library functions on which reading a text depends. -/
structure Dialect where
  useOldClassAdSemantics : Bool
  strtod : Bytes → ℚ
  makeAbsTime : Bytes → Literal
  makeRelTime : Bytes → Literal

def Dialect.plain : Dialect :=
  ⟨false, fun _ => 0, fun _ => .error, fun _ => .error⟩

/-- A token type with the value that `yylval` holds for it. -/
inductive Token where
  | tokenError | endOfInput
  | integerValue (i : Int) (f : NumberFactor) | realValue (r : ℚ) (f : NumberFactor)
  | booleanValue (b : Bool) | stringValue (s : Bytes) | undefinedValue | errorValue
  | identifier (s : Bytes) | selection
  | multiply | divide | modulus | plus | minus
  | bitwiseAnd | bitwiseOr | bitwiseNot | bitwiseXor | leftShift | rightShift | urightShift
  | logicalAnd | logicalOr | logicalNot
  | lessThan | lessOrEqual | greaterThan | greaterOrEqual
  | equal | notEqual | metaEqual | metaNotEqual | boundTo
  | qmark | colon | comma | semicolon
  | openBox | closeBox | openParen | closeParen | openBrace | closeBrace
  deriving DecidableEq

/-- The token types after which `PeekToken` takes a minus sign for an operator. -/
def Token.endsOperand : Token → Bool
  | .integerValue _ _ | .realValue _ _ | .booleanValue _ | .stringValue _ => true
  | .undefinedValue | .errorValue | .identifier _ | .selection => true
  | .closeBox | .closeParen | .closeBrace => true
  | _ => false

/-- What a `LexerSource` delivers. A string ends at its first NUL. The last read of a
stream fails and leaves the character variable unset: one more character is delivered. -/
inductive LexerSource where
  | file (text : Bytes)
  | inputStream (text : Bytes) (unset : UInt8)
  | string (text : Bytes)

def LexerSource.delivers : LexerSource → Bytes
  | .file text => text
  | .inputStream text unset => text ++ [unset]
  | .string text => text.takeWhile (· ≠ 0)

/-- `UnreadCharacter` of a string source moves its offset back even when the last read
returned -1; a file or stream then stays where it is. -/
def LexerSource.stepsBack : LexerSource → Bool
  | .string _ => true
  | _ => false

def isOctalDigit (c : UInt8) : Bool := 48 ≤ c && c ≤ 55

def isHexDigit (c : UInt8) : Bool := isDigit c || (97 ≤ toLower c && toLower c ≤ 102)

def isWord (c : UInt8) : Bool := isAlpha c || isDigit c || c = 95

def at? (p : UInt8 → Bool) : Bytes → Bool
  | [] => false
  | c :: _ => p c

def starts (x : Char) : Bytes → Bool := at? fun c => c = UInt8.ofNat x.toNat

/-- `if( p ) wind( )`. -/
def windIf (p : Bool) (rest : Bytes) : Bytes := if p then rest.tail else rest

inductive NumberType where
  | none | integer | real
  deriving DecidableEq

def isPointOrExponent (c : UInt8) : Bool := c = 46 || toLower c = 101

/-- The loop over the digits after a leading zero; it looks at the character behind each. -/
def octalDigits : Bool → Bytes → Bool × Bytes
  | real, [] => (real, [])
  | real, c :: rest =>
    if isDigit c then octalDigits (real || !at? isOctalDigit rest) rest else (real, c :: rest)

/-- The digits before the point, from the first one on. An error carries the characters
that are left. -/
def integerPart (och : UInt8) (rest : Bytes) : Except Bytes (NumberType × Bytes) :=
  if och = 48 then
    if at? (toLower · = 120) rest then
      let digits := rest.tail
      if at? isHexDigit digits then .ok (.integer, digits.dropWhile isHexDigit) else .error digits
    else
      let (real, rest) := octalDigits false rest
      if at? isPointOrExponent rest then .ok (.real, rest)
      else if real then .error rest else .ok (.integer, rest)
  else if isDigit och then
    let rest := rest.dropWhile isDigit
    .ok (if at? isPointOrExponent rest then .real else .integer, rest)
  else .ok (.none, rest)

/-- `[eE][+-]?[0-9]+`. -/
def exponent (type : NumberType) (rest : Bytes) : Except Bytes Bytes :=
  if type = .real ∧ at? (toLower · = 101) rest then
    let rest := windIf (starts '+' rest.tail || starts '-' rest.tail) rest.tail
    if at? isDigit rest then .ok (rest.dropWhile isDigit) else .error rest
  else .ok rest

def digitValue (c : UInt8) : Nat := if isDigit c then c.toNat - 48 else (toLower c).toNat - 87

def numeral (base : Nat) (digits : Bytes) : Nat :=
  digits.foldl (fun n c => base * n + digitValue c) 0

def strtol (old : Bool) (s : Bytes) : Int :=
  let (negative, s) := splitSign s
  let n : Int :=
    match old, s with
    | false, 48 :: x :: rest =>
      if toLower x = 120 then numeral 16 (rest.takeWhile isHexDigit)
      else numeral 8 ((x :: rest).takeWhile isOctalDigit)
    | _, s => numeral 10 (s.takeWhile isDigit)
  if negative then -n else n

def clipToInt (n : Int) : Int := max (-2 ^ 31) (min (2 ^ 31 - 1) n)

def factorOf (c : UInt8) : NumberFactor :=
  match Char.ofNat (toLower c).toNat with
  | 'b' => .b
  | 'k' => .k
  | 'm' => .m
  | 'g' => .g
  | 't' => .t
  | _ => .none

def scaleFactor : Bytes → NumberFactor × Bytes
  | [] => (.none, [])
  | c :: rest => if factorOf c = .none then (.none, c :: rest) else (factorOf c, rest)

/-- The value of the number that stands between `start` and `rest`, with its factor. -/
def numberToken (d : Dialect) (type : NumberType) (start rest : Bytes) : Token × Bytes :=
  let lexeme := start.take (start.length - rest.length)
  let (f, left) := scaleFactor rest
  if type = .integer then
    (.integerValue (clipToInt (strtol d.useOldClassAdSemantics lexeme)) f, left)
  else (.realValue (d.strtod lexeme) f, left)

/-- `tokenizeNumber` after the sign: `och` is read, `rest` is ahead. -/
def unsignedNumber (d : Dialect) (start : Bytes) (och : UInt8) (rest : Bytes) : Token × Bytes :=
  match integerPart och rest with
  | .error left => (.tokenError, left)
  | .ok (type, rest) =>
    let pointed := och = 46 || starts '.' rest
    let behind := windIf (starts '.' rest) rest
    if pointed && !at? isDigit behind then
      (if type = .none then .selection else .tokenError, behind)
    else
      let type := if pointed then .real else type
      match exponent type (if pointed then behind.dropWhile isDigit else rest) with
      | .error left => (.tokenError, left)
      | .ok rest => numberToken d type start rest

def tokenizeNumber (d : Dialect) (och : UInt8) (rest : Bytes) : Token × Bytes :=
  let start := och :: rest
  if och = 45 then
    match rest with
    | [] => (.minus, rest)
    | c :: behind =>
      if isDigit c then unsignedNumber d start c behind
      else if c = 46 && at? isDigit behind then unsignedNumber d start och rest
      else (.minus, rest)
  else unsignedNumber d start och rest

def reserved (word : Bytes) : Token :=
  if sameIgnoringCase word (ascii "true") then .booleanValue true
  else if sameIgnoringCase word (ascii "false") then .booleanValue false
  else if sameIgnoringCase word (ascii "undefined") then .undefinedValue
  else if sameIgnoringCase word (ascii "error") then .errorValue
  else if sameIgnoringCase word (ascii "is") then .metaEqual
  else if sameIgnoringCase word (ascii "isnt") then .metaNotEqual
  else .identifier word

def tokenizeAlphaHead (input : Bytes) : Token × Bytes :=
  let letters := input.takeWhile isAlpha
  let rest := input.dropWhile isAlpha
  if at? (fun c => isDigit c || c = 95) rest then
    (.identifier (letters ++ rest.takeWhile isWord), rest.dropWhile isWord)
  else (reserved letters, rest)

def unescape (c : UInt8) : UInt8 :=
  match Char.ofNat c.toNat with
  | 'a' => 7
  | 'b' => 8
  | 't' => 9
  | 'n' => 10
  | 'v' => 11
  | 'f' => 12
  | 'r' => 13
  | _ => c

def octalChar (digits : Bytes) (text : Option Bytes) : Option Bytes :=
  if numeral 8 digits = 0 then none else text.map (UInt8.ofNat (numeral 8 digits) :: ·)

/-- `convert_escapes`; `none` when the text holds an escaped NUL. -/
def convertEscapes : Bytes → Option Bytes
  | [] => some []
  | c :: rest =>
    if c ≠ 92 then (convertEscapes rest).map (c :: ·)
    else
      match rest with
      | [] => some []
      | x :: rest =>
        if !isOctalDigit x then (convertEscapes rest).map (unescape x :: ·)
        else
          match rest with
          | [] => octalChar [x] (some [])
          | y :: rest =>
            if !isOctalDigit y then octalChar [x] (convertEscapes (y :: rest))
            else
              match rest with
              | [] => octalChar [x, y] (some [])
              | z :: rest =>
                if x ≤ 51 && isOctalDigit z then octalChar [x, y, z] (convertEscapes rest)
                else octalChar [x, y] (convertEscapes (z :: rest))

/-- The characters of adjacent string literals, and what follows them. The state is
`some odd` inside a literal, with `odd` set behind an odd run of backslashes, and
`none` among the white space after a closing delimiter. -/
def stringText (delim : UInt8) : Option Bool → Bytes → Option Bytes × Bytes
  | none, [] => (some [], [])
  | none, c :: rest =>
    if isSpace c then stringText delim none rest
    else if c = delim then stringText delim (some false) rest
    else (some [], c :: rest)
  | some _, [] => (none, [])
  | some odd, c :: rest =>
    if c = 0 then (none, c :: rest)
    else if c = delim && !odd then stringText delim none rest
    else
      let (text, left) := stringText delim (some (!odd && c = 92)) rest
      (text.map (c :: ·), left)

def tokenizeString (delim : UInt8) (rest : Bytes) : Token × Bytes :=
  let (text, left) := stringText delim (some false) rest
  match text.bind convertEscapes with
  | none => (.tokenError, left)
  | some s => (if delim = 34 then .stringValue s else .identifier s, left)

/-- The case `'='` of `tokenizePunctOperator`. -/
def tokenizeEquals (stepsBack : Bool) (rest : Bytes) : Token × Bytes :=
  if starts '=' rest then (.equal, rest.tail)
  else if starts '?' rest then
    if starts '=' rest.tail then (.metaEqual, rest.tail.tail) else (.tokenError, rest.tail)
  else if starts '!' rest && starts '=' rest.tail then (.metaNotEqual, rest.tail.tail)
  -- The character behind `!` is read and unread. Where there is none, a string source
  -- steps back over the `!` itself.
  else if starts '!' rest && rest.tail = [] && stepsBack then (.boundTo, 33 :: rest)
  else (.boundTo, rest)

def tokenizePunctOperator (stepsBack : Bool) (oldch : UInt8) (rest : Bytes) : Token × Bytes :=
  if oldch = 61 then tokenizeEquals stepsBack rest
  else match Char.ofNat oldch.toNat with
  | '.' => (.selection, rest)
  | '*' => (.multiply, rest)
  | '/' => (.divide, rest)
  | '%' => (.modulus, rest)
  | '+' => (.plus, rest)
  | '-' => (.minus, rest)
  | '~' => (.bitwiseNot, rest)
  | '^' => (.bitwiseXor, rest)
  | '?' => (.qmark, rest)
  | ':' => (.colon, rest)
  | ';' => (.semicolon, rest)
  | ',' => (.comma, rest)
  | '[' => (.openBox, rest)
  | ']' => (.closeBox, rest)
  | '(' => (.openParen, rest)
  | ')' => (.closeParen, rest)
  | '{' => (.openBrace, rest)
  | '}' => (.closeBrace, rest)
  | '&' => if starts '&' rest then (.logicalAnd, rest.tail) else (.bitwiseAnd, rest)
  | '|' => if starts '|' rest then (.logicalOr, rest.tail) else (.bitwiseOr, rest)
  | '<' =>
    if starts '=' rest then (.lessOrEqual, rest.tail)
    else if starts '<' rest then (.leftShift, rest.tail)
    else (.lessThan, rest)
  | '>' =>
    if starts '=' rest then (.greaterOrEqual, rest.tail)
    else if starts '>' rest then
      if starts '>' rest.tail then (.urightShift, rest.tail.tail) else (.rightShift, rest.tail)
    else (.greaterThan, rest)
  | '!' => if starts '=' rest then (.notEqual, rest.tail) else (.logicalNot, rest)
  | _ => (.tokenError, rest)

inductive Blanks where
  | blanks | slash | line
  | block (star : Bool)

/-- How that loop ends. At the end of the input `wind` does nothing and the condition of
the inner loop over a C comment stays true: behind `openComment` it never returns. -/
inductive Skipped where
  | openComment
  | divide (rest : Bytes)
  | token (rest : Bytes)

def skipBlanks : Blanks → Bytes → Skipped
  | .blanks, [] => .token []
  | .blanks, c :: rest =>
    if isSpace c then skipBlanks .blanks rest
    else if c = 47 then skipBlanks .slash rest
    else .token (c :: rest)
  | .slash, [] => .divide []
  | .slash, c :: rest =>
    if c = 47 then skipBlanks .line rest
    else if c = 42 then skipBlanks (.block false) rest
    else .divide (c :: rest)
  | .line, [] => .token []
  | .line, c :: rest =>
    if c = 0 then .token (c :: rest)
    else if c = newline then skipBlanks .blanks rest
    else skipBlanks .line rest
  | .block _, [] => .openComment
  | .block star, c :: rest =>
    if star && c = 47 then skipBlanks .blanks rest else skipBlanks (.block (c = 42)) rest

def tokenize (d : Dialect) (stepsBack : Bool) (last : Token) : Bytes → Token × Bytes
  | [] => (.endOfInput, [])
  | c :: rest =>
    if c = 0 then (.endOfInput, c :: rest)
    else if c = 45 then
      if last.endsOperand then tokenizePunctOperator stepsBack c rest
      else tokenizeNumber d c rest
    else if isDigit c || c = 46 then tokenizeNumber d c rest
    else if isAlpha c || c = 95 then tokenizeAlphaHead (c :: rest)
    else if c = 34 || c = 39 then tokenizeString c rest
    else tokenizePunctOperator stepsBack c rest

/-- `Lexer`: `token` is the last token it has found. -/
structure Lexer where
  input : Bytes
  stepsBack : Bool
  token : Token
  tokenConsumed : Bool

def Lexer.fresh : Lexer := ⟨[], false, .endOfInput, true⟩

def Lexer.initialized (lexer : Lexer) (source : LexerSource) : Lexer :=
  { lexer with input := source.delivers, stepsBack := source.stepsBack, tokenConsumed := true }

/-- `Lexer::PeekToken`; `none` when it does not return. -/
def Lexer.peekToken (d : Dialect) (lexer : Lexer) : Option Lexer :=
  if !lexer.tokenConsumed then some lexer
  else
    match skipBlanks .blanks lexer.input with
    | .openComment => none
    | .divide rest => some { lexer with input := rest, token := .divide, tokenConsumed := false }
    | .token rest =>
      let (token, left) := tokenize d lexer.stepsBack lexer.token rest
      some { lexer with input := left, token := token, tokenConsumed := false }

def Lexer.consumeToken (d : Dialect) (lexer : Lexer) : Option Lexer :=
  (lexer.peekToken d).map fun lexer => { lexer with tokenConsumed := true }

end Condor.ClassAd
