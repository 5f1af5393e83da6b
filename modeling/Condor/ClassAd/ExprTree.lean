import Mathlib.Data.Rat.Defs
import Condor.Utils.Stdio

/-! Names and strings are byte strings. Reals are exact rationals; the libc conversions of reals and
times to text are parameters. -/
namespace Condor.ClassAd
open Condor.Utils

inductive NumberFactor where
  | none | b | k | m | g | t
  deriving DecidableEq, Repr

inductive Literal where
  | error
  | undefined
  | boolean (b : Bool)
  | integer (i : Int)
  | real (r : ℚ)
  | relativeTime (secs : ℚ)
  | absoluteTime (secs offset : Int)
  | string (s : Bytes)
  deriving DecidableEq

inductive UnaryOp where
  | unaryPlus | unaryMinus | logicalNot | bitwiseNot | parentheses
  deriving DecidableEq, Repr

inductive BinaryOp where
  | lessThan | lessOrEqual | notEqual | equal | greaterOrEqual | greaterThan
  | metaEqual | metaNotEqual
  | addition | subtraction | multiplication | division | modulus
  | logicalOr | logicalAnd
  | bitwiseOr | bitwiseXor | bitwiseAnd | leftShift | rightShift | urightShift
  | subscript
  deriving DecidableEq, Repr

/-- `attrRef` and `select` are the two shapes of an `AttributeReference`: without
and with a scope expression. -/
inductive ExprTree where
  | literal (value : Literal) (factor : NumberFactor)
  | attrRef (absolute : Bool) (name : Bytes)
  | select (scope : ExprTree) (name : Bytes)
  | unary (op : UnaryOp) (child : ExprTree)
  | binary (op : BinaryOp) (child₁ child₂ : ExprTree)
  | ternary (child₁ child₂ child₃ : ExprTree)
  | fnCall (name : Bytes) (args : List ExprTree)
  | classAd (attrs : List (Bytes × ExprTree))
  | exprList (exprs : List ExprTree)

structure Formats where
  /-- `%f`. -/
  real : ℚ → Bytes
  absTimeToString : Int → Int → Bytes
  relTimeToString : ℚ → Bytes

def UnaryOp.opString : UnaryOp → Bytes
  | .unaryPlus => ascii " +"
  | .unaryMinus => ascii " -"
  | .logicalNot => ascii " !"
  | .bitwiseNot => ascii " ~"
  | .parentheses => ascii " () "

def BinaryOp.opString : BinaryOp → Bytes
  | .lessThan => ascii " < "
  | .lessOrEqual => ascii " <= "
  | .notEqual => ascii " != "
  | .equal => ascii " == "
  | .greaterOrEqual => ascii " >= "
  | .greaterThan => ascii " > "
  | .metaEqual => ascii " =?= "
  | .metaNotEqual => ascii " =!= "
  | .addition => ascii " + "
  | .subtraction => ascii " - "
  | .multiplication => ascii " * "
  | .division => ascii " / "
  | .modulus => ascii " % "
  | .logicalOr => ascii " || "
  | .logicalAnd => ascii " && "
  | .bitwiseOr => ascii " | "
  | .bitwiseXor => ascii " ^ "
  | .bitwiseAnd => ascii " & "
  | .leftShift => ascii " << "
  | .rightShift => ascii " >> "
  | .urightShift => ascii " >>> "
  | .subscript => ascii " [] "

/-- The characters of a string in old syntax: only the delimiter is escaped. -/
def escapeOld (delimiter : UInt8) (s : Bytes) : Bytes :=
  s.flatMap fun c => if c = delimiter then [92, c] else [c]

def isAlpha (c : UInt8) : Bool := (65 ≤ c && c ≤ 90) || (97 ≤ c && c ≤ 122)

def identifierNeedsQuoting : Bytes → Bool
  | [] => false
  | c :: rest =>
    if isAlpha c || c = 95 then !rest.all fun d => isAlpha d || isDigit d || d = 95 else false

def unparseIdentifier (name : Bytes) : Bytes :=
  let text := escapeOld 39 name
  if identifierNeedsQuoting text then [39] ++ text ++ [39] else text

def NumberFactor.text : NumberFactor → Bytes
  | .none => []
  | .b => ascii "B"
  | .k => ascii "K"
  | .m => ascii "M"
  | .g => ascii "G"
  | .t => ascii "T"

def unparseInteger (i : Int) : Bytes := (if i < 0 then ascii "-" else []) ++ decimal i.natAbs

def unparseLiteral (formats : Formats) : Literal → Bytes
  | .error => ascii "error"
  | .undefined => ascii "undefined"
  | .boolean b => if b then ascii "true" else ascii "false"
  | .integer i => unparseInteger i
  | .real r => if r = 0 then ascii "0.0" else formats.real r
  | .relativeTime secs => ascii "relTime(\"" ++ formats.relTimeToString secs ++ ascii "\")"
  | .absoluteTime secs offset =>
    ascii "absTime(\"" ++ formats.absTimeToString secs offset ++ ascii "\")"
  | .string s => [34] ++ escapeOld 34 s ++ [34]

def Literal.isNumber : Literal → Bool
  | .integer _ => true
  | .real _ => true
  | _ => false

mutual

/-- `ClassAdUnParser::Unparse` after `SetOldClassAd( true )`. -/
def unparseOld (formats : Formats) : ExprTree → Bytes
  | .literal value factor =>
    unparseLiteral formats value ++ (if value.isNumber then factor.text else [])
  | .attrRef absolute name => (if absolute then ascii "." else []) ++ unparseIdentifier name
  | .select scope name => unparseOld formats scope ++ ascii "." ++ name
  | .unary .parentheses e => ascii "( " ++ unparseOld formats e ++ ascii " )"
  | .unary op e => op.opString ++ unparseOld formats e
  | .binary .subscript e₁ e₂ =>
    unparseOld formats e₁ ++ ascii "[" ++ unparseOld formats e₂ ++ ascii "]"
  | .binary op e₁ e₂ => unparseOld formats e₁ ++ op.opString ++ unparseOld formats e₂
  | .ternary e₁ e₂ e₃ =>
    unparseOld formats e₁ ++ ascii " ? " ++ unparseOld formats e₂ ++ ascii " : " ++
      unparseOld formats e₃
  | .fnCall name args => name ++ ascii "(" ++ unparseOldList formats args ++ ascii ")"
  -- Old syntax has no brackets for a nested ad: its attributes stand on lines of their own.
  | .classAd attrs => unparseOldAttrs formats attrs ++ [newline]
  | .exprList exprs => ascii "\x7b " ++ unparseOldList formats exprs ++ ascii " \x7d"

def unparseOldList (formats : Formats) : List ExprTree → Bytes
  | [] => []
  | [e] => unparseOld formats e
  | e :: es => unparseOld formats e ++ ascii "," ++ unparseOldList formats es

def unparseOldAttrs (formats : Formats) : List (Bytes × ExprTree) → Bytes
  | [] => []
  | [(name, e)] => unparseIdentifier name ++ ascii " = " ++ unparseOld formats e
  | (name, e) :: attrs =>
    unparseIdentifier name ++ ascii " = " ++ unparseOld formats e ++ [newline] ++
      unparseOldAttrs formats attrs

end

end Condor.ClassAd
