import Condor.ClassAd.ExprTree

/-! `Operation::_doOperation` for the binary operators, on the values of the operands. -/
namespace Condor.ClassAd
open Condor.Utils

inductive ValueType where
  | error | undefined | boolean | integer | real | relativeTime | absoluteTime | string
  | classAd | list
  deriving DecidableEq

/-- A `Value`. Lists and ads are known by their addresses. -/
inductive Value (P : Type) where
  | error
  | undefined
  | boolean (b : Bool)
  | integer (i : BitVec 32)
  | real (r : ℚ)
  | relativeTime (secs : ℚ)
  | absoluteTime (secs offset : Int)
  | string (s : Bytes)
  | classAd (ad : P)
  | list (l : P)
  deriving DecidableEq

variable {P : Type}

def Value.type : Value P → ValueType
  | .error => .error
  | .undefined => .undefined
  | .boolean _ => .boolean
  | .integer _ => .integer
  | .real _ => .real
  | .relativeTime _ => .relativeTime
  | .absoluteTime _ _ => .absoluteTime
  | .string _ => .string
  | .classAd _ => .classAd
  | .list _ => .list

inductive Fault where
  /-- The machine has no result: a quotient that is too large, a shift by another number of
  bits than 0 to 31. -/
  | machine
  | except
  /-- An infinity or a NaN, which the exact reals do not have. -/
  | notFinite
  deriving DecidableEq

structure Setting (P : Type) where
  useOldClassAdSemantics : Bool
  /-- The conversion of a `double` to `int`, which C leaves open outside the range of `int`. -/
  toInt : ℚ → Int
  subscript : Value P → Value P → Value P

/-- The members of a `Value` object that its type does not select keep what they held before.
These two are read all the same. -/
structure Leftover where
  realValue : ℚ
  relTimeValueSecs : ℚ

def promoteBoolean : Value P → Value P
  | .boolean b => .integer (if b then 1 else 0)
  | v => v

/-- `coerceToNumber`, which also changes its arguments. -/
def coerceToNumber (v1 v2 : Value P) : ValueType × Value P × Value P :=
  if v1.type = .classAd ∨ v2.type = .classAd then (.classAd, v1, v2)
  else if v1.type = .list ∨ v2.type = .list then (.list, v1, v2)
  else if v1.type = .string ∨ v2.type = .string then (.string, v1, v2)
  else if v1.type = .undefined ∨ v2.type = .undefined then (.undefined, v1, v2)
  else if v1.type = .error ∨ v2.type = .error then (.error, v1, v2)
  else if v1.type = .absoluteTime ∨ v2.type = .absoluteTime then (.absoluteTime, v1, v2)
  else if v1.type = .relativeTime ∨ v2.type = .relativeTime then (.relativeTime, v1, v2)
  else
    match promoteBoolean v1, promoteBoolean v2 with
    | .integer i1, .integer i2 => (.integer, .integer i1, .integer i2)
    | .integer i1, .real r2 => (.real, .real i1.toInt, .real r2)
    | .real r1, .integer i2 => (.real, .real r1, .real i2.toInt)
    | v1, v2 => (.real, v1, v2)

def compareResult (op : BinaryOp) (order : Ordering) : Except Fault (Value P) :=
  match op with
  | .lessThan => .ok (.boolean (order = .lt))
  | .lessOrEqual => .ok (.boolean (order ≠ .gt))
  | .equal => .ok (.boolean (order = .eq))
  | .notEqual => .ok (.boolean (order ≠ .eq))
  | .greaterThan => .ok (.boolean (order = .gt))
  | .greaterOrEqual => .ok (.boolean (order ≠ .lt))
  | _ => .error .except

def cString (s : Bytes) : Bytes := s.takeWhile (· ≠ 0)

def strcmp (s1 s2 : Bytes) : Ordering := compareOfLessAndEq (cString s1) (cString s2)

def strcasecmp (s1 s2 : Bytes) : Ordering :=
  compareOfLessAndEq ((cString s1).map toLower) ((cString s2).map toLower)

def compareValues (op : BinaryOp) (exact : Bool) :
    ValueType × Value P × Value P → Except Fault (Value P)
  | (.string, .string s1, .string s2) =>
    compareResult op (if exact then strcmp s1 s2 else strcasecmp s1 s2)
  | (.integer, .integer i1, .integer i2) => compareResult op (compareOfLessAndEq i1.toInt i2.toInt)
  | (.real, .real r1, .real r2) => compareResult op (compareOfLessAndEq r1 r2)
  | (.boolean, .boolean b1, .boolean b2) =>
    compareResult op (compareOfLessAndEq b1.toNat b2.toNat)
  | (.absoluteTime, .absoluteTime secs1 _, .absoluteTime secs2 _) =>
    compareResult op (compareOfLessAndEq secs1 secs2)
  | (.relativeTime, .relativeTime secs1, .relativeTime secs2) =>
    compareResult op (compareOfLessAndEq secs1 secs2)
  | (.string, _, _) | (.boolean, _, _) | (.list, _, _) | (.classAd, _, _)
  | (.absoluteTime, _, _) | (.relativeTime, _, _) => .ok .error
  | _ => .error .except

def doComparison (op : BinaryOp) (v1 v2 : Value P) : Except Fault (Value P) :=
  let coerced := coerceToNumber v1 v2
  let vt1 := coerced.2.1.type
  let vt2 := coerced.2.2.type
  if op = .metaEqual then
    if vt1 ≠ vt2 then .ok (.boolean false)
    else if vt1 = .undefined ∨ vt1 = .error then .ok (.boolean true)
    else compareValues .equal true coerced
  else if op = .metaNotEqual then
    if vt1 ≠ vt2 then .ok (.boolean true)
    else if vt1 = .undefined ∨ vt1 = .error then .ok (.boolean false)
    else compareValues .notEqual true coerced
  else compareValues op false coerced

def quotient (divide : BitVec 32 → BitVec 32 → BitVec 32) (i1 i2 : BitVec 32) :
    Except Fault (BitVec 32) :=
  if i2 = 0 ∨ i1 = BitVec.intMin 32 ∧ i2 = -1 then .error .machine else .ok (divide i1 i2)

def shift (move : BitVec 32 → Nat → BitVec 32) (i1 i2 : BitVec 32) : Except Fault (BitVec 32) :=
  if i2.toNat < 32 then .ok (move i1 i2.toNat) else .error .machine

def integerArithmetic (op : BinaryOp) (i1 i2 : BitVec 32) : Except Fault (Value P) :=
  match op with
  | .addition => .ok (.integer (i1 + i2))
  | .subtraction => .ok (.integer (i1 - i2))
  | .multiplication => .ok (.integer (i1 * i2))
  | .division => if i2 ≠ 0 then (quotient BitVec.sdiv i1 i2).map .integer else .ok .error
  | .modulus => if i2 ≠ 0 then (quotient BitVec.srem i1 i2).map .integer else .ok .error
  | _ => .error .except

def doRealArithmetic (op : BinaryOp) (r1 r2 : ℚ) : Except Fault (Value P) :=
  match op with
  | .addition => .ok (.real (r1 + r2))
  | .subtraction => .ok (.real (r1 - r2))
  | .multiplication => .ok (.real (r1 * r2))
  | .division => if r2 = 0 then .error .notFinite else .ok (.real (r1 / r2))
  | .modulus => .ok .error
  | _ => .error .except

def scaleTime (op : BinaryOp) (secs num : ℚ) : Except Fault (Value P) :=
  if op = .multiplication then .ok (.relativeTime (secs * num))
  else if num = 0 then .error .notFinite else .ok (.relativeTime (secs / num))

def doTimeArithmetic (setting : Setting P) (op : BinaryOp) (left1 left2 : Leftover) :
    Value P → Value P → Except Fault (Value P)
  | .absoluteTime secs offset, .relativeTime rsecs =>
    if op = .addition then .ok (.absoluteTime (secs + setting.toInt rsecs) offset)
    else if op = .subtraction then .ok (.absoluteTime (secs - setting.toInt rsecs) offset)
    else .ok .error
  | .relativeTime rsecs, .absoluteTime secs offset =>
    if op = .addition then .ok (.absoluteTime (secs + setting.toInt rsecs) offset) else .ok .error
  | .relativeTime rsecs1, .relativeTime rsecs2 =>
    if op = .addition then .ok (.relativeTime (rsecs1 + rsecs2))
    else if op = .subtraction then .ok (.relativeTime (rsecs1 - rsecs2))
    else .ok .error
  | .absoluteTime secs1 _, .absoluteTime secs2 _ =>
    if op = .subtraction then .ok (.relativeTime (secs1 - secs2 : Int)) else .ok .error
  | .relativeTime rsecs, .integer num =>
    if op = .multiplication ∨ op = .division then scaleTime op rsecs num.toInt else .ok .error
  | .relativeTime rsecs, .real num =>
    if op = .multiplication ∨ op = .division then scaleTime op rsecs num else .ok .error
  | .integer num, .relativeTime rsecs =>
    if op = .multiplication then .ok (.relativeTime (num.toInt * rsecs)) else .ok .error
  -- The operands are asked the wrong way round: the first for a time, the second for a real.
  | .real _, .relativeTime _ =>
    if op = .multiplication then .ok (.relativeTime (left1.relTimeValueSecs * left2.realValue))
    else .ok .error
  | _, _ => .ok .error

def Value.isArithmetic (v : Value P) : Bool :=
  v.type ∈ [.integer, .real, .absoluteTime, .relativeTime, .boolean]

def doArithmetic (setting : Setting P) (op : BinaryOp) (left1 left2 : Leftover) (v1 v2 : Value P) :
    Except Fault (Value P) :=
  if !v1.isArithmetic || !v2.isArithmetic then .ok .error
  else
    match coerceToNumber v1 v2 with
    | (.integer, .integer i1, .integer i2) => integerArithmetic op i1 i2
    | (.real, .real r1, .real r2) => doRealArithmetic op r1 r2
    | (.absoluteTime, v1, v2) | (.relativeTime, v1, v2) =>
      doTimeArithmetic setting op left1 left2 v1 v2
    | _ => .error .except

/-- `IsBooleanValueEquiv`, by which `doLogical` first changes its operands. -/
def booleanEquiv (old : Bool) : Value P → Value P
  | .integer i => if old then .boolean (i ≠ 0) else .integer i
  | .real r => if old then .boolean (r ≠ 0) else .real r
  | v => v

def doLogical (setting : Setting P) (op : BinaryOp) (v1 v2 : Value P) : Value P :=
  match booleanEquiv setting.useOldClassAdSemantics v1,
    booleanEquiv setting.useOldClassAdSemantics v2 with
  | .boolean b1, v2 =>
    if v2.type ∈ [.undefined, .error, .boolean] then
      if b1 = (op = .logicalOr) then .boolean b1 else v2
    else .error
  | .error, _ => .error
  | .undefined, .boolean b2 => if b2 = (op = .logicalOr) then .boolean b2 else .undefined
  | .undefined, .undefined => .undefined
  | _, _ => .error

def signMask : BitVec 32 := BitVec.intMin 32

def shiftRightBySteps : Nat → BitVec 32 → BitVec 32
  | 0, val => val
  | n + 1, val => shiftRightBySteps n (val.sshiftRight 1 ||| signMask)

def doBitwise (op : BinaryOp) (i1 i2 : BitVec 32) : Except Fault (BitVec 32) :=
  match op with
  | .bitwiseOr => .ok (i1 ||| i2)
  | .bitwiseAnd => .ok (i1 &&& i2)
  | .bitwiseXor => .ok (i1 ^^^ i2)
  | .leftShift => shift (· <<< ·) i1 i2
  | .urightShift =>
    if 0 ≤ i1.toInt then shift BitVec.sshiftRight i1 i2
    else shift BitVec.sshiftRight (i1.sshiftRight 1 &&& ~~~signMask) (i2 - 1)
  | .rightShift =>
    if 0 ≤ i1.toInt then shift BitVec.sshiftRight i1 i2
    else .ok (shiftRightBySteps i2.toInt.toNat i1)
  | _ => .error .except

def BinaryOp.isStrict : BinaryOp → Bool
  | .metaEqual | .metaNotEqual | .logicalAnd | .logicalOr => false
  | _ => true

def doOperation (setting : Setting P) (op : BinaryOp) (left1 left2 : Leftover) (v1 v2 : Value P) :
    Except Fault (Value P) :=
  if op.isStrict ∧ (v1.type = .error ∨ v2.type = .error) then .ok .error
  else if op.isStrict ∧ (v1.type = .undefined ∨ v2.type = .undefined) then .ok .undefined
  else
    match op with
    | .lessThan | .lessOrEqual | .notEqual | .equal | .greaterOrEqual | .greaterThan
    | .metaEqual | .metaNotEqual => doComparison op v1 v2
    | .addition | .subtraction | .multiplication | .division | .modulus =>
      doArithmetic setting op left1 left2 v1 v2
    | .logicalOr | .logicalAnd => .ok (doLogical setting op v1 v2)
    | .bitwiseOr | .bitwiseXor | .bitwiseAnd | .leftShift | .rightShift | .urightShift =>
      match v1, v2 with
      | .integer i1, .integer i2 => (doBitwise op i1 i2).map .integer
      | _, _ => .ok .error
    | .subscript => .ok (setting.subscript v1 v2)

end Condor.ClassAd
