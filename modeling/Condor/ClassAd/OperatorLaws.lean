import Condor.ClassAd.Operators

/-! Identity comparison, the operators on integers, and the order of the operands of addition and
multiplication. -/
namespace Condor.ClassAd
open Condor.Utils

section Identity
variable {P : Type} {v1 v2 : Value P}

/-- Values of one type that are the same. Strings are C strings, as for the comparison
operators; lists and ads are the same object. -/
def Identical : Value P → Value P → Prop
  | .string s1, .string s2 => strcmp s1 s2 = .eq
  | v1, v2 => v1 = v2

def Value.number : Value P → Option ℚ
  | .boolean b => some (if b then 1 else 0)
  | .integer i => some i.toInt
  | .real r => some r
  | _ => none

theorem Identical.type_eq (same : Identical v1 v2) : v1.type = v2.type := by
  unfold Identical at same
  split at same
  · rfl
  · rw [same]

theorem compareOfLessAndEq_eq {α : Type} [LT α] [DecidableLT α] [DecidableEq α] {x y : α}
    (irreflexive : ∀ x : α, ¬x < x) : compareOfLessAndEq x y = .eq ↔ x = y := by
  unfold compareOfLessAndEq
  constructor
  · intro eq
    split_ifs at eq with less same
    exact same
  · rintro rfl
    rw [if_neg (irreflexive x), if_pos rfl]

theorem number_promoted {v : Value P} {r : ℚ} (number : v.number = some r) :
    (∃ i, promoteBoolean v = .integer i ∧ r = i.toInt) ∨ promoteBoolean v = .real r := by
  cases v with
  | boolean b =>
    cases b <;> cases number
    · exact .inl ⟨0, rfl, rfl⟩
    · exact .inl ⟨1, rfl, rfl⟩
  | integer i =>
    cases number
    exact .inl ⟨i, rfl, rfl⟩
  | real r =>
    cases number
    exact .inr rfl
  | _ => cases number

variable {r1 r2 : ℚ}

theorem coerceToNumber_numbers (number1 : v1.number = some r1) (number2 : v2.number = some r2) :
    (∃ i1 i2 : BitVec 32, coerceToNumber v1 v2 = (.integer, .integer i1, .integer i2) ∧
      r1 = i1.toInt ∧ r2 = i2.toInt) ∨
    coerceToNumber v1 v2 = (.real, .real r1, .real r2) := by
  have numeric : ∀ {v : Value P} {r : ℚ}, v.number = some r → v.type ≠ .classAd ∧ v.type ≠ .list ∧
      v.type ≠ .string ∧ v.type ≠ .undefined ∧ v.type ≠ .error ∧ v.type ≠ .absoluteTime ∧
      v.type ≠ .relativeTime := by
    intro v r number
    cases v <;> cases number <;> simp [Value.type]
  obtain ⟨ad1, list1, string1, undefined1, error1, absolute1, relative1⟩ := numeric number1
  obtain ⟨ad2, list2, string2, undefined2, error2, absolute2, relative2⟩ := numeric number2
  simp only [coerceToNumber, ad1, list1, string1, undefined1, error1, absolute1, relative1, ad2,
    list2, string2, undefined2, error2, absolute2, relative2, or_self, if_false]
  rcases number_promoted number1 with ⟨i1, eq1, rfl⟩ | eq1 <;>
    rcases number_promoted number2 with ⟨i2, eq2, rfl⟩ | eq2 <;> rw [eq1, eq2]
  · exact .inl ⟨i1, i2, rfl, rfl, rfl⟩
  · exact .inr rfl
  · exact .inr rfl
  · exact .inr rfl

theorem coerceToNumber_others (other : v1.number = none ∨ v2.number = none) :
    (coerceToNumber v1 v2).2 = (v1, v2) ∧
      (v1.type = v2.type → (coerceToNumber v1 v2).1 = v1.type) := by
  have excluded : ∀ {v : Value P}, v.number = none → v.type = .classAd ∨ v.type = .list ∨
      v.type = .string ∨ v.type = .undefined ∨ v.type = .error ∨ v.type = .absoluteTime ∨
      v.type = .relativeTime := by
    intro v number
    cases v <;> cases number <;> simp [Value.type]
  unfold coerceToNumber
  split_ifs with ad list string undefined error absolute relative
  all_goals first
    | exact ⟨rfl, fun same => by simp_all⟩
    | skip
  simp only [not_or] at ad list string undefined error absolute relative
  rcases other with other | other
  · rcases excluded other with top | top | top | top | top | top | top <;> simp_all
  · rcases excluded other with top | top | top | top | top | top | top <;> simp_all

theorem metaComparison_numbers (number1 : v1.number = some r1) (number2 : v2.number = some r2) :
    doComparison .metaEqual v1 v2 = .ok (.boolean (r1 = r2)) ∧
      doComparison .metaNotEqual v1 v2 = .ok (.boolean (r1 ≠ r2)) := by
  rcases coerceToNumber_numbers number1 number2 with ⟨i1, i2, eq, rfl, rfl⟩ | eq
  · have order : compareOfLessAndEq i1.toInt i2.toInt = .eq ↔ (i1.toInt : ℚ) = i2.toInt := by
      rw [compareOfLessAndEq_eq Int.lt_irrefl, Rat.intCast_inj]
    simp [doComparison, eq, Value.type, compareValues, compareResult, order]
  · have order : compareOfLessAndEq r1 r2 = .eq ↔ r1 = r2 := compareOfLessAndEq_eq (by simp)
    simp [doComparison, eq, Value.type, compareValues, compareResult, order]

theorem identical_numbers (number1 : v1.number = some r1) (number2 : v2.number = some r2) :
    Identical v1 v2 ↔ v1.type = v2.type ∧ r1 = r2 := by
  cases v1 with
  | boolean b1 =>
    cases v2 <;> cases number1 <;> cases number2 <;> simp [Identical, Value.type]
    cases b1 <;> rename_i b2 <;> cases b2 <;> decide
  | integer i1 =>
    cases v2 <;> cases number1 <;> cases number2 <;>
      simp [Identical, Value.type, BitVec.toInt_inj]
  | real r1 => cases v2 <;> cases number1 <;> cases number2 <;> simp [Identical, Value.type]
  | _ => cases number1

structure Discerned (v1 v2 : Value P) : Prop where
  notLists : ¬(v1.type = .list ∧ v2.type = .list)
  notAds : ¬(v1.type = .classAd ∧ v2.type = .classAd)
  numbers : v1.type ≠ v2.type → ∀ r, v1.number = some r → v2.number ≠ some r
  offsets : ∀ secs offset1 offset2, v1 = .absoluteTime secs offset1 →
    v2 = .absoluteTime secs offset2 → offset1 = offset2

/-- Two results that are booleans, one the negation of the other, of which the first is true
just where `same` holds. -/
def Decides (equal notEqual : Except Fault (Value P)) (same : Prop) : Prop :=
  ∃ b, equal = .ok (.boolean b) ∧ notEqual = .ok (.boolean !b) ∧ (b = true ↔ same)

variable {same : Prop}

theorem decides_boolean {b : Bool} :
    Decides (P := P) (.ok (.boolean b)) (.ok (.boolean !b)) same ↔ (b = true ↔ same) := by
  constructor
  · rintro ⟨b, ⟨⟩, -, iff⟩
    exact iff
  · exact fun iff => ⟨b, rfl, rfl, iff⟩

theorem decides_order {order : Ordering} :
    Decides (P := P) (compareResult .equal order) (compareResult .notEqual order) same ↔
      (order = .eq ↔ same) := by
  have negation : decide (order ≠ .eq) = !decide (order = .eq) := by simp
  simp only [compareResult, negation, decides_boolean, decide_eq_true_eq]

theorem metaComparison_others (other : v1.number = none ∨ v2.number = none) :
    Decides (doComparison .metaEqual v1 v2) (doComparison .metaNotEqual v1 v2) (Identical v1 v2) ↔
      Discerned v1 v2 := by
  obtain ⟨unchanged, coerced⟩ := coerceToNumber_others other
  by_cases types : v1.type = v2.type
  · have coerced : coerceToNumber v1 v2 = (v1.type, v1, v2) := by
      rw [← unchanged, ← coerced types]
    have discerned : v1.type ≠ .list → v1.type ≠ .classAd → v1.type ≠ .absoluteTime →
        Discerned v1 v2 := by
      intro notList notAd notTime
      refine ⟨fun lists => notList lists.1, fun ads => notAd ads.1,
        fun differ => absurd types differ, ?_⟩
      rintro secs offset1 offset2 rfl rfl
      exact absurd rfl notTime
    simp only [doComparison, coerced, if_true, reduceCtorEq, if_false]
    cases v1 with
    | error | undefined =>
      cases v2 <;> cases types
      exact iff_of_true (decides_boolean.mpr (by simp [Identical]))
        (discerned (by simp [Value.type]) (by simp [Value.type]) (by simp [Value.type]))
    | string s1 =>
      cases v2 <;> cases types
      exact iff_of_true (decides_order.mpr Iff.rfl)
        (discerned (by simp [Value.type]) (by simp [Value.type]) (by simp [Value.type]))
    | relativeTime secs1 =>
      cases v2 <;> cases types
      refine iff_of_true (decides_order.mpr ?_)
        (discerned (by simp [Value.type]) (by simp [Value.type]) (by simp [Value.type]))
      rw [compareOfLessAndEq_eq (by simp)]
      simp [Identical]
    | absoluteTime secs1 offset1 =>
      cases v2 <;> cases types
      rename_i secs2 offset2
      refine decides_order.trans ?_
      rw [compareOfLessAndEq_eq Int.lt_irrefl]
      simp only [Identical, Value.absoluteTime.injEq]
      constructor
      · intro iff
        refine ⟨by simp [Value.type], by simp [Value.type], fun differ => absurd rfl differ, ?_⟩
        rintro secs offset1 offset2 ⟨⟩ ⟨⟩
        exact (iff.mp rfl).2
      · intro discerned
        refine ⟨fun same => ⟨same, ?_⟩, And.left⟩
        subst same
        exact discerned.offsets _ _ _ rfl rfl
    | list l1 =>
      cases v2 <;> cases types
      refine iff_of_false ?_ fun discerned => discerned.notLists ⟨rfl, rfl⟩
      rintro ⟨b, ⟨⟩, -, -⟩
    | classAd ad1 =>
      cases v2 <;> cases types
      refine iff_of_false ?_ fun discerned => discerned.notAds ⟨rfl, rfl⟩
      rintro ⟨b, ⟨⟩, -, -⟩
    | boolean _ | integer _ | real _ =>
      cases v2 <;> cases types
      simp [Value.number] at other
  · have equal : doComparison .metaEqual v1 v2 = .ok (.boolean false) := by
      simp [doComparison, unchanged, types]
    have notEqual : doComparison .metaNotEqual v1 v2 = .ok (.boolean true) := by
      simp [doComparison, unchanged, types]
    have different : ¬Identical v1 v2 := fun same => types same.type_eq
    rw [equal, notEqual]
    refine iff_of_true (decides_boolean.mpr (by simp [different])) ⟨?_, ?_, ?_, ?_⟩
    · exact fun lists => types (lists.1.trans lists.2.symm)
    · exact fun ads => types (ads.1.trans ads.2.symm)
    · intro _ r number1 number2
      rw [number1, number2] at other
      simp at other
    · rintro secs offset1 offset2 rfl rfl
      exact absurd rfl types

/-- `=?=` and `=!=` compare for identity: except lists with lists, ads with ads, numbers of
different types that are equal, and times that differ in their offsets only. -/
theorem metaComparison_identity_iff (setting : Setting P) (left1 left2 : Leftover)
    (v1 v2 : Value P) :
    Decides (doOperation setting .metaEqual left1 left2 v1 v2)
        (doOperation setting .metaNotEqual left1 left2 v1 v2) (Identical v1 v2) ↔
      Discerned v1 v2 := by
  change Decides (doComparison .metaEqual v1 v2) (doComparison .metaNotEqual v1 v2) _ ↔ _
  cases number1 : v1.number with
  | none => exact metaComparison_others (.inl number1)
  | some r1 =>
    cases number2 : v2.number with
    | none => exact metaComparison_others (.inr number2)
    | some r2 =>
      obtain ⟨equal, notEqual⟩ := metaComparison_numbers number1 number2
      have negation : decide (r1 ≠ r2) = !decide (r1 = r2) := by simp
      rw [equal, notEqual, negation, decides_boolean, decide_eq_true_eq,
        identical_numbers number1 number2]
      constructor
      · intro iff
        refine ⟨?_, ?_, fun differ r eq1 eq2 => ?_, ?_⟩
        · rintro ⟨list, -⟩
          cases v1 <;> cases list
          cases number1
        · rintro ⟨ad, -⟩
          cases v1 <;> cases ad
          cases number1
        · have same : r1 = r2 :=
            Option.some.inj ((number1.symm.trans eq1).trans (eq2.symm.trans number2))
          exact differ (iff.mp same).1
        · rintro secs offset1 offset2 rfl -
          cases number1
      · intro discerned
        refine ⟨fun same => ⟨?_, same⟩, And.right⟩
        by_contra differ
        exact discerned.numbers differ r1 number1 (same ▸ number2)

end Identity

def plainSetting : Setting Unit := ⟨false, fun r => r.num.tdiv r.den, fun _ _ => .error⟩

def noLeftover : Leftover := ⟨0, 0⟩

/-- `1 =?= 1.0` is true. -/
theorem metaComparison_promotes :
    ¬Decides (doOperation plainSetting .metaEqual noLeftover noLeftover (.integer 1) (.real 1))
        (doOperation plainSetting .metaNotEqual noLeftover noLeftover (.integer 1) (.real 1))
        (Identical (P := Unit) (.integer 1) (.real 1)) := by
  rintro ⟨b, equal, -, same⟩
  have true_ : doOperation plainSetting .metaEqual noLeftover noLeftover (.integer 1) (.real 1) =
      .ok (.boolean true) := by decide +kernel
  cases true_.symm.trans equal
  cases (same.mp rfl).type_eq

section Commutation
variable {P : Type} (setting : Setting P) {op : BinaryOp} {left1 left2 : Leftover} {v1 v2 : Value P}

def Commutes (op : BinaryOp) (left1 left2 : Leftover) (v1 v2 : Value P) : Prop :=
  ∃ v, doOperation setting op left1 left2 v1 v2 = .ok v ∧
    doOperation setting op left2 left1 v2 v1 = .ok v

/-- A real is multiplied by a relative time, and the product of what is left in the two `Value`
objects is not by chance the one that is meant. -/
def ScalesBackwards (left1 left2 : Leftover) (v1 v2 : Value P) : Prop :=
  ∃ r secs, v1 = .real r ∧ v2 = .relativeTime secs ∧
    left1.relTimeValueSecs * left2.realValue ≠ secs * r

theorem coerceToNumber_swap (v1 v2 : Value P) : coerceToNumber v2 v1 =
    ((coerceToNumber v1 v2).1, (coerceToNumber v1 v2).2.2, (coerceToNumber v1 v2).2.1) := by
  simp only [coerceToNumber, or_comm (b := v1.type = _)]
  split_ifs
  all_goals try rfl
  generalize promoteBoolean v1 = w1
  generalize promoteBoolean v2 = w2
  cases w1 <;> cases w2 <;> rfl

theorem doTimeArithmetic_addition :
    ∃ v, doTimeArithmetic setting .addition left1 left2 v1 v2 = .ok v ∧
      doTimeArithmetic setting .addition left2 left1 v2 v1 = .ok v := by
  cases v1 <;> cases v2 <;> refine ⟨_, rfl, ?_⟩ <;> simp [doTimeArithmetic, Rat.add_comm]

/-- The two orders of a product of times: one of them reads the members that are left over. -/
theorem doTimeArithmetic_multiplication :
    (∃ v, doTimeArithmetic setting .multiplication left1 left2 v1 v2 = .ok v ∧
      doTimeArithmetic setting .multiplication left2 left1 v2 v1 = .ok v) ↔
      ¬ScalesBackwards left1 left2 v1 v2 ∧ ¬ScalesBackwards left2 left1 v2 v1 := by
  by_cases real : ∃ r secs, v1 = .real r ∧ v2 = .relativeTime secs
  · obtain ⟨r, secs, rfl, rfl⟩ := real
    simp [doTimeArithmetic, scaleTime, ScalesBackwards, eq_comm]
  by_cases time : ∃ r secs, v2 = .real r ∧ v1 = .relativeTime secs
  · obtain ⟨r, secs, rfl, rfl⟩ := time
    simp [doTimeArithmetic, scaleTime, ScalesBackwards, eq_comm]
  refine iff_of_true ?_ ⟨?_, ?_⟩
  · cases v1 <;> cases v2 <;> try exact ⟨_, rfl, rfl⟩
    · exact ⟨_, rfl, by simp [doTimeArithmetic, scaleTime, Rat.mul_comm]⟩
    · exact absurd ⟨_, _, rfl, rfl⟩ real
    · exact ⟨_, rfl, by simp [doTimeArithmetic, Rat.mul_comm]⟩
    · exact absurd ⟨_, _, rfl, rfl⟩ time
  · rintro ⟨r, secs, eq1, eq2, -⟩
    exact real ⟨r, secs, eq1, eq2⟩
  · rintro ⟨r, secs, eq1, eq2, -⟩
    exact time ⟨r, secs, eq1, eq2⟩

theorem coerceToNumber_times (arithmetic1 : v1.isArithmetic = true)
    (arithmetic2 : v2.isArithmetic = true) (other : v1.number = none ∨ v2.number = none) :
    coerceToNumber v1 v2 = (.absoluteTime, v1, v2) ∨
      coerceToNumber v1 v2 = (.relativeTime, v1, v2) := by
  cases v1 <;> cases arithmetic1 <;> cases v2 <;> cases arithmetic2 <;>
    first
    | exact .inl rfl
    | exact .inr rfl
    | simp [Value.number] at other

theorem doArithmetic_commutes_iff (commuting : op = .addition ∨ op = .multiplication)
    (arithmetic1 : v1.isArithmetic = true) (arithmetic2 : v2.isArithmetic = true) :
    (∃ v, doArithmetic setting op left1 left2 v1 v2 = .ok v ∧
      doArithmetic setting op left2 left1 v2 v1 = .ok v) ↔
      (op = .multiplication →
        ¬ScalesBackwards left1 left2 v1 v2 ∧ ¬ScalesBackwards left2 left1 v2 v1) := by
  simp only [doArithmetic, arithmetic1, arithmetic2, coerceToNumber_swap v1 v2,
    Bool.not_true, Bool.or_self, Bool.false_eq_true, if_false]
  by_cases other : v1.number = none ∨ v2.number = none
  · rcases coerceToNumber_times arithmetic1 arithmetic2 other with eq | eq <;> rw [eq] <;>
      rcases commuting with rfl | rfl
    · exact iff_of_true (doTimeArithmetic_addition setting) (by simp)
    · simpa using doTimeArithmetic_multiplication setting
    · exact iff_of_true (doTimeArithmetic_addition setting) (by simp)
    · simpa using doTimeArithmetic_multiplication setting
  · obtain ⟨number1, number2⟩ := not_or.mp other
    obtain ⟨r1, number1⟩ := Option.ne_none_iff_exists'.mp number1
    obtain ⟨r2, number2⟩ := Option.ne_none_iff_exists'.mp number2
    refine iff_of_true ?_ fun _ => ⟨?_, ?_⟩
    · rcases coerceToNumber_numbers number1 number2 with ⟨i1, i2, eq, -, -⟩ | eq <;> rw [eq] <;>
        rcases commuting with rfl | rfl
      · exact ⟨_, rfl, by simp [integerArithmetic, BitVec.add_comm]⟩
      · exact ⟨_, rfl, by simp [integerArithmetic, BitVec.mul_comm]⟩
      · exact ⟨_, rfl, by simp [doRealArithmetic, Rat.add_comm]⟩
      · exact ⟨_, rfl, by simp [doRealArithmetic, Rat.mul_comm]⟩
    · rintro ⟨r, secs, rfl, rfl, -⟩
      cases number2
    · rintro ⟨r, secs, rfl, rfl, -⟩
      cases number1

end Commutation

section Integers
variable {P : Type} (setting : Setting P) (left1 left2 : Leftover) {op : BinaryOp}

def integerOps : List BinaryOp :=
  [.addition, .subtraction, .multiplication, .division, .modulus, .leftShift, .rightShift,
    .urightShift, .bitwiseAnd, .bitwiseOr, .bitwiseXor]

def definedResult (op : BinaryOp) (i1 i2 : BitVec 32) : Option (BitVec 32) :=
  match op with
  | .addition => some (.ofInt 32 (i1.toInt + i2.toInt))
  | .subtraction => some (.ofInt 32 (i1.toInt - i2.toInt))
  | .multiplication => some (.ofInt 32 (i1.toInt * i2.toInt))
  | .division => if i2 = 0 then none else some (.ofInt 32 (i1.toInt.tdiv i2.toInt))
  | .modulus => if i2 = 0 then none else some (.ofInt 32 (i1.toInt.tmod i2.toInt))
  | .leftShift => if i2.toNat < 32 then some (.ofInt 32 (i1.toInt * 2 ^ i2.toNat)) else none
  | .rightShift => if i2.toNat < 32 then some (.ofInt 32 (i1.toInt / 2 ^ i2.toNat)) else none
  | .urightShift => if i2.toNat < 32 then some (.ofNat 32 (i1.toNat / 2 ^ i2.toNat)) else none
  | .bitwiseAnd => some (i1 &&& i2)
  | .bitwiseOr => some (i1 ||| i2)
  | .bitwiseXor => some (i1 ^^^ i2)
  | _ => none

/-- The operation gives the error value or the defined result, by machine operations that are
defined. -/
def IsDefined (op : BinaryOp) (i1 i2 : BitVec 32) : Prop :=
  ∃ v, doOperation setting op left1 left2 (.integer i1) (.integer i2) = .ok v ∧
    (v = .error ∨ ∃ i, definedResult op i1 i2 = some i ∧ v = .integer i)

/-- The operands that the code does not test for. -/
def InRange (op : BinaryOp) (i1 i2 : BitVec 32) : Prop :=
  match op with
  | .division | .modulus => ¬(i1 = BitVec.intMin 32 ∧ i2 = -1)
  | .leftShift | .rightShift => i2.toNat < 32
  | .urightShift => i2.toNat < 32 ∧ (i1.toInt < 0 → i2 ≠ 0)
  | _ => True

variable {i1 i2 i : BitVec 32}

theorem isDefined_of_eq (defined : definedResult op i1 i2 = some i)
    (result : doOperation setting op left1 left2 (.integer i1) (.integer i2) = .ok (.integer i)) :
    IsDefined setting left1 left2 op i1 i2 :=
  ⟨_, result, .inr ⟨i, defined, rfl⟩⟩

theorem not_isDefined_of_fault {fault : Fault}
    (result : doOperation setting op left1 left2 (.integer i1) (.integer i2) = .error fault) :
    ¬IsDefined setting left1 left2 op i1 i2 := by
  rintro ⟨v, value, -⟩
  cases result.symm.trans value

theorem quotient_isDefined_iff {f : BitVec 32 → BitVec 32 → BitVec 32}
    (operation : doOperation setting op left1 left2 (.integer i1) (.integer i2) =
      if i2 ≠ 0 then (quotient f i1 i2).map .integer else .ok .error)
    (defined : i2 ≠ 0 → definedResult op i1 i2 = some (f i1 i2)) :
    IsDefined setting left1 left2 op i1 i2 ↔ ¬(i1 = BitVec.intMin 32 ∧ i2 = -1) := by
  by_cases zero : i2 = 0
  · rw [if_neg (not_not.mpr zero)] at operation
    refine iff_of_true ⟨.error, operation, .inl rfl⟩ ?_
    rintro ⟨-, rfl⟩
    exact absurd zero (by decide)
  · rw [if_pos zero, quotient] at operation
    by_cases large : i1 = BitVec.intMin 32 ∧ i2 = -1
    · rw [if_pos (.inr large)] at operation
      exact iff_of_false (not_isDefined_of_fault setting left1 left2 operation) (not_not.mpr large)
    · rw [if_neg (not_or.mpr ⟨zero, large⟩)] at operation
      exact iff_of_true (isDefined_of_eq setting left1 left2 (defined zero) operation) large

theorem sub_eq (i1 i2 : BitVec 32) : i1 - i2 = BitVec.ofInt 32 (i1.toInt - i2.toInt) := by
  apply BitVec.eq_of_toInt_eq
  rw [BitVec.toInt_sub, BitVec.toInt_ofInt]

theorem sdiv_eq (i1 i2 : BitVec 32) : i1.sdiv i2 = BitVec.ofInt 32 (i1.toInt.tdiv i2.toInt) := by
  apply BitVec.eq_of_toInt_eq
  rw [BitVec.toInt_sdiv, BitVec.toInt_ofInt]

theorem srem_eq (i1 i2 : BitVec 32) : i1.srem i2 = BitVec.ofInt 32 (i1.toInt.tmod i2.toInt) := by
  rw [← BitVec.toInt_srem, BitVec.ofInt_toInt]

theorem shiftLeft_eq (i : BitVec 32) (n : Nat) : i <<< n = BitVec.ofInt 32 (i.toInt * 2 ^ n) := by
  have power : BitVec.ofInt 32 ((2 ^ n : Nat) : Int) = BitVec.twoPow 32 n := by
    rw [BitVec.ofInt_natCast]
    apply BitVec.eq_of_toNat_eq
    rw [BitVec.toNat_ofNat, BitVec.toNat_twoPow]
  rw [BitVec.shiftLeft_eq_mul_twoPow, BitVec.ofInt_mul, BitVec.ofInt_toInt, ← power]
  norm_cast

theorem sshiftRight_eq (i : BitVec 32) (n : Nat) :
    i.sshiftRight n = BitVec.ofInt 32 (i.toInt / 2 ^ n) := by
  rw [BitVec.sshiftRight, Int.shiftRight_eq_div_pow]
  norm_cast

theorem ushiftRight_eq (i : BitVec 32) (n : Nat) : i >>> n = BitVec.ofNat 32 (i.toNat / 2 ^ n) := by
  apply BitVec.eq_of_toNat_eq
  rw [BitVec.toNat_ushiftRight, Nat.shiftRight_eq_div_pow, BitVec.toNat_ofNat, Nat.mod_eq_of_lt]
  exact Nat.lt_of_le_of_lt (Nat.div_le_self _ _) i.isLt

/-- Setting the sign bit changes nothing where a shift has copied it. -/
theorem sshiftRight_or_signMask (negative : i.msb = true) :
    i.sshiftRight 1 ||| signMask = i.sshiftRight 1 := by
  ext k bound
  by_cases top : k = 31
  · subst top
    simp [signMask, BitVec.getElem_sshiftRight, negative]
  · simp [signMask, BitVec.intMin, BitVec.getElem_twoPow, top]

theorem sshiftRight_and_not_signMask (i : BitVec 32) :
    i.sshiftRight 1 &&& ~~~signMask = i >>> 1 := by
  ext k bound
  by_cases top : k = 31
  · subst top
    simp [signMask, BitVec.intMin]
  · have inside : 1 + k < 32 := by omega
    simp [signMask, BitVec.intMin, BitVec.getElem_twoPow, BitVec.getElem_sshiftRight, inside]
    intro _
    omega

theorem shiftRightBySteps_eq (n : Nat) (negative : i.msb = true) :
    shiftRightBySteps n i = i.sshiftRight n := by
  induction n generalizing i with
  | zero => simp [shiftRightBySteps]
  | succ n ih =>
    have kept : (i.sshiftRight 1).msb = true := by rw [BitVec.msb_sshiftRight, negative]
    rw [shiftRightBySteps, sshiftRight_or_signMask negative, ih kept, ← BitVec.sshiftRight_add,
      Nat.add_comm]

theorem shift_isDefined_iff {f : BitVec 32 → Nat → BitVec 32}
    (operation : doOperation setting op left1 left2 (.integer i1) (.integer i2) =
      (shift f i1 i2).map .integer)
    (defined : i2.toNat < 32 → definedResult op i1 i2 = some (f i1 i2.toNat)) :
    IsDefined setting left1 left2 op i1 i2 ↔ i2.toNat < 32 := by
  unfold shift at operation
  by_cases small : i2.toNat < 32
  · rw [if_pos small] at operation
    exact iff_of_true (isDefined_of_eq setting left1 left2 (defined small) operation) small
  · rw [if_neg small] at operation
    exact iff_of_false (not_isDefined_of_fault setting left1 left2 operation) small

theorem not_isDefined_of_none (none : definedResult op i1 i2 = none)
    (operation : doOperation setting op left1 left2 (.integer i1) (.integer i2) =
      .ok (.integer i)) : ¬IsDefined setting left1 left2 op i1 i2 := by
  rintro ⟨v, value, error | ⟨i, some, -⟩⟩
  · subst error
    cases operation.symm.trans value
  · cases none.symm.trans some

theorem rightShift_isDefined_iff (i1 i2 : BitVec 32) :
    IsDefined setting left1 left2 .rightShift i1 i2 ↔ i2.toNat < 32 := by
  by_cases sign : 0 ≤ i1.toInt
  · refine shift_isDefined_iff setting left1 left2 (f := BitVec.sshiftRight) ?_ fun small => ?_
    · simp [doOperation, BinaryOp.isStrict, Value.type, doBitwise, sign]
    · simp [definedResult, small, sshiftRight_eq]
  · have negative : i1.msb = true := by
      rw [BitVec.msb_eq_toInt]
      simpa using sign
    have operation : doOperation setting .rightShift left1 left2 (.integer i1) (.integer i2) =
        .ok (.integer (i1.sshiftRight i2.toInt.toNat)) := by
      simp [doOperation, BinaryOp.isStrict, Value.type, doBitwise, sign,
        shiftRightBySteps_eq _ negative, Except.map]
    by_cases small : i2.toNat < 32
    · have count : i2.toInt.toNat = i2.toNat := by
        rw [BitVec.toInt_eq_toNat_of_lt (by omega), Int.toNat_natCast]
      rw [count] at operation
      refine iff_of_true (isDefined_of_eq setting left1 left2 ?_ operation) small
      simp [definedResult, small, sshiftRight_eq]
    · refine iff_of_false (not_isDefined_of_none setting left1 left2 ?_ operation) small
      simp [definedResult, small]

theorem urightShift_isDefined_iff (i1 i2 : BitVec 32) :
    IsDefined setting left1 left2 .urightShift i1 i2 ↔
      i2.toNat < 32 ∧ (i1.toInt < 0 → i2 ≠ 0) := by
  by_cases sign : 0 ≤ i1.toInt
  · have positive : i1.msb = false := by
      rw [BitVec.msb_eq_toInt]
      simpa using sign
    rw [and_iff_left fun negative => absurd sign (by omega)]
    refine shift_isDefined_iff setting left1 left2 (f := BitVec.sshiftRight) ?_ fun small => ?_
    · simp [doOperation, BinaryOp.isStrict, Value.type, doBitwise, sign]
    · simp [definedResult, small, BitVec.sshiftRight_eq_of_msb_false positive, ushiftRight_eq]
  · have cleared : (i1 >>> 1).msb = false := by simp
    have operation : doOperation setting .urightShift left1 left2 (.integer i1) (.integer i2) =
        (shift BitVec.sshiftRight (i1 >>> 1) (i2 - 1)).map .integer := by
      simp [doOperation, BinaryOp.isStrict, Value.type, doBitwise, sign,
        sshiftRight_and_not_signMask]
    have bound := i2.isLt
    have one : (1 : BitVec 32).toNat = 1 := rfl
    unfold shift at operation
    by_cases inside : (i2 - 1).toNat < 32
    · have count : i2.toNat = 1 + (i2 - 1).toNat := by
        rw [BitVec.toNat_sub, one] at inside ⊢
        omega
      rw [if_pos inside, BitVec.sshiftRight_eq_of_msb_false cleared, ← BitVec.shiftRight_add,
        ← count] at operation
      have nonzero : i2 ≠ 0 := by
        rintro rfl
        cases count
      by_cases small : i2.toNat < 32
      · refine iff_of_true (isDefined_of_eq setting left1 left2 ?_ operation)
          ⟨small, fun _ => nonzero⟩
        simp [definedResult, small, ushiftRight_eq]
      · refine iff_of_false (not_isDefined_of_none setting left1 left2 ?_ operation) fun ok =>
          small ok.1
        simp [definedResult, small]
    · rw [if_neg inside] at operation
      refine iff_of_false (not_isDefined_of_fault setting left1 left2 operation) ?_
      rintro ⟨small, nonzero⟩
      have positive : i2.toNat ≠ 0 := fun zero =>
        nonzero (by omega) (BitVec.eq_of_toNat_eq zero)
      rw [BitVec.toNat_sub, one] at inside
      omega

/-- The operators on integers are defined exactly on the operands in range. -/
theorem integer_isDefined_iff (integer : op ∈ integerOps) (i1 i2 : BitVec 32) :
    IsDefined setting left1 left2 op i1 i2 ↔ InRange op i1 i2 := by
  simp only [integerOps, List.mem_cons, List.not_mem_nil, or_false] at integer
  rcases integer with rfl | rfl | rfl | rfl | rfl | rfl | rfl | rfl | rfl | rfl | rfl
  · refine iff_of_true (isDefined_of_eq setting left1 left2 rfl ?_) trivial
    rw [BitVec.ofInt_add, BitVec.ofInt_toInt, BitVec.ofInt_toInt]
    rfl
  · refine iff_of_true (isDefined_of_eq setting left1 left2 rfl ?_) trivial
    rw [← sub_eq]
    rfl
  · refine iff_of_true (isDefined_of_eq setting left1 left2 rfl ?_) trivial
    rw [BitVec.ofInt_mul, BitVec.ofInt_toInt, BitVec.ofInt_toInt]
    rfl
  · refine quotient_isDefined_iff setting left1 left2 (f := BitVec.sdiv) rfl fun nonzero => ?_
    rw [sdiv_eq]
    exact if_neg nonzero
  · refine quotient_isDefined_iff setting left1 left2 (f := BitVec.srem) rfl fun nonzero => ?_
    rw [srem_eq]
    exact if_neg nonzero
  · refine shift_isDefined_iff setting left1 left2 (f := (· <<< ·)) rfl fun small => ?_
    rw [shiftLeft_eq]
    exact if_pos small
  · exact rightShift_isDefined_iff setting left1 left2 i1 i2
  · exact urightShift_isDefined_iff setting left1 left2 i1 i2
  · exact iff_of_true (isDefined_of_eq setting left1 left2 rfl rfl) trivial
  · exact iff_of_true (isDefined_of_eq setting left1 left2 rfl rfl) trivial
  · exact iff_of_true (isDefined_of_eq setting left1 left2 rfl rfl) trivial

end Integers

theorem integer_isDefined_iff_shift :
    IsDefined plainSetting noLeftover noLeftover .urightShift (-1) 4 :=
  (integer_isDefined_iff plainSetting noLeftover noLeftover (by decide) (-1) 4).mpr
    ⟨by decide, fun _ => by decide⟩

/-- The least integer divided by -1. -/
theorem quotient_not_isDefined :
    ¬IsDefined plainSetting noLeftover noLeftover .division (BitVec.intMin 32) (-1) := by
  rintro ⟨v, value, -⟩
  cases value

end Condor.ClassAd
