import Condor.ClassAd.OperatorLaws
import Mathlib.Data.List.Infix

/-! `anyCompare`, `allCompare` and `substr`, from the values of their arguments. -/
namespace Condor.ClassAd
open Condor.Utils

inductive Call (P : Type) where
  | returns (ok : Bool) (v : Value P)
  | faults (fault : Fault)
  /-- `std::out_of_range`. -/
  | throws

/-- What evaluating an argument gives; `none` where `Evaluate` returns false. -/
abbrev Evaluated (P : Type) := Option (Value P)

section Compare
variable {P : Type} (setting : Setting P)

def comparisonOperator (name : Bytes) : Option BinaryOp :=
  if name = ascii "<" then some .lessThan
  else if name = ascii "<=" then some .lessOrEqual
  else if name = ascii "!=" then some .notEqual
  else if name = ascii "==" then some .equal
  else if name = ascii ">" then some .greaterThan
  else if name = ascii ">=" then some .greaterOrEqual
  else if name = ascii "is" then some .metaEqual
  else if name = ascii "isnt" then some .metaNotEqual
  else none

/-- `Operation::Operate` on a comparison, which does not read what is left over in the operands. -/
def operate (op : BinaryOp) (v1 v2 : Value P) : Except Fault (Value P) :=
  doOperation setting op ⟨0, 0⟩ ⟨0, 0⟩ v1 v2

def operated (op : BinaryOp) (v1 v2 : Value P) : Value P :=
  if op.isStrict ∧ (v1.type = .error ∨ v2.type = .error ∨ v1.type = .undefined ∨
    v2.type = .undefined) then v2
  else (coerceToNumber v1 v2).2.2

def compareLoop (op : BinaryOp) (needAllMatch : Bool) : Value P → List (Evaluated P) → Call P
  | _, [] => .returns true (.boolean needAllMatch)
  | _, none :: _ => .returns false .error
  | compareVal, some element :: rest =>
    match operate setting op element compareVal with
    | .error fault => .faults fault
    | .ok (.boolean b) =>
      if b = needAllMatch then compareLoop op needAllMatch (operated op element compareVal) rest
      else .returns true (.boolean b)
    | .ok .undefined => .returns true (.boolean false)
    | .ok _ => .returns false .error

/-- `listCompare`; `elements` are the evaluated elements of a list. -/
def listCompare (elements : P → List (Evaluated P)) (fn : Bytes) : List (Evaluated P) → Call P
  | [none, _, _] => .returns false .error
  | [some .undefined, _, _] => .returns true .undefined
  | [some (.string name), list, compareVal] =>
    match comparisonOperator name, list, compareVal with
    | none, _, _ => .returns true .error
    | some _, none, _ => .returns false .error
    | some _, some .undefined, _ => .returns true .undefined
    | some _, some (.list _), none => .returns false .error
    | some op, some (.list l), some compareVal =>
      compareLoop setting op (!sameIgnoringCase fn (ascii "anycompare")) compareVal (elements l)
    | some _, some _, _ => .returns true .error
  | _ => .returns true .error

section Promotion
variable {setting} {op : BinaryOp} {e v v' : Value P} {r r1 r2 : ℚ}
variable {name : Bytes}

theorem comparisonOperator_cases (named : comparisonOperator name = some op) :
    ∀ e v : Value P, operate setting op e v =
      if op.isStrict ∧ (e.type = .error ∨ v.type = .error) then .ok .error
      else if op.isStrict ∧ (e.type = .undefined ∨ v.type = .undefined) then .ok .undefined
      else doComparison op e v := by
  intro e v
  unfold comparisonOperator at named
  split_ifs at named <;> cases named <;> rfl

theorem compareOfLessAndEq_intCast (i j : Int) :
    compareOfLessAndEq i j = compareOfLessAndEq (i : ℚ) (j : ℚ) := by
  simp only [compareOfLessAndEq, Rat.intCast_lt_intCast, Rat.intCast_inj]

/-- Numbers are compared by their values, whatever their types. -/
theorem doComparison_numbers (number1 : e.number = some r1) (number2 : v.number = some r2) :
    doComparison op e v = compareResult
      (if op = .metaEqual then .equal else if op = .metaNotEqual then .notEqual else op)
      (compareOfLessAndEq r1 r2) := by
  rcases coerceToNumber_numbers number1 number2 with ⟨i1, i2, eq, rfl, rfl⟩ | eq <;>
    simp only [doComparison, eq, Value.type, compareValues, ← compareOfLessAndEq_intCast] <;>
    split_ifs <;> simp_all

theorem doComparison_other_number (number1 : e.number = none) (number2 : v.number = some r) :
    doComparison op e v =
      if op = .metaEqual then .ok (.boolean false)
      else if op = .metaNotEqual then .ok (.boolean true)
      else if e.type = .undefined ∨ e.type = .error then .error .except else .ok .error := by
  cases v <;> cases number2 <;> cases e <;> simp_all [Value.number] <;>
    simp [doComparison, coerceToNumber, Value.type, compareValues]

theorem operate_number (named : comparisonOperator name = some op) (number : v.number = some r)
    (number' : v'.number = some r) (e : Value P) :
    operate setting op e v = operate setting op e v' := by
  have plain : ∀ {v : Value P}, v.number = some r → v.type ≠ .error ∧ v.type ≠ .undefined := by
    intro v number
    cases v <;> cases number <;> simp [Value.type]
  rw [comparisonOperator_cases named, comparisonOperator_cases named]
  simp only [plain number, plain number', or_false]
  cases numbered : e.number with
  | none =>
    rw [doComparison_other_number numbered number, doComparison_other_number numbered number']
  | some r1 => rw [doComparison_numbers numbered number, doComparison_numbers numbered number']

/-- Promoting the value compared with does not change what it compares to. -/
theorem operate_operated (named : comparisonOperator name = some op) (e element v : Value P) :
    operate setting op e (operated op element v) = operate setting op e v := by
  unfold operated
  split_ifs
  · rfl
  · cases number1 : element.number with
    | none => rw [(coerceToNumber_others (.inl number1)).1]
    | some r1 =>
      cases number2 : v.number with
      | none => rw [(coerceToNumber_others (.inr number2)).1]
      | some r2 =>
        refine operate_number named (r := r2) ?_ number2 e
        rcases coerceToNumber_numbers number1 number2 with ⟨i1, i2, eq, rfl, rfl⟩ | eq <;>
          rw [eq] <;> rfl

end Promotion

def Compares (op : BinaryOp) (v e : Value P) : Prop :=
  operate setting op e v = .ok .undefined ∨ ∃ b, operate setting op e v = .ok (.boolean b)

def ComparesTrue (op : BinaryOp) (v e : Value P) : Prop :=
  operate setting op e v = .ok (.boolean true)

/-- Every undefined comparison that is followed by a true one comes after a true one. -/
def NoneHidden (op : BinaryOp) (v : Value P) (es : List (Value P)) : Prop :=
  ∀ before e after, es = before ++ e :: after → operate setting op e v = .ok .undefined →
    (∃ x ∈ after, ComparesTrue setting op v x) → ∃ x ∈ before, ComparesTrue setting op v x

section Loop
variable {setting} {op : BinaryOp} {name : Bytes} {v v' e : Value P} {es : List (Value P)}
variable {needAllMatch : Bool}

theorem compareLoop_congr (named : comparisonOperator name = some op) {rest : List (Evaluated P)} :
    ∀ {v v' : Value P},
    (∀ e, operate setting op e v' = operate setting op e v) →
    compareLoop setting op needAllMatch v' rest = compareLoop setting op needAllMatch v rest := by
  induction rest with
  | nil =>
    intro v v' same
    rfl
  | cons first rest ih =>
    intro v v' same
    cases first with
    | none => rfl
    | some e =>
      have next : ∀ x, operate setting op x (operated op e v') =
          operate setting op x (operated op e v) := by
        intro x
        rw [operate_operated named, operate_operated named, same x]
      simp only [compareLoop, same e, ih next]

theorem compareLoop_boolean (named : comparisonOperator name = some op) {b : Bool}
    (compared : operate setting op e v = .ok (.boolean b)) (rest : List (Evaluated P)) :
    compareLoop setting op needAllMatch v (some e :: rest) =
      if b = needAllMatch then compareLoop setting op needAllMatch v rest
      else .returns true (.boolean b) := by
  rw [compareLoop]
  simp only [compared]
  rw [compareLoop_congr named (fun x => operate_operated named x e v)]

theorem compareLoop_undefined (compared : operate setting op e v = .ok .undefined)
    (rest : List (Evaluated P)) :
    compareLoop setting op needAllMatch v (some e :: rest) = .returns true (.boolean false) := by
  simp only [compareLoop, compared]

theorem noneHidden_cons_boolean {b : Bool} (compared : operate setting op e v = .ok (.boolean b)) :
    NoneHidden setting op v (e :: es) ↔ b = true ∨ NoneHidden setting op v es := by
  constructor
  · intro hidden
    by_cases holds : b = true
    · exact .inl holds
    · refine .inr fun before x after eq undefined found => ?_
      obtain ⟨y, member, compares⟩ :=
        hidden (e :: before) x after (by rw [eq, List.cons_append]) undefined found
      rcases List.mem_cons.mp member with rfl | member
      · rw [ComparesTrue, compared] at compares
        simp_all
      · exact ⟨y, member, compares⟩
  · rintro holds before x after eq undefined found
    cases before with
    | nil =>
      obtain ⟨rfl, rfl⟩ := List.cons.inj eq
      rw [compared] at undefined
      cases undefined
    | cons first before =>
      obtain ⟨rfl, rfl⟩ := List.cons.inj eq
      rcases holds with rfl | hidden
      · exact ⟨e, List.mem_cons_self, compared⟩
      · obtain ⟨y, member, compares⟩ := hidden before x after rfl undefined found
        exact ⟨y, List.mem_cons_of_mem _ member, compares⟩

theorem noneHidden_cons_undefined (compared : operate setting op e v = .ok .undefined) :
    NoneHidden setting op v (e :: es) ↔ ¬ ∃ x ∈ es, ComparesTrue setting op v x := by
  constructor
  · intro hidden found
    obtain ⟨y, member, -⟩ := hidden [] e es rfl compared found
    cases member
  · intro none before x after eq undefined found
    refine absurd ?_ none
    obtain ⟨y, member, compares⟩ := found
    cases before with
    | nil =>
      obtain ⟨rfl, rfl⟩ := List.cons.inj eq
      exact ⟨y, member, compares⟩
    | cons first before =>
      obtain ⟨rfl, rfl⟩ := List.cons.inj eq
      exact ⟨y, by simp [member], compares⟩

theorem compareLoop_all (named : comparisonOperator name = some op)
    (compares : ∀ e ∈ es, Compares setting op v e) :
    compareLoop setting op true v (es.map some) = .returns true (.boolean true) ↔
      ∀ e ∈ es, ComparesTrue setting op v e := by
  induction es with
  | nil => simp [compareLoop]
  | cons e es ih =>
    rw [List.map_cons, List.forall_mem_cons, ComparesTrue]
    rcases compares e List.mem_cons_self with undefined | ⟨b, compared⟩
    · simp [compareLoop_undefined undefined, undefined]
    · rw [compareLoop_boolean named compared, compared]
      cases b with
      | false => simp
      | true => simpa using ih fun x member => compares x (List.mem_cons_of_mem _ member)

theorem compareLoop_any (named : comparisonOperator name = some op)
    (compares : ∀ e ∈ es, Compares setting op v e) :
    (compareLoop setting op false v (es.map some) = .returns true (.boolean true) ↔
      ∃ e ∈ es, ComparesTrue setting op v e) ↔ NoneHidden setting op v es := by
  induction es with
  | nil => simp [compareLoop, NoneHidden]
  | cons e es ih =>
    rw [List.map_cons, List.exists_mem_cons_iff]
    rcases compares e List.mem_cons_self with undefined | ⟨b, compared⟩
    · rw [noneHidden_cons_undefined undefined, compareLoop_undefined undefined, ComparesTrue]
      simp [undefined]
    · rw [noneHidden_cons_boolean compared, compareLoop_boolean named compared, ComparesTrue,
        compared]
      cases b with
      | false => simpa using ih fun x member => compares x (List.mem_cons_of_mem _ member)
      | true => simp

end Loop

/-- `anyCompare` and `allCompare` are the quantifiers over the list `l`. -/
def Quantifies (elements : P → List (Evaluated P)) (name : Bytes) (op : BinaryOp) (l : P)
    (v : Value P) (es : List (Value P)) : Prop :=
  (listCompare setting elements (ascii "anyCompare")
      [some (.string name), some (.list l), some v] = .returns true (.boolean true) ↔
    ∃ e ∈ es, ComparesTrue setting op v e) ∧
  (listCompare setting elements (ascii "allCompare")
      [some (.string name), some (.list l), some v] = .returns true (.boolean true) ↔
    ∀ e ∈ es, ComparesTrue setting op v e)

theorem listCompare_list {elements : P → List (Evaluated P)} {name fn : Bytes} {op : BinaryOp}
    (named : comparisonOperator name = some op) (l : P) (v : Value P) :
    listCompare setting elements fn [some (.string name), some (.list l), some v] =
      compareLoop setting op (!sameIgnoringCase fn (ascii "anycompare")) v (elements l) := by
  simp only [listCompare, named]

/-- An undefined comparison ends `anyCompare` even if a later element compares true. -/
theorem listCompare_quantifies_iff (elements : P → List (Evaluated P)) (name : Bytes)
    (op : BinaryOp) (named : comparisonOperator name = some op) (l : P) (v : Value P)
    (es : List (Value P)) (evaluated : elements l = es.map some)
    (compares : ∀ e ∈ es, Compares setting op v e) :
    Quantifies setting elements name op l v es ↔ NoneHidden setting op v es := by
  have any : sameIgnoringCase (ascii "anyCompare") (ascii "anycompare") = true := by decide
  have all : sameIgnoringCase (ascii "allCompare") (ascii "anycompare") = false := by decide
  rw [Quantifies, listCompare_list setting named, listCompare_list setting named, evaluated, any,
    all]
  exact (and_iff_left (compareLoop_all named compares)).trans (compareLoop_any named compares)

/-- `anyCompare("==", {1, undefined}, 1)`. -/
theorem listCompare_quantifies_found :
    Quantifies (plainSetting : Setting Unit) (fun _ => [some (.integer 1), some .undefined])
      (ascii "==") .equal () (.integer 1) [.integer 1, .undefined] := by
  refine (listCompare_quantifies_iff plainSetting _ (ascii "==") .equal (by decide) () _ _ rfl
    ?_).mpr ?_
  · rintro e member
    simp only [List.mem_cons, List.not_mem_nil, or_false] at member
    rcases member with rfl | rfl
    · exact .inr ⟨true, rfl⟩
    · exact .inl rfl
  · rw [noneHidden_cons_boolean (b := true) rfl]
    exact .inl rfl

/-- `anyCompare("==", {undefined, 1}, 1)`. -/
theorem anyCompare_undefined_hides :
    comparisonOperator (ascii "==") = some .equal ∧
      Compares plainSetting .equal (.integer 1) (.undefined : Value Unit) ∧
      ComparesTrue plainSetting .equal (.integer 1) (.integer 1 : Value Unit) ∧
      listCompare plainSetting (fun _ => [some .undefined, some (.integer 1)])
        (ascii "anyCompare") [some (.string (ascii "==")), some (.list ()), some (.integer 1)] =
          .returns true (.boolean false) := by
  refine ⟨by decide, .inl rfl, rfl, ?_⟩
  rw [listCompare_list plainSetting (show comparisonOperator (ascii "==") = some .equal by decide)]
  exact compareLoop_undefined rfl _

end Compare

section Substring
variable {P : Type}

def int (i : Int) : Except Fault Int :=
  if -2 ^ 31 ≤ i ∧ i < 2 ^ 31 then .ok i else .error .machine

/-- `std::string::assign`, whose arguments become `size_t`; `none` where it throws. -/
def assign (buf : Bytes) (offset len : Int) : Option Bytes :=
  let pos := (offset % 2 ^ 64).toNat
  if buf.length < pos then none else some ((buf.drop pos).take (len % 2 ^ 64).toNat)

/-- `offset`: a negative one counts from the end of the string. -/
def partOffset (alen o : Int) : Except Fault Int :=
  if o < 0 then int (alen + o) else .ok (if alen ≤ o then alen else o)

/-- `len`, from what the offset leaves of the string. An explicit zero is looked for again after
it has been taken for an omitted length. -/
def partLength (rest : Int) (n : Option Int) : Except Fault Int := do
  let len := n.getD 0
  let len ←
    if len ≤ 0 then (fun len => if len < 0 then 0 else len) <$> int (rest + len)
    else .ok (if rest < len then rest else len)
  return if n = some 0 then 0 else len

def substr (buf : Bytes) (o : Int) (n : Option Int) : Except Fault (Option Bytes) := do
  let alen := (BitVec.ofNat 32 buf.length).toInt
  let offset ← partOffset alen o
  let rest ← int (alen - offset)
  let len ← partLength rest n
  return assign buf offset len

def Evaluated.isUndefined : Evaluated P → Bool
  | some .undefined => true
  | _ => false

def subString (args : List (Evaluated P)) : Call P :=
  if args.length < 2 ∨ 3 < args.length then .returns true .error
  else if args.any Option.isNone then .returns false .error
  else if args.any Evaluated.isUndefined then .returns true .undefined
  else
    let answer (buf : Bytes) (o : BitVec 32) (n : Option (BitVec 32)) : Call P :=
      match substr buf o.toInt (n.map BitVec.toInt) with
      | .error fault => .faults fault
      | .ok none => .throws
      | .ok (some str) => .returns true (.string str)
    match args with
    | [some (.string buf), some (.integer o)] => answer buf o none
    | [some (.string buf), some (.integer o), some (.integer n)] => answer buf o (some n)
    | _ => .returns true .error

/-- The call `substr(s, o)` or `substr(s, o, n)`. -/
def callSubstr (s : Bytes) (o : BitVec 32) (n : Option (BitVec 32)) : Call P :=
  subString (some (.string s) :: some (.integer o) :: (n.map fun n => some (.integer n)).toList)

def sliceStart (s : Bytes) (o : Int) : Int :=
  if o < 0 then s.length + o else min o s.length

def sliceEnd (s : Bytes) (o : Int) : Option Int → Int
  | none => s.length
  | some n =>
    if 0 ≤ n then min (sliceStart s o + n) s.length else max (sliceStart s o) (s.length + n)

/-- The call gives a part of `s`, and the one asked for unless `o` lies before the string. -/
def Exact (P : Type) (s : Bytes) (o : BitVec 32) (n : Option (BitVec 32)) : Prop :=
  ∃ part, (callSubstr s o n : Call P) = .returns true (.string part) ∧ part <:+: s ∧
    (-s.length ≤ o.toInt → part = (s.take (sliceEnd s o.toInt (n.map BitVec.toInt)).toNat).drop
      (sliceStart s o.toInt).toNat)

theorem int_of_range {i : Int} (low : -2 ^ 31 ≤ i) (high : i < 2 ^ 31) : int i = .ok i :=
  if_pos ⟨low, high⟩

theorem int_range {i j : Int} (result : int i = .ok j) : -2 ^ 31 ≤ j ∧ j < 2 ^ 31 ∧ i = j := by
  unfold int at result
  split_ifs at result with range
  obtain rfl := Except.ok.inj result
  exact ⟨range.1, range.2, rfl⟩

theorem callSubstr_returns {s part : Bytes} {o : BitVec 32} {n : Option (BitVec 32)} :
    (callSubstr s o n : Call P) = .returns true (.string part) ↔
      substr s o.toInt (n.map BitVec.toInt) = .ok (some part) := by
  cases n <;> simp only [callSubstr, subString, Option.map_none, Option.map_some,
    Option.toList_none, Option.toList_some, List.length_cons, List.length_nil, List.any_cons,
    List.any_nil, Option.isNone_some, Evaluated.isUndefined] <;>
    rcases substr s o.toInt _ with fault | _ | str <;> simp

variable {s : Bytes}

theorem length_toInt (fits : s.length < 2 ^ 31) : (BitVec.ofNat 32 s.length).toInt = s.length := by
  rw [BitVec.toInt_ofNat', Int.bmod_def]
  omega

/-- The length of a longer string is taken for a negative number. -/
theorem length_toInt_neg (long : 2 ^ 31 ≤ s.length) (fits : s.length < 2 ^ 32) :
    (BitVec.ofNat 32 s.length).toInt < 0 := by
  rw [BitVec.toInt_ofNat', Int.bmod_def]
  omega

variable {o offset : Int} {n : Option Int}

theorem sliceStart_range (inside : -s.length ≤ o) :
    0 ≤ sliceStart s o ∧ sliceStart s o ≤ s.length := by
  unfold sliceStart
  split_ifs <;> omega

theorem sliceEnd_range (inside : -s.length ≤ o) (n : Option Int) :
    sliceStart s o ≤ sliceEnd s o n ∧ sliceEnd s o n ≤ s.length := by
  have start := sliceStart_range inside
  cases n with
  | none => simpa [sliceEnd] using start.2
  | some n =>
    simp only [sliceEnd]
    split_ifs <;> omega

theorem assign_of_range {len : Int} (positive : 0 ≤ offset) (inside : offset ≤ s.length)
    (fits : s.length < 2 ^ 31) (length : 0 ≤ len) (small : len < 2 ^ 31) :
    assign s offset len = some ((s.drop offset.toNat).take len.toNat) := by
  unfold assign
  rw [Int.emod_eq_of_lt positive (by omega), Int.emod_eq_of_lt length (by omega)]
  exact if_neg (by omega)

theorem assign_of_negative (negative : offset < 0) (low : -2 ^ 32 ≤ offset)
    (fits : s.length < 2 ^ 32) (len : Int) :
    assign s offset len = none := by
  unfold assign
  exact if_pos (by omega)

theorem partOffset_of_inside (fits : s.length < 2 ^ 31) (inside : -s.length ≤ o) :
    partOffset s.length o = .ok (sliceStart s o) := by
  unfold partOffset sliceStart
  split_ifs with before after
  · exact int_of_range (by omega) (by omega)
  · congr 1
    omega
  · congr 1
    omega

theorem partLength_of_inside (fits : s.length < 2 ^ 31) (inside : -s.length ≤ o)
    (low : ∀ m ∈ n, -2 ^ 31 ≤ m) :
    partLength (s.length - sliceStart s o) n = .ok (sliceEnd s o n - sliceStart s o) := by
  have start := sliceStart_range inside
  unfold partLength
  cases n with
  | none =>
    have room : int (s.length - sliceStart s o + 0) = .ok (s.length - sliceStart s o) := by
      rw [int_of_range (by omega) (by omega), Int.add_zero]
    simp only [Option.getD_none, room, sliceEnd]
    simp
    omega
  | some m =>
    have lowest := low m rfl
    simp only [Option.getD_some, sliceEnd]
    rcases Int.lt_trichotomy m 0 with negative | rfl | positive
    · have room := int_of_range (i := s.length - sliceStart s o + m) (by omega) (by omega)
      have nonzero : m ≠ 0 := by omega
      rw [if_pos (by omega), if_neg (by omega), room]
      simp only [Functor.map, Except.map, bind, Except.bind, pure, Except.pure,
        Option.some.injEq, nonzero, if_false]
      congr 1
      split_ifs <;> omega
    · have room := int_of_range (i := s.length - sliceStart s o + 0) (by omega) (by omega)
      rw [if_pos (by omega), if_pos (by omega), room]
      simp only [Functor.map, Except.map, bind, Except.bind, pure, Except.pure, if_true]
      congr 1
      omega
    · have nonzero : m ≠ 0 := by omega
      rw [if_neg (by omega), if_pos (show 0 ≤ m by omega)]
      simp only [bind, Except.bind, pure, Except.pure, Option.some.injEq, nonzero, if_false]
      congr 1
      split_ifs <;> omega

theorem substr_of_inside (fits : s.length < 2 ^ 31) (inside : -s.length ≤ o)
    (low : ∀ m ∈ n, -2 ^ 31 ≤ m) :
    substr s o n = .ok (some ((s.take (sliceEnd s o n).toNat).drop (sliceStart s o).toNat)) := by
  have start := sliceStart_range inside
  have stop := sliceEnd_range inside n
  have slice : assign s (sliceStart s o) (sliceEnd s o n - sliceStart s o) =
      some ((s.take (sliceEnd s o n).toNat).drop (sliceStart s o).toNat) := by
    rw [assign_of_range start.1 start.2 fits (by omega) (by omega), List.drop_take]
    congr 2
    omega
  rw [← slice]
  have room := int_of_range (i := s.length - sliceStart s o) (by omega) (by omega)
  simp only [substr, length_toInt fits, partOffset_of_inside fits inside, room,
    partLength_of_inside fits inside low, Except.bind, bind, pure, Except.pure]

theorem substr_of_negative (fits : s.length < 2 ^ 32) (negative : offset < 0)
    (found : partOffset (BitVec.ofNat 32 s.length).toInt o = .ok offset) (part : Bytes) :
    substr s o n ≠ .ok (some part) := by
  have low : -2 ^ 32 ≤ offset := by
    have alen := BitVec.le_toInt (BitVec.ofNat 32 s.length)
    unfold partOffset at found
    split_ifs at found
    · have bound := int_range found
      omega
    · obtain rfl := Except.ok.inj found
      omega
    · obtain rfl := Except.ok.inj found
      omega
  simp only [substr, found, bind, Except.bind, pure, Except.pure,
    assign_of_negative negative low fits]
  split <;> simp
  split <;> simp

theorem substr_returns_inside {s part : Bytes} (fits : s.length < 2 ^ 32)
    (result : substr s o n = .ok (some part)) :
    s.length < 2 ^ 31 ∧ -s.length ≤ o := by
  cases found : partOffset (BitVec.ofNat 32 s.length).toInt o with
  | error fault => simp [substr, found, bind, Except.bind] at result
  | ok offset =>
    have positive : 0 ≤ offset := by
      by_contra negative
      exact substr_of_negative fits (by omega) found part result
    unfold partOffset at found
    by_cases short : s.length < 2 ^ 31
    · rw [length_toInt short] at found
      refine ⟨short, ?_⟩
      split_ifs at found with before
      · obtain rfl := (int_range found).2.2
        omega
      · omega
      · omega
    · have wrapped := length_toInt_neg (by omega) fits
      split_ifs at found with before
      · obtain rfl := (int_range found).2.2
        omega
      · obtain rfl := Except.ok.inj found
        omega
      · obtain rfl := Except.ok.inj found
        omega

/-- `substr` throws when the offset lies before the string. Strings of 2 GiB or more have a size
that is no `int`: none of up to 4 GiB has a part. -/
theorem substr_exact_iff (P : Type) (s : Bytes) (o : BitVec 32) (n : Option (BitVec 32)) :
    (s.length < 2 ^ 31 ∧ -s.length ≤ o.toInt → Exact P s o n) ∧
      (s.length < 2 ^ 32 → Exact P s o n → s.length < 2 ^ 31 ∧ -s.length ≤ o.toInt) := by
  constructor
  · rintro ⟨fits, inside⟩
    have low : ∀ m ∈ n.map BitVec.toInt, -2 ^ 31 ≤ m := by
      intro m member
      cases n with
      | none => cases member
      | some word =>
        obtain rfl := Option.some.inj member
        exact BitVec.le_toInt word
    refine ⟨_, callSubstr_returns.mpr (substr_of_inside fits inside low), ?_, fun _ => rfl⟩
    exact ((List.drop_suffix _ _).isInfix).trans (List.take_prefix _ _).isInfix
  · rintro fits ⟨part, returned, -⟩
    exact substr_returns_inside fits (callSubstr_returns.mp returned)

/-- `substr("abc", -4)`. -/
theorem substr_throws : (callSubstr (ascii "abc") (-4) none : Call Unit) = .throws := by
  rfl

end Substring

end Condor.ClassAd
