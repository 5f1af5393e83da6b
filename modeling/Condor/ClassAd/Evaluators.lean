import Condor.ClassAd.OperatorLaws

/-! `Operation::_Evaluate` stops early where the first operand decides; the variant that also
collects the significant part evaluates all operands first. -/
namespace Condor.ClassAd
open Condor.Utils

variable {P L : Type}

/-- `_doOperation` of a unary operator. -/
def doUnary (setting : Setting P) (op : UnaryOp) (v : Value P) : Value P :=
  match op, v with
  | .parentheses, v => v
  | .unaryPlus, v =>
    if v.type ∈ [.boolean, .string, .list, .classAd, .absoluteTime] then .error else v
  | _, .error => .error
  | _, .undefined => .undefined
  | .unaryMinus, .integer i => .integer (-i)
  | .unaryMinus, .real r => .real (-r)
  | .unaryMinus, .relativeTime secs => .relativeTime (-secs)
  | .unaryMinus, _ => .error
  | .bitwiseNot, .integer i => .integer (~~~i)
  | .bitwiseNot, _ => .error
  | .logicalNot, v =>
    match booleanEquiv setting.useOldClassAdSemantics v with
    | .boolean b => .boolean (!b)
    | _ => .error

/-- `_doOperation` of the conditional operator. -/
def doTernary (setting : Setting P) (v1 v2 v3 : Value P) : Value P :=
  match booleanEquiv setting.useOldClassAdSemantics v1 with
  | .undefined => .undefined
  | .boolean b => if b then v2 else v3
  | _ => .error

inductive OpExpr (L : Type) where
  | operand (l : L)
  | unary (op : UnaryOp) (child1 : OpExpr L)
  | binary (op : BinaryOp) (child1 child2 : OpExpr L)
  | ternary (child1 child2 child3 : OpExpr L)

/-- Why an evaluation yields no value: it returned false, or it did not return. -/
inductive Stop where
  | failed
  | fault (fault : Fault)

def shortCircuit (setting : Setting P) (op : BinaryOp) (v1 : Value P) : Option (Value P) :=
  match op, booleanEquiv setting.useOldClassAdSemantics v1 with
  | .logicalOr, .boolean true => some (.boolean true)
  | .logicalAnd, .boolean false => some (.boolean false)
  | _, _ => none

def selected (setting : Setting P) (v1 : Value P) : Option Bool :=
  match booleanEquiv setting.useOldClassAdSemantics v1 with
  | .boolean b => some b
  | _ => none

/-- `_doOperation` on fresh `Value` objects. -/
def operateOn (setting : Setting P) (op : BinaryOp) (v1 v2 : Value P) : Except Stop (Value P) :=
  (doOperation setting op noLeftover noLeftover v1 v2).mapError .fault

def evaluate (setting : Setting P) (operand : L → Except Stop (Value P)) :
    OpExpr L → Except Stop (Value P)
  | .operand l => operand l
  | .unary op child1 => do
    let v1 ← evaluate setting operand child1
    return doUnary setting op v1
  | .binary op child1 child2 => do
    let v1 ← evaluate setting operand child1
    match shortCircuit setting op v1 with
    | some v => return v
    | none =>
      let v2 ← evaluate setting operand child2
      operateOn setting op v1 v2
  | .ternary child1 child2 child3 => do
    let v1 ← evaluate setting operand child1
    let early : Option (Except Stop (Value P)) := (selected setting v1).map fun b =>
      if b then evaluate setting operand child2 else evaluate setting operand child3
    match early with
    | some (.ok v) => return v
    | some (.error (.fault fault)) => .error (.fault fault)
    -- A selected operand that fails is evaluated again with the others.
    | _ =>
      let v2 ← evaluate setting operand child2
      let v3 ← evaluate setting operand child3
      return doTernary setting v1 v2 v3

def evaluateSignificant (setting : Setting P) (operand : L → Except Stop (Value P)) :
    OpExpr L → Except Stop (Value P)
  | .operand l => operand l
  | .unary op child1 => do
    let v1 ← evaluateSignificant setting operand child1
    return doUnary setting op v1
  | .binary op child1 child2 => do
    let v1 ← evaluateSignificant setting operand child1
    let v2 ← evaluateSignificant setting operand child2
    operateOn setting op v1 v2
  | .ternary child1 child2 child3 => do
    let v1 ← evaluateSignificant setting operand child1
    let v2 ← evaluateSignificant setting operand child2
    let v3 ← evaluateSignificant setting operand child3
    return doTernary setting v1 v2 v3

section Agreement
variable (setting : Setting P) (operand operand' : L → Except Stop (Value P))

def EvaluatorsAgree (e : OpExpr L) : Prop :=
  ∀ v v', evaluate setting operand e = .ok v → evaluateSignificant setting operand' e = .ok v' →
    v = v'

/-- The operand that the first evaluator leaves out is one that `doLogical` takes. -/
def OtherIsLogical (op : BinaryOp) (v1 v2 : Value P) : Prop :=
  (shortCircuit setting op v1).isSome = true →
    (booleanEquiv setting.useOldClassAdSemantics v2).type ∈ [.undefined, .error, .boolean]

/-- It is so everywhere in an expression, and its operands of other kinds agree. -/
def LogicalOperands : OpExpr L → Prop
  | .operand l => ∀ v v', operand l = .ok v → operand' l = .ok v' → v = v'
  | .unary _ child1 => LogicalOperands child1
  | .binary op child1 child2 => LogicalOperands child1 ∧ LogicalOperands child2 ∧
      ∀ v1 v2, evaluateSignificant setting operand' child1 = .ok v1 →
        evaluateSignificant setting operand' child2 = .ok v2 → OtherIsLogical setting op v1 v2
  | .ternary child1 child2 child3 =>
    LogicalOperands child1 ∧ LogicalOperands child2 ∧ LogicalOperands child3

end Agreement

section Values
variable {setting : Setting P} {op : BinaryOp} {v v1 v2 v3 : Value P}

theorem bind_eq_ok {x : Except Stop (Value P)} {f : Value P → Except Stop (Value P)} :
    (x >>= f) = .ok v ↔ ∃ a, x = .ok a ∧ f a = .ok v := by
  cases x with
  | error stop => simp [bind, Except.bind]
  | ok a => simp [bind, Except.bind]

/-- `shortCircuit` decides where the truth tables give the first operand, whatever the second
one is, if it is in them. -/
theorem shortCircuit_cases (stops : shortCircuit setting op v1 = some v) :
    (op = .logicalOr ∧ v = .boolean true ∨ op = .logicalAnd ∧ v = .boolean false) ∧
      booleanEquiv setting.useOldClassAdSemantics v1 = v := by
  unfold shortCircuit at stops
  split at stops
  · next value =>
      cases stops
      exact ⟨.inl ⟨rfl, rfl⟩, value⟩
  · next value =>
      cases stops
      exact ⟨.inr ⟨rfl, rfl⟩, value⟩
  · cases stops

theorem operateOn_shortCircuit (stops : shortCircuit setting op v1 = some v) :
    operateOn setting op v1 v2 = .ok
      (if (booleanEquiv setting.useOldClassAdSemantics v2).type ∈ [.undefined, .error, .boolean]
        then v else .error) := by
  obtain ⟨⟨rfl, rfl⟩ | ⟨rfl, rfl⟩, value⟩ := shortCircuit_cases stops
  · simp [operateOn, doOperation, BinaryOp.isStrict, doLogical, value, Except.mapError]
  · simp [operateOn, doOperation, BinaryOp.isStrict, doLogical, value, Except.mapError]

theorem shortCircuit_ne_error (stops : shortCircuit setting op v1 = some v) : v ≠ .error := by
  obtain ⟨⟨rfl, rfl⟩ | ⟨rfl, rfl⟩, -⟩ := shortCircuit_cases stops <;> simp

theorem doTernary_selected {b : Bool} (chosen : selected setting v1 = some b) :
    doTernary setting v1 v2 v3 = if b then v2 else v3 := by
  unfold selected at chosen
  unfold doTernary
  split at chosen
  · next value =>
      cases chosen
      rw [value]
  · cases chosen

end Values

section Trees
variable (setting : Setting P) (operand operand' : L → Except Stop (Value P))

theorem evaluate_ternary {child1 child2 child3 : OpExpr L} {v : Value P}
    (value : evaluate setting operand (.ternary child1 child2 child3) = .ok v) :
    ∃ v1, evaluate setting operand child1 = .ok v1 ∧
      ((∃ b, selected setting v1 = some b ∧
        evaluate setting operand (if b then child2 else child3) = .ok v) ∨
      ∃ v2 v3, evaluate setting operand child2 = .ok v2 ∧ evaluate setting operand child3 = .ok v3 ∧
        doTernary setting v1 v2 v3 = v) := by
  rw [evaluate, bind_eq_ok] at value
  obtain ⟨v1, first, value⟩ := value
  refine ⟨v1, first, ?_⟩
  simp only at value
  split at value
  · next w early =>
      obtain ⟨b, chosen, evaluated⟩ := Option.map_eq_some_iff.mp early
      cases value
      refine .inl ⟨b, chosen, ?_⟩
      cases b <;> exact evaluated
  · cases value
  · rw [bind_eq_ok] at value
    obtain ⟨v2, second, value⟩ := value
    rw [bind_eq_ok] at value
    obtain ⟨v3, third, value⟩ := value
    cases value
    exact .inr ⟨v2, v3, second, third, rfl⟩

/-- The evaluators agree on an expression whose parts are so. -/
theorem evaluatorsAgree_of_logical (e : OpExpr L)
    (operands : LogicalOperands setting operand operand' e) :
    EvaluatorsAgree setting operand operand' e := by
  induction e with
  | operand l => exact operands
  | unary op child1 ih1 =>
    intro v v' value value'
    rw [evaluate, bind_eq_ok] at value
    rw [evaluateSignificant, bind_eq_ok] at value'
    obtain ⟨v1, first, value⟩ := value
    obtain ⟨v1', first', value'⟩ := value'
    cases ih1 operands v1 v1' first first'
    exact Except.ok.inj (value.symm.trans value')
  | binary op child1 child2 ih1 ih2 =>
    obtain ⟨logical1, logical2, other⟩ := operands
    intro v v' value value'
    rw [evaluate, bind_eq_ok] at value
    rw [evaluateSignificant, bind_eq_ok] at value'
    obtain ⟨v1, first, value⟩ := value
    obtain ⟨v1', first', value'⟩ := value'
    rw [bind_eq_ok] at value'
    obtain ⟨v2', second', value'⟩ := value'
    cases ih1 logical1 v1 v1' first first'
    split at value
    · next w stops =>
        cases value
        have logical := other v1 v2' first' second' (Option.isSome_of_eq_some stops)
        rw [operateOn_shortCircuit stops, if_pos logical] at value'
        exact Except.ok.inj value'
    · rw [bind_eq_ok] at value
      obtain ⟨v2, second, value⟩ := value
      cases ih2 logical2 v2 v2' second second'
      exact Except.ok.inj (value.symm.trans value')
  | ternary child1 child2 child3 ih1 ih2 ih3 =>
    obtain ⟨logical1, logical2, logical3⟩ := operands
    intro v v' value value'
    obtain ⟨v1, first, value⟩ := evaluate_ternary setting operand value
    rw [evaluateSignificant, bind_eq_ok] at value'
    obtain ⟨v1', first', value'⟩ := value'
    rw [bind_eq_ok] at value'
    obtain ⟨v2', second', value'⟩ := value'
    rw [bind_eq_ok] at value'
    obtain ⟨v3', third', value'⟩ := value'
    cases value'
    cases ih1 logical1 v1 v1' first first'
    rcases value with ⟨b, chosen, value⟩ | ⟨v2, v3, second, third, rfl⟩
    · rw [doTernary_selected chosen]
      cases b with
      | false => exact ih3 logical3 v v3' value third'
      | true => exact ih2 logical2 v v2' value second'
    · cases ih2 logical2 v2 v2' second second'
      cases ih3 logical3 v3 v3' third third'
      rfl

/-- The evaluators agree on expressions with logical operands, and on no operation whose first
operand decides while the second one is not logical. -/
theorem evaluators_agree_iff (e : OpExpr L) :
    (LogicalOperands setting operand operand' e → EvaluatorsAgree setting operand operand' e) ∧
      ∀ op child1 child2 v1 v2, e = .binary op child1 child2 →
        evaluate setting operand child1 = .ok v1 →
        evaluateSignificant setting operand' child1 = .ok v1 →
        evaluateSignificant setting operand' child2 = .ok v2 →
        EvaluatorsAgree setting operand operand' child2 →
        (EvaluatorsAgree setting operand operand' e ↔ OtherIsLogical setting op v1 v2) := by
  refine ⟨evaluatorsAgree_of_logical setting operand operand' e, ?_⟩
  rintro op child1 child2 v1 v2 rfl first first' second' agree2
  have full : evaluateSignificant setting operand' (.binary op child1 child2) =
      operateOn setting op v1 v2 := by
    rw [evaluateSignificant, first', second']
    rfl
  have whole : evaluate setting operand (.binary op child1 child2) =
      match shortCircuit setting op v1 with
      | some v => .ok v
      | none => evaluate setting operand child2 >>= operateOn setting op v1 := by
    rw [evaluate, first]
    rfl
  unfold EvaluatorsAgree
  rw [full, whole]
  cases stops : shortCircuit setting op v1 with
  | none =>
    refine iff_of_true (fun v v' value value' => ?_) fun decided => ?_
    · obtain ⟨w2, second, value⟩ := bind_eq_ok.mp value
      cases agree2 w2 v2 second second'
      exact Except.ok.inj (value.symm.trans value')
    · rw [stops] at decided
      cases decided
  | some w =>
    rw [operateOn_shortCircuit stops]
    constructor
    · intro agree _
      by_contra foreign
      have same := agree w .error rfl (by rw [if_neg foreign])
      exact shortCircuit_ne_error stops same
    · intro logical v v' value value'
      rw [if_pos (logical (Option.isSome_of_eq_some stops))] at value'
      exact Except.ok.inj (value.symm.trans value')

end Trees

def constant : Value P → Except Stop (Value P) := .ok

/-- `true || false`. -/
theorem evaluators_agree_iff_logical :
    EvaluatorsAgree (plainSetting : Setting Unit) constant constant
      (.binary .logicalOr (.operand (.boolean true)) (.operand (.boolean false))) := by
  refine (evaluators_agree_iff plainSetting constant constant _).1 ?_
  have alike : ∀ l : Value Unit, LogicalOperands plainSetting constant constant (.operand l) := by
    intro l v v' value value'
    exact Except.ok.inj (value.symm.trans value')
  refine ⟨alike _, alike _, fun v1 v2 _ second _ => ?_⟩
  cases second
  decide

/-- `true || 3` is true for the one evaluator and an error for the other. -/
theorem evaluators_disagree :
    evaluate (plainSetting : Setting Unit) constant
        (.binary .logicalOr (.operand (.boolean true)) (.operand (.integer 3))) =
          .ok (.boolean true) ∧
      evaluateSignificant (plainSetting : Setting Unit) constant
        (.binary .logicalOr (.operand (.boolean true)) (.operand (.integer 3))) = .ok .error := by
  exact ⟨rfl, rfl⟩

end Condor.ClassAd
