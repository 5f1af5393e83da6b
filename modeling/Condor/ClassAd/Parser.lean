import Condor.ClassAd.Lexer

/-! A parse function returns the tree it leaves in its reference argument, with `none` for `NULL`.
The functions call each other down to a depth that `fuel` bounds. -/
namespace Condor.ClassAd
open Condor.Utils

inductive Run (α : Type) where
  /-- The lexer is in a comment without end. -/
  | openComment
  | outOfFuel
  | done (a : α) (lexer : Lexer)

inductive Parser (d : Dialect) (α : Type) where
  | outOfFuel
  | returns (a : α)
  | peek (next : Token → Parser d α)
  | consume (next : Token → Parser d α)

def Parser.bind {d : Dialect} {α β : Type} (p : Parser d α) (f : α → Parser d β) : Parser d β :=
  match p with
  | outOfFuel => outOfFuel
  | returns a => f a
  | peek next => peek fun tt => (next tt).bind f
  | consume next => consume fun tt => (next tt).bind f

def Parser.run {d : Dialect} {α : Type} : Parser d α → Lexer → Run α
  | outOfFuel, _ => .outOfFuel
  | returns a, lexer => .done a lexer
  | peek next, lexer =>
    match lexer.peekToken d with
    | none => .openComment
    | some found => (next found.token).run found
  | consume next, lexer =>
    match lexer.consumeToken d with
    | none => .openComment
    | some found => (next found.token).run found

instance (d : Dialect) : Monad (Parser d) where
  pure := .returns
  bind := .bind

instance (d : Dialect) (α : Type) : CoeFun (Parser d α) fun _ => Lexer → Run α := ⟨Parser.run⟩

def Run.bind {α β : Type} (run : Run α) (f : α → Lexer → Run β) : Run β :=
  match run with
  | .openComment => .openComment
  | .outOfFuel => .outOfFuel
  | .done a lexer => f a lexer

theorem Parser.bind_run {d : Dialect} {α β : Type} (p : Parser d α) (f : α → Parser d β)
    (lexer : Lexer) : (p >>= f) lexer = (p lexer).bind fun a => f a := by
  change (p.bind f).run lexer = (p.run lexer).bind fun a => (f a).run
  induction p generalizing lexer with
  | outOfFuel => rfl
  | returns a => rfl
  | peek next ih =>
    simp only [Parser.bind, run]
    cases lexer.peekToken d with
    | none => rfl
    | some found => exact ih found.token found
  | consume next ih =>
    simp only [Parser.bind, run]
    cases lexer.consumeToken d with
    | none => rfl
    | some found => exact ih found.token found

def outOfFuel {d : Dialect} {α : Type} : Parser d α := .outOfFuel

def peekToken (d : Dialect) : Parser d Token := .peek .returns

def consumeToken (d : Dialect) : Parser d Token := .consume .returns

/-- The binary operators, each with its level: from `parseLogicalORExpression` (0) to
`parseMultiplicativeExpression` (9). -/
def operatorOf : Token → Option (Nat × BinaryOp)
  | .logicalOr => some (0, .logicalOr)
  | .logicalAnd => some (1, .logicalAnd)
  | .bitwiseOr => some (2, .bitwiseOr)
  | .bitwiseXor => some (3, .bitwiseXor)
  | .bitwiseAnd => some (4, .bitwiseAnd)
  | .equal => some (5, .equal)
  | .notEqual => some (5, .notEqual)
  | .metaEqual => some (5, .metaEqual)
  | .metaNotEqual => some (5, .metaNotEqual)
  | .lessThan => some (6, .lessThan)
  | .lessOrEqual => some (6, .lessOrEqual)
  | .greaterThan => some (6, .greaterThan)
  | .greaterOrEqual => some (6, .greaterOrEqual)
  | .leftShift => some (7, .leftShift)
  | .rightShift => some (7, .rightShift)
  | .urightShift => some (7, .urightShift)
  | .plus => some (8, .addition)
  | .minus => some (8, .subtraction)
  | .multiply => some (9, .multiplication)
  | .divide => some (9, .division)
  | .modulus => some (9, .modulus)
  | _ => none

def binaryOp (level : Nat) (tt : Token) : Option BinaryOp :=
  (operatorOf tt).bind fun operator => if operator.1 = level then some operator.2 else none

def unaryOp : Token → Option UnaryOp
  | .minus => some .unaryMinus
  | .plus => some .unaryPlus
  | .bitwiseNot => some .bitwiseNot
  | .logicalNot => some .logicalNot
  | _ => none

def literalOf : Token → Option ExprTree
  | .undefinedValue => some (.literal .undefined .none)
  | .errorValue => some (.literal .error .none)
  | .booleanValue b => some (.literal (.boolean b) .none)
  | .integerValue i f => some (.literal (.integer i) f)
  | .realValue r f => some (.literal (.real r) f)
  | .stringValue s => some (.literal (.string s) .none)
  | _ => none

def makeCall (d : Dialect) (name : Bytes) : List ExprTree → ExprTree
  | [.literal (.string s) f] =>
    if sameIgnoringCase name (ascii "absTime") then .literal (d.makeAbsTime s) .none
    else if sameIgnoringCase name (ascii "relTime") then .literal (d.makeRelTime s) .none
    else .fnCall name [.literal (.string s) f]
  | args => .fnCall name args

/-- `ClassAd::Insert` of a name that is not empty. -/
def insertAttr (name : Bytes) (tree : ExprTree) : List (Bytes × ExprTree) → List (Bytes × ExprTree)
  | [] => [(name, tree)]
  | (other, value) :: attrs =>
    if sameIgnoringCase name other then (other, tree) :: attrs
    else (other, value) :: insertAttr name tree attrs

structure Brackets where
  closing : Token
  separates : Token → Bool

def argumentBrackets (d : Dialect) : Brackets where
  closing := .closeParen
  separates tt := tt = .comma || (tt = .semicolon && d.useOldClassAdSemantics)

def listBrackets : Brackets where
  closing := .closeBrace
  separates tt := tt = .comma

mutual

def parseExpression (d : Dialect) : Nat → Bool → Parser d (Option ExprTree)
  | 0, _ => outOfFuel
  | fuel + 1, full => do
    let some treeL ← parseBinary d fuel 0 | pure none
    if (← peekToken d) = .qmark then
      let _ ← consumeToken d
      let treeM ← parseExpression d fuel false
      if (← consumeToken d) ≠ .colon then pure none
      else
        let treeR ← parseExpression d fuel false
        match treeM, treeR with
        | some treeM, some treeR => pure (some (.ternary treeL treeM treeR))
        | _, _ => pure none
    else if full then
      if (← consumeToken d) ≠ .endOfInput then pure none else pure (some treeL)
    else pure (some treeL)

def parseBinary (d : Dialect) : Nat → Nat → Parser d (Option ExprTree)
  | 0, _ => outOfFuel
  | fuel + 1, level =>
    if level < 10 then do
      let some tree ← parseBinary d fuel (level + 1) | pure none
      binaryLoop d fuel level tree
    else parseUnaryExpression d fuel

def binaryLoop (d : Dialect) : Nat → Nat → ExprTree → Parser d (Option ExprTree)
  | 0, _, _ => outOfFuel
  | fuel + 1, level, treeL => do
    match binaryOp level (← peekToken d) with
    | none => pure (some treeL)
    | some op =>
      let _ ← consumeToken d
      let some treeR ← parseBinary d fuel (level + 1) | pure none
      binaryLoop d fuel level (.binary op treeL treeR)

def parseUnaryExpression (d : Dialect) : Nat → Parser d (Option ExprTree)
  | 0 => outOfFuel
  | fuel + 1 => do
    match unaryOp (← peekToken d) with
    | some op =>
      let _ ← consumeToken d
      let some treeM ← parseUnaryExpression d fuel | pure none
      pure (some (.unary op treeM))
    | none => parsePostfixExpression d fuel

def parsePostfixExpression (d : Dialect) : Nat → Parser d (Option ExprTree)
  | 0 => outOfFuel
  | fuel + 1 => do
    let some tree ← parsePrimaryExpression d fuel | pure none
    postfixLoop d fuel tree

def postfixLoop (d : Dialect) : Nat → ExprTree → Parser d (Option ExprTree)
  | 0, _ => outOfFuel
  | fuel + 1, treeL => do
    match ← peekToken d with
    | .openBox =>
      let _ ← consumeToken d
      let some treeR ← parseExpression d fuel false | pure none
      if (← consumeToken d) = .closeBox then
        postfixLoop d fuel (.binary .subscript treeL treeR)
      else pure none
    | .selection =>
      let _ ← consumeToken d
      match ← consumeToken d with
      | .identifier s => postfixLoop d fuel (.select treeL s)
      | _ => pure none
    | _ => pure (some treeL)

def parsePrimaryExpression (d : Dialect) : Nat → Parser d (Option ExprTree)
  | 0 => outOfFuel
  | fuel + 1 => do
    match ← peekToken d with
    | .identifier s =>
      let _ ← consumeToken d
      if (← peekToken d) = .openParen then
        let _ ← consumeToken d
        let some args ← parseSequence d fuel (argumentBrackets d) | pure none
        pure (some (makeCall d s args))
      else pure (some (.attrRef false s))
    | .selection =>
      let _ ← consumeToken d
      match ← consumeToken d with
      | .identifier s => pure (some (.attrRef true s))
      | _ => pure none
    | .openParen =>
      let _ ← consumeToken d
      let some tree ← parseExpression d fuel false | pure none
      if (← consumeToken d) = .closeParen then pure (some (.unary .parentheses tree))
      else pure none
    | .openBox =>
      let some attrs ← parseClassAd d fuel false | pure none
      pure (some (.classAd attrs))
    | .openBrace =>
      let _ ← consumeToken d
      let some exprs ← parseSequence d fuel listBrackets | pure none
      pure (some (.exprList exprs))
    | token =>
      match literalOf token with
      | none => pure none
      | some tree =>
        let _ ← consumeToken d
        pure (some tree)

/-- `parseArgumentList` and `parseExprList` behind the opening bracket. -/
def parseSequence (d : Dialect) : Nat → Brackets → Parser d (Option (List ExprTree))
  | 0, _ => outOfFuel
  | fuel + 1, brackets => do
    if (← peekToken d) = brackets.closing then
      let _ ← consumeToken d
      pure (some [])
    else elementLoop d fuel brackets []

def elementLoop (d : Dialect) :
    Nat → Brackets → List ExprTree → Parser d (Option (List ExprTree))
  | 0, _, _ => outOfFuel
  | fuel + 1, brackets, exprs => do
    let some tree ← parseExpression d fuel false | pure none
    elementRest d fuel brackets (exprs ++ [tree])

def elementRest (d : Dialect) :
    Nat → Brackets → List ExprTree → Parser d (Option (List ExprTree))
  | 0, _, _ => outOfFuel
  | fuel + 1, brackets, exprs => do
    let tt ← peekToken d
    if brackets.separates tt then
      let _ ← consumeToken d
      elementLoop d fuel brackets exprs
    else if tt = brackets.closing then
      let _ ← consumeToken d
      pure (some exprs)
    else pure none

def parseClassAd (d : Dialect) : Nat → Bool → Parser d (Option (List (Bytes × ExprTree)))
  | 0, _ => outOfFuel
  | fuel + 1, full => do
    if (← consumeToken d) ≠ .openBox then pure none
    else
      let some attrs ← parseAttributes d fuel | pure none
      if full then
        if (← consumeToken d) ≠ .endOfInput then pure none else pure (some attrs)
      else pure (some attrs)

def parseAttributes (d : Dialect) : Nat → Parser d (Option (List (Bytes × ExprTree)))
  | 0 => outOfFuel
  | fuel + 1 => do
    if (← peekToken d) = .closeBox then
      let _ ← consumeToken d
      pure (some [])
    else attributeLoop d fuel []

/-- The loop of `parseClassAd`. Behind a leading semicolon its body starts again. -/
def attributeLoop (d : Dialect) :
    Nat → List (Bytes × ExprTree) → Parser d (Option (List (Bytes × ExprTree)))
  | 0, _ => outOfFuel
  | fuel + 1, attrs => do
    match ← consumeToken d with
    | .semicolon => attributeLoop d fuel attrs
    | .identifier s =>
      if (← consumeToken d) ≠ .boundTo then pure none
      else
        let some tree ← parseExpression d fuel false | pure none
        if s = [] then pure none
        else
          let tt ← peekToken d
          if tt ≠ .semicolon ∧ tt ≠ .closeBox then pure none
          else attributeRest d fuel (insertAttr s tree attrs)
    | _ => pure none

def attributeRest (d : Dialect) :
    Nat → List (Bytes × ExprTree) → Parser d (Option (List (Bytes × ExprTree)))
  | 0, _ => outOfFuel
  | fuel + 1, attrs => do
    let tt ← peekToken d
    if tt = .semicolon then
      let _ ← consumeToken d
      attributeRest d fuel attrs
    else if tt = .closeBox then
      let _ ← consumeToken d
      pure (some attrs)
    else attributeLoop d fuel attrs

end

/-- The characters ahead, with a `=` counted twice. A string source can step back over a
character only while it reads a `=`. -/
def load (input : Bytes) : Nat := input.foldr (fun c n => (if c = 61 then 2 else 1) + n) 0

def Lexer.fuel (lexer : Lexer) : Nat := 20 * load lexer.input + 20

/-- `ClassAdParser::ParseExpression` on a parser whose lexer is left from before. -/
def Lexer.parseExpression (d : Dialect) (lexer : Lexer) (source : LexerSource) (full : Bool) :
    Run (Option ExprTree) :=
  ClassAd.parseExpression d (lexer.initialized source).fuel full (lexer.initialized source)

def Lexer.parseClassAd (d : Dialect) (lexer : Lexer) (source : LexerSource) (full : Bool) :
    Run (Option (List (Bytes × ExprTree))) :=
  ClassAd.parseClassAd d (lexer.initialized source).fuel full (lexer.initialized source)

end Condor.ClassAd
