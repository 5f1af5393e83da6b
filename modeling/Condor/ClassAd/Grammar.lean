import Condor.ClassAd.LexerProgress

/-! `Derives d category used tree next`: the tokens `used`, with `next` behind them, are a phrase of
the category, and `tree` is its meaning. An identifier before an opening parenthesis is the name of
a function. -/
namespace Condor.ClassAd
open Condor.Utils

inductive Category where
  | expression
  | binary (level : Nat)
  | unary
  | postfixed
  | primary
  | sequence (brackets : Brackets)
  | elements (brackets : Brackets)
  | body
  | attributes
  | ready (first : Bool)

inductive Derives (d : Dialect) : Category → List Token → ExprTree → Token → Prop
  | ternary {u v w : List Token} {treeL treeM treeR : ExprTree} {next : Token} :
      Derives d (.binary 0) u treeL .qmark → Derives d .expression v treeM .colon →
      Derives d .expression w treeR next →
      Derives d .expression (u ++ .qmark :: (v ++ .colon :: w)) (.ternary treeL treeM treeR) next
  | simple {u : List Token} {tree : ExprTree} {next : Token} :
      Derives d (.binary 0) u tree next → Derives d .expression u tree next
  | operand {level : Nat} {u : List Token} {tree : ExprTree} {next : Token} : level < 10 →
      Derives d (.binary (level + 1)) u tree next → Derives d (.binary level) u tree next
  | operation {level : Nat} {u v : List Token} {treeL treeR : ExprTree} {tt next : Token}
      {op : BinaryOp} : level < 10 → Derives d (.binary level) u treeL tt →
      binaryOp level tt = some op → Derives d (.binary (level + 1)) v treeR next →
      Derives d (.binary level) (u ++ tt :: v) (.binary op treeL treeR) next
  | tightest {u : List Token} {tree : ExprTree} {next : Token} :
      Derives d .unary u tree next → Derives d (.binary 10) u tree next
  | unary {u : List Token} {tree : ExprTree} {tt next : Token} {op : UnaryOp} :
      unaryOp tt = some op → Derives d .unary u tree next →
      Derives d .unary (tt :: u) (.unary op tree) next
  | postfixed {u : List Token} {tree : ExprTree} {next : Token} :
      Derives d .postfixed u tree next → Derives d .unary u tree next
  | primary {u : List Token} {tree : ExprTree} {next : Token} :
      Derives d .primary u tree next → Derives d .postfixed u tree next
  | subscript {u v : List Token} {treeL treeR : ExprTree} {next : Token} :
      Derives d .postfixed u treeL .openBox → Derives d .expression v treeR .closeBox →
      Derives d .postfixed (u ++ .openBox :: (v ++ [.closeBox])) (.binary .subscript treeL treeR)
        next
  | select {u : List Token} {tree : ExprTree} {s : Bytes} {next : Token} :
      Derives d .postfixed u tree .selection →
      Derives d .postfixed (u ++ [.selection, .identifier s]) (.select tree s) next
  | attrRef {s : Bytes} {next : Token} : next ≠ .openParen →
      Derives d .primary [.identifier s] (.attrRef false s) next
  | absolute {s : Bytes} {next : Token} :
      Derives d .primary [.selection, .identifier s] (.attrRef true s) next
  | literal {tt next : Token} {tree : ExprTree} : literalOf tt = some tree →
      Derives d .primary [tt] tree next
  | parentheses {u : List Token} {tree : ExprTree} {next : Token} :
      Derives d .expression u tree .closeParen →
      Derives d .primary (.openParen :: (u ++ [.closeParen])) (.unary .parentheses tree) next
  | call {u : List Token} {args : List ExprTree} {s : Bytes} {next : Token} :
      Derives d (.sequence (argumentBrackets d)) u (.exprList args) next →
      Derives d .primary (.identifier s :: .openParen :: u) (makeCall d s args) next
  | list {u : List Token} {exprs : List ExprTree} {next : Token} :
      Derives d (.sequence listBrackets) u (.exprList exprs) next →
      Derives d .primary (.openBrace :: u) (.exprList exprs) next
  | ad {u : List Token} {attrs : List (Bytes × ExprTree)} {next : Token} :
      Derives d .body u (.classAd attrs) next →
      Derives d .primary (.openBox :: u) (.classAd attrs) next
  | noElements {brackets : Brackets} {next : Token} :
      Derives d (.sequence brackets) [brackets.closing] (.exprList []) next
  | closed {brackets : Brackets} {u : List Token} {tree : ExprTree} {next : Token} :
      Derives d (.elements brackets) u tree brackets.closing →
      brackets.separates brackets.closing = false →
      Derives d (.sequence brackets) (u ++ [brackets.closing]) tree next
  | element {brackets : Brackets} {u : List Token} {tree : ExprTree} {next : Token} :
      Derives d .expression u tree next →
      Derives d (.elements brackets) u (.exprList [tree]) next
  | elements {brackets : Brackets} {u v : List Token} {exprs : List ExprTree} {tree : ExprTree}
      {tt next : Token} : Derives d (.elements brackets) u (.exprList exprs) tt →
      brackets.separates tt = true → Derives d .expression v tree next →
      Derives d (.elements brackets) (u ++ tt :: v) (.exprList (exprs ++ [tree])) next
  | noAttributes {next : Token} : Derives d .body [.closeBox] (.classAd []) next
  | attributes {u : List Token} {tree : ExprTree} {next : Token} :
      Derives d .attributes u tree .closeBox → Derives d .body (u ++ [.closeBox]) tree next
  | trailing {u : List Token} {tree : ExprTree} {next : Token} :
      Derives d (.ready false) u tree .closeBox → Derives d .body (u ++ [.closeBox]) tree next
  | start {next : Token} : Derives d (.ready true) [] (.classAd []) next
  | semicolon {first : Bool} {u : List Token} {tree : ExprTree} {next : Token} :
      Derives d (.ready first) u tree .semicolon →
      Derives d (.ready first) (u ++ [.semicolon]) tree next
  | separated {u : List Token} {tree : ExprTree} {next : Token} :
      Derives d .attributes u tree .semicolon →
      Derives d (.ready false) (u ++ [.semicolon]) tree next
  | entry {first : Bool} {u v : List Token} {attrs : List (Bytes × ExprTree)}
      {tree : ExprTree} {s : Bytes} {next : Token} : s ≠ [] →
      Derives d (.ready first) u (.classAd attrs) (.identifier s) →
      Derives d .expression v tree next →
      Derives d .attributes (u ++ .identifier s :: .boundTo :: v)
        (.classAd (insertAttr s tree attrs)) next

/-- The tokens that a lexer hands out on the way to another state. States that have the same
token ahead count as one. -/
inductive Reads (d : Dialect) : Lexer → List Token → Lexer → Prop
  | same {lexer lexer' : Lexer} : lexer.peekToken d = lexer'.peekToken d → Reads d lexer [] lexer'
  | token {lexer found lexer' : Lexer} {used : List Token} : lexer.consumeToken d = some found →
      Reads d found used lexer' → Reads d lexer (found.token :: used) lexer'

section Reads
variable {d : Dialect} {lexer found lexer' : Lexer} {u v : List Token}

theorem Reads.peek (peek : lexer.peekToken d = some found) : Reads d lexer [] found :=
  .same (peek.trans (lexer.peekToken_peeked d peek).2.symm)

theorem Reads.consume (consume : lexer.consumeToken d = some found) :
    Reads d lexer [found.token] found :=
  .token consume (.same rfl)

theorem Reads.trans (first : Reads d lexer u found) (second : Reads d found v lexer') :
    Reads d lexer (u ++ v) lexer' := by
  induction first with
  | same ahead =>
    cases second with
    | same behind => exact .same (ahead.trans behind)
    | token consume rest =>
      exact .token (by rwa [Lexer.consumeToken, ahead]) rest
  | token consume _ ih => exact .token consume (ih second)

theorem Reads.split (reads : Reads d lexer (u ++ v) lexer') :
    ∃ found, Reads d lexer u found ∧ Reads d found v lexer' := by
  induction u generalizing lexer with
  | nil => exact ⟨lexer, .same rfl, reads⟩
  | cons tt u ih =>
    cases reads with
    | token consume rest =>
      obtain ⟨found, first, second⟩ := ih rest
      exact ⟨found, .token consume first, second⟩

end Reads

structure Found (d : Dialect) (category : Category) (start : Lexer) (tree : ExprTree)
    (lexer : Lexer) : Prop where
  less : lexer.load < start.load
  phrase : ∃ used, Reads d start used lexer ∧
    ∀ next, lexer.peekToken d = some next → Derives d category used tree next.token

structure Yields (d : Dialect) (category : Category) (start : Lexer) (tree : Option ExprTree)
    (lexer : Lexer) : Prop where
  within : lexer.load ≤ start.load
  found : ∀ t, tree = some t → Found d category start t lexer

def Run.Ensures {α : Type} (Q : α → Lexer → Prop) : Run α → Prop
  | .openComment => True
  | .outOfFuel => False
  | .done a lexer => Q a lexer

variable {α β : Type} {P : α → Lexer → Prop} {d : Dialect} {lexer : Lexer} {Q : β → Lexer → Prop}
  {f : Token → Parser d β}

theorem Run.Ensures.mono {Q : α → Lexer → Prop} {run : Run α} (ensures : run.Ensures P)
    (weaker : ∀ a lexer, P a lexer → Q a lexer) : run.Ensures Q := by
  cases run with
  | openComment => trivial
  | outOfFuel => exact ensures
  | done a lexer => exact weaker a lexer ensures

theorem Run.Ensures.run {run : Run α} (ensures : run.Ensures P) :
    run.Ensures fun a lexer => P a lexer ∧ run = .done a lexer := by
  cases run with
  | openComment => trivial
  | outOfFuel => exact ensures
  | done a lexer => exact ⟨ensures, rfl⟩

theorem ensures_bind {p : Parser d α} {f : α → Parser d β} (first : (p lexer).Ensures P)
    (second : ∀ a found, P a found → (f a found).Ensures Q) : ((p >>= f) lexer).Ensures Q := by
  rw [Parser.bind_run]
  cases run : p lexer with
  | openComment => trivial
  | outOfFuel =>
    rw [run] at first
    exact first
  | done a found =>
    rw [run] at first
    exact second a found first

theorem ensures_peek
    (next : ∀ found, lexer.peekToken d = some found → found.load ≤ lexer.load →
      (f found.token found).Ensures Q) :
    ((peekToken d >>= f) lexer).Ensures Q := by
  change (Parser.run (.peek f) lexer).Ensures Q
  rw [Parser.run]
  cases peek : lexer.peekToken d with
  | none => trivial
  | some found => exact next found peek (lexer.peekToken_load d peek)

theorem ensures_consume
    (next : ∀ found, lexer.consumeToken d = some found → found.load ≤ lexer.load →
      (found.token ≠ .endOfInput → found.load < lexer.load) → (f found.token found).Ensures Q) :
    ((consumeToken d >>= f) lexer).Ensures Q := by
  change (Parser.run (.consume f) lexer).Ensures Q
  rw [Parser.run]
  cases consume : lexer.consumeToken d with
  | none => trivial
  | some found =>
    obtain ⟨within, less⟩ := lexer.consumeToken_load d consume
    exact next found consume within less

theorem ensures_consume_peeked {peeked : Lexer} (peek : lexer.peekToken d = some peeked)
    (other : peeked.token ≠ .endOfInput)
    (next : ∀ found, peeked.consumeToken d = some found → found.token = peeked.token →
      found.load < peeked.load → (f found.token found).Ensures Q) :
    ((consumeToken d >>= f) peeked).Ensures Q := by
  refine ensures_consume fun found consume _ less => ?_
  have token : found.token = peeked.token := by
    rw [Lexer.consumeToken, (lexer.peekToken_peeked d peek).2] at consume
    cases consume
    rfl
  exact next found consume token (less (token ▸ other))

end Condor.ClassAd
