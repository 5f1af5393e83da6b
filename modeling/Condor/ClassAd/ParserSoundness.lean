import Condor.ClassAd.Grammar

/-! Each parse function, called with depth enough for the characters ahead, ends; a tree that it
returns is the meaning of the phrase it has read. -/
namespace Condor.ClassAd
open Condor.Utils

section Found
variable {d : Dialect} {category other : Category} {start lexer found next : Lexer}
  {tree : ExprTree}

theorem Found.lift (phrase : Found d category start tree lexer)
    (rule : ∀ {u : List Token} {next : Token},
      Derives d category u tree next → Derives d other u tree next) :
    Found d other start tree lexer := by
  obtain ⟨less, used, reads, derives⟩ := phrase
  exact ⟨less, used, reads, fun next peek => rule (derives next peek)⟩

theorem Yields.lift {result : Option ExprTree} (yields : Yields d category start result lexer)
    (rule : ∀ {u : List Token} {tree : ExprTree} {next : Token},
      Derives d category u tree next → Derives d other u tree next) :
    Yields d other start result lexer :=
  ⟨yields.within, fun t eq => (yields.found t eq).lift rule⟩

theorem Yields.none (within : lexer.load ≤ start.load) : Yields d category start none lexer :=
  ⟨within, nofun⟩

theorem Found.yields (phrase : Found d category start tree lexer) :
    Yields d category start (some tree) lexer := by
  refine ⟨phrase.less.le, ?_⟩
  rintro _ ⟨⟩
  exact phrase

theorem Found.peek (phrase : Found d category start tree lexer)
    (peek : lexer.peekToken d = some found) : Found d category start tree found := by
  obtain ⟨less, used, reads, derives⟩ := phrase
  refine ⟨(lexer.peekToken_load d peek).trans_lt less, used, ?_, ?_⟩
  · simpa using reads.trans (.peek peek)
  · intro next ahead
    rw [(lexer.peekToken_peeked d peek).2] at ahead
    exact derives next (peek.trans ahead)

theorem Found.before (phrase : Found d category start tree lexer)
    (consume : lexer.consumeToken d = some found) :
    ∃ u, Reads d start (u ++ [found.token]) found ∧ Derives d category u tree found.token := by
  obtain ⟨less, used, reads, derives⟩ := phrase
  obtain ⟨next, peek, rfl⟩ := Option.map_eq_some_iff.mp consume
  exact ⟨used, reads.trans (.consume consume), derives next peek⟩

end Found

/-- The closing bracket and the separators are told apart, from each other and from the end
of the input. -/
structure Brackets.Proper (brackets : Brackets) : Prop where
  closing : brackets.closing ≠ .endOfInput
  apart : brackets.separates brackets.closing = false
  ends : brackets.separates .endOfInput = false

theorem argumentBrackets_proper (d : Dialect) : (argumentBrackets d).Proper :=
  ⟨nofun, rfl, rfl⟩

theorem listBrackets_proper : listBrackets.Proper := ⟨nofun, rfl, rfl⟩

/-- An element may follow: nothing was read since `start`, or a separator last. -/
inductive Opened (d : Dialect) (brackets : Brackets) (start : Lexer) :
    List ExprTree → Lexer → Prop
  | first {lexer : Lexer} : start.peekToken d = some lexer → Opened d brackets start [] lexer
  | next {lexer found : Lexer} {exprs : List ExprTree} :
      Found d (.elements brackets) start (.exprList exprs) lexer →
      lexer.consumeToken d = some found → brackets.separates found.token = true →
      Opened d brackets start exprs found

variable {start lexer : Lexer}
variable {brackets : Brackets} {exprs : List ExprTree}

theorem Opened.element {d : Dialect} {found : Lexer} {tree : ExprTree}
    (opened : Opened d brackets start exprs lexer) (phrase : Found d .expression lexer tree found) :
    Found d (.elements brackets) start (.exprList (exprs ++ [tree])) found := by
  obtain ⟨less, v, reads, derives⟩ := phrase
  cases opened with
  | first peek =>
    have within := start.peekToken_load d peek
    refine ⟨by omega, v, ?_, fun next ahead => .element (derives next ahead)⟩
    simpa using (Reads.peek peek).trans reads
  | next before consume separates =>
    have within := (Lexer.consumeToken_load d consume).1
    have earlier := before.less
    obtain ⟨u, readsU, phraseU⟩ := before.before consume
    refine ⟨by omega, u ++ lexer.token :: v, ?_, ?_⟩
    · simpa using readsU.trans reads
    · exact fun next ahead => .elements phraseU separates (derives next ahead)

theorem Opened.load {d : Dialect} (opened : Opened d brackets start exprs lexer) :
    lexer.load ≤ start.load := by
  cases opened with
  | first peek => exact start.peekToken_load d peek
  | next before consume _ => exact ((Lexer.consumeToken_load d consume).1).trans before.less.le

inductive Attributes (d : Dialect) (start : Lexer) (tree : ExprTree) (lexer : Lexer) : Prop
  | bare : Found d .attributes start tree lexer →
      (∀ next, lexer.peekToken d = some next → next.token = .semicolon ∨ next.token = .closeBox) →
      Attributes d start tree lexer
  | separated : Found d (.ready false) start tree lexer → Attributes d start tree lexer

def Ready (d : Dialect) (start : Lexer) (attrs : List (Bytes × ExprTree)) (lexer : Lexer) : Prop :=
  lexer.load ≤ start.load ∧ ∃ first used, Reads d start used lexer ∧
    ∀ next, lexer.peekToken d = some next →
      Derives d (.ready first) used (.classAd attrs) next.token

structure Sound (d : Dialect) (fuel : Nat) : Prop where
  expression : ∀ lexer, 20 * lexer.load + 16 ≤ fuel →
    (parseExpression d fuel false lexer).Ensures (Yields d .expression lexer)
  binary : ∀ level lexer, level ≤ 10 → 20 * lexer.load + 15 ≤ fuel + level →
    (parseBinary d fuel level lexer).Ensures (Yields d (.binary level) lexer)
  binaryLoop : ∀ level start lexer tree, level < 10 → 20 * lexer.load + 1 ≤ fuel →
    Found d (.binary level) start tree lexer →
    (binaryLoop d fuel level tree lexer).Ensures (Yields d (.binary level) start)
  unary : ∀ lexer, 20 * lexer.load + 4 ≤ fuel →
    (parseUnaryExpression d fuel lexer).Ensures (Yields d .unary lexer)
  postfixed : ∀ lexer, 20 * lexer.load + 3 ≤ fuel →
    (parsePostfixExpression d fuel lexer).Ensures (Yields d .postfixed lexer)
  postfixLoop : ∀ start lexer tree, 20 * lexer.load + 1 ≤ fuel →
    Found d .postfixed start tree lexer →
    (postfixLoop d fuel tree lexer).Ensures (Yields d .postfixed start)
  primary : ∀ lexer, 20 * lexer.load + 2 ≤ fuel →
    (parsePrimaryExpression d fuel lexer).Ensures (Yields d .primary lexer)
  sequence : ∀ brackets lexer, brackets.Proper → 20 * lexer.load + 18 ≤ fuel →
    (parseSequence d fuel brackets lexer).Ensures fun exprs =>
      Yields d (.sequence brackets) lexer (exprs.map .exprList)
  elementLoop : ∀ brackets start lexer exprs, brackets.Proper → 20 * lexer.load + 17 ≤ fuel →
    Opened d brackets start exprs lexer →
    (elementLoop d fuel brackets exprs lexer).Ensures fun exprs =>
      Yields d (.sequence brackets) start (exprs.map .exprList)
  elementRest : ∀ brackets start lexer exprs, brackets.Proper → 20 * lexer.load + 1 ≤ fuel →
    Found d (.elements brackets) start (.exprList exprs) lexer →
    (elementRest d fuel brackets exprs lexer).Ensures fun exprs =>
      Yields d (.sequence brackets) start (exprs.map .exprList)
  classAd : ∀ lexer, 20 * lexer.load + 1 ≤ fuel →
    (parseClassAd d fuel false lexer).Ensures fun attrs =>
      Yields d .primary lexer (attrs.map .classAd)
  body : ∀ lexer, 20 * lexer.load + 2 ≤ fuel →
    (parseAttributes d fuel lexer).Ensures fun attrs => Yields d .body lexer (attrs.map .classAd)
  attributeLoop : ∀ start lexer attrs, 20 * lexer.load + 1 ≤ fuel →
    Ready d start attrs lexer →
    (attributeLoop d fuel attrs lexer).Ensures fun attrs =>
      Yields d .body start (attrs.map .classAd)
  attributeRest : ∀ start lexer attrs, 20 * lexer.load + 2 ≤ fuel →
    Attributes d start (.classAd attrs) lexer →
    (attributeRest d fuel attrs lexer).Ensures fun attrs =>
      Yields d .body start (attrs.map .classAd)

variable {d : Dialect} {fuel : Nat}

/-- What `parseExpression` has read when it returns a tree: a conditional expression, whatever
follows, or an expression of another kind with what a full parse asks for behind it. -/
inductive Accepted (d : Dialect) (full : Bool) (start : Lexer) : ExprTree → Lexer → Prop
  | conditional {lexer : Lexer} {u v w : List Token} {treeL treeM treeR : ExprTree} :
      lexer.load < start.load → Reads d start (u ++ .qmark :: (v ++ .colon :: w)) lexer →
      Derives d (.binary 0) u treeL .qmark → Derives d .expression v treeM .colon →
      (∀ next, lexer.peekToken d = some next → Derives d .expression w treeR next.token) →
      (∃ depth mid, parseExpression d depth false mid = .done (some treeR) lexer) →
      Accepted d full start (.ternary treeL treeM treeR) lexer
  | simple {lexer : Lexer} {tree : ExprTree} : full = false → Found d (.binary 0) start tree lexer →
      Accepted d full start tree lexer
  | whole {lexer found : Lexer} {tree : ExprTree} : full = true →
      Found d (.binary 0) start tree lexer → lexer.consumeToken d = some found →
      found.token = .endOfInput → Accepted d full start tree found

theorem Attributes.less {tree : ExprTree} (attributes : Attributes d start tree lexer) :
    lexer.load < start.load := by
  cases attributes with
  | bare phrase _ => exact phrase.less
  | separated phrase => exact phrase.less

section Steps
variable (ih : Sound d fuel)
include ih

theorem Sound.top (full : Bool) (lexer : Lexer) (enough : 20 * lexer.load + 16 ≤ fuel + 1) :
    (parseExpression d (fuel + 1) full lexer).Ensures fun result found =>
      found.load ≤ lexer.load ∧ ∀ tree, result = some tree → Accepted d full lexer tree found := by
  rw [parseExpression]
  refine ensures_bind (ih.binary 0 lexer (by omega) (by omega)) ?_
  rintro (_ | treeL) l₁ yields
  · exact ⟨yields.within, nofun⟩
  refine ensures_peek fun l₂ peek _ => ?_
  have left := (yields.found treeL rfl).peek peek
  have less := left.less
  split
  · rename_i qmark
    refine ensures_consume_peeked peek (by simp [qmark]) fun l₃ consumeQ sameQ lessQ => ?_
    refine ensures_bind (ih.expression l₃ (by omega)) ?_
    rintro middle l₄ ⟨withinM, foundM⟩
    refine ensures_consume fun l₅ consumeC _ _ => ?_
    split
    · exact ⟨by omega, nofun⟩
    rename_i colon
    refine ensures_bind (ih.expression l₅ (by omega)).run ?_
    rintro right l₆ ⟨⟨withinR, foundR⟩, last⟩
    cases middle with
    | none => exact ⟨by omega, nofun⟩
    | some treeM =>
      cases right with
      | none => exact ⟨by omega, nofun⟩
      | some treeR =>
        obtain ⟨u, readsL, phraseL⟩ := left.before consumeQ
        obtain ⟨v, readsM, phraseM⟩ := (foundM treeM rfl).before consumeC
        obtain ⟨_, w, readsR, phraseR⟩ := foundR treeR rfl
        rw [sameQ, qmark] at readsL phraseL
        rw [not_not.mp colon] at readsM phraseM
        refine ⟨by omega, ?_⟩
        rintro _ ⟨⟩
        refine .conditional (by omega) ?_ phraseL phraseM phraseR ⟨_, _, last⟩
        simpa using (readsL.trans readsM).trans readsR
  · cases full with
    | false =>
      refine ⟨less.le, ?_⟩
      rintro _ ⟨⟩
      exact .simple rfl left
    | true =>
      refine ensures_consume fun l₃ consume _ _ => ?_
      split
      · exact ⟨by omega, nofun⟩
      · rename_i atEnd
        refine ⟨by omega, ?_⟩
        rintro _ ⟨⟩
        exact .whole rfl left consume (not_not.mp atEnd)

theorem Sound.expression_succ (lexer : Lexer) (enough : 20 * lexer.load + 16 ≤ fuel + 1) :
    (parseExpression d (fuel + 1) false lexer).Ensures (Yields d .expression lexer) := by
  refine (ih.top false lexer enough).mono ?_
  rintro result found ⟨within, accepted⟩
  refine ⟨within, fun tree eq => ?_⟩
  cases accepted tree eq with
  | conditional less reads left middle right =>
    exact ⟨less, _, reads, fun next ahead => .ternary left middle (right next ahead)⟩
  | simple _ phrase => exact phrase.lift .simple
  | whole full => cases full

theorem Sound.binary_succ (level : Nat) (lexer : Lexer) (bound : level ≤ 10)
    (enough : 20 * lexer.load + 15 ≤ fuel + 1 + level) :
    (parseBinary d (fuel + 1) level lexer).Ensures (Yields d (.binary level) lexer) := by
  rw [parseBinary]
  split
  · rename_i low
    refine ensures_bind (ih.binary (level + 1) lexer low (by omega)) ?_
    rintro (_ | tree) l₁ yields
    · exact .none yields.within
    · have first := (yields.found tree rfl).lift (.operand low)
      have less := first.less
      exact ih.binaryLoop level lexer l₁ tree low (by omega) first
  · obtain rfl : level = 10 := by omega
    exact (ih.unary lexer (by omega)).mono fun _ _ yields => yields.lift .tightest

theorem Sound.binaryLoop_succ (level : Nat) (start lexer : Lexer) (tree : ExprTree)
    (low : level < 10) (enough : 20 * lexer.load + 1 ≤ fuel + 1)
    (left : Found d (.binary level) start tree lexer) :
    (ClassAd.binaryLoop d (fuel + 1) level tree lexer).Ensures
      (Yields d (.binary level) start) := by
  rw [ClassAd.binaryLoop]
  refine ensures_peek fun l₁ peek _ => ?_
  have left := left.peek peek
  have less := left.less
  cases operator : binaryOp level l₁.token with
  | none => exact left.yields
  | some op =>
    have other : l₁.token ≠ .endOfInput := by
      intro atEnd
      rw [atEnd] at operator
      simp [binaryOp, operatorOf] at operator
    refine ensures_consume_peeked peek other fun l₂ consume same lessOp => ?_
    refine ensures_bind (ih.binary (level + 1) l₂ low (by omega)) ?_
    rintro (_ | treeR) l₃ ⟨withinR, foundR⟩
    · exact .none (by omega)
    obtain ⟨u, readsL, phraseL⟩ := left.before consume
    obtain ⟨lessR, v, readsR, phraseR⟩ := foundR treeR rfl
    rw [same] at readsL phraseL
    refine ih.binaryLoop level start l₃ _ low (by omega) ⟨by omega, u ++ l₁.token :: v, ?_, ?_⟩
    · simpa using readsL.trans readsR
    · exact fun next ahead => .operation low phraseL operator (phraseR next ahead)

theorem Sound.unary_succ (lexer : Lexer) (enough : 20 * lexer.load + 4 ≤ fuel + 1) :
    (parseUnaryExpression d (fuel + 1) lexer).Ensures (Yields d .unary lexer) := by
  rw [parseUnaryExpression]
  refine ensures_peek fun l₁ peek within => ?_
  cases operator : unaryOp l₁.token with
  | some op =>
    have other : l₁.token ≠ .endOfInput := by
      intro atEnd
      rw [atEnd] at operator
      simp [unaryOp] at operator
    refine ensures_consume_peeked peek other fun l₂ consume same lessOp => ?_
    refine ensures_bind (ih.unary l₂ (by omega)) ?_
    rintro (_ | tree) l₃ ⟨withinM, foundM⟩
    · exact .none (by omega)
    obtain ⟨lessM, u, reads, phrase⟩ := foundM tree rfl
    refine Found.yields ⟨by omega, l₁.token :: u, ?_, ?_⟩
    · simpa [same] using ((Reads.peek peek).trans (.consume consume)).trans reads
    · exact fun next ahead => .unary operator (phrase next ahead)
  | none =>
    refine (ih.postfixed l₁ (by omega)).mono fun result l₂ yields => ?_
    refine ⟨yields.within.trans within, ?_⟩
    intro tree eq
    obtain ⟨less, u, reads, phrase⟩ := yields.found tree eq
    refine ⟨by omega, u, ?_, fun next ahead => .postfixed (phrase next ahead)⟩
    simpa using (Reads.peek peek).trans reads

theorem Sound.postfixed_succ (lexer : Lexer) (enough : 20 * lexer.load + 3 ≤ fuel + 1) :
    (parsePostfixExpression d (fuel + 1) lexer).Ensures (Yields d .postfixed lexer) := by
  rw [parsePostfixExpression]
  refine ensures_bind (ih.primary lexer (by omega)) ?_
  rintro (_ | tree) l₁ yields
  · exact .none yields.within
  · have first := (yields.found tree rfl).lift .primary
    have less := first.less
    exact ih.postfixLoop lexer l₁ tree (by omega) first

theorem Sound.postfixLoop_succ (start lexer : Lexer) (tree : ExprTree)
    (enough : 20 * lexer.load + 1 ≤ fuel + 1) (left : Found d .postfixed start tree lexer) :
    (ClassAd.postfixLoop d (fuel + 1) tree lexer).Ensures (Yields d .postfixed start) := by
  rw [ClassAd.postfixLoop]
  refine ensures_peek fun l₁ peek _ => ?_
  have left := left.peek peek
  have less := left.less
  generalize ahead : l₁.token = tt
  split
  · refine ensures_consume_peeked peek (by simp [ahead]) fun l₂ consume same lessBox => ?_
    refine ensures_bind (ih.expression l₂ (by omega)) ?_
    rintro (_ | treeR) l₃ ⟨withinR, foundR⟩
    · exact .none (by omega)
    refine ensures_consume fun l₄ close _ _ => ?_
    split
    · rename_i closed
      obtain ⟨u, readsL, phraseL⟩ := left.before consume
      obtain ⟨v, readsR, phraseR⟩ := (foundR treeR rfl).before close
      rw [same, ahead] at readsL phraseL
      rw [closed] at readsR phraseR
      refine ih.postfixLoop start l₄ _ (by omega)
        ⟨by omega, u ++ .openBox :: (v ++ [.closeBox]), ?_, ?_⟩
      · simpa using readsL.trans readsR
      · exact fun next _ => .subscript phraseL phraseR
    · exact .none (by omega)
  · refine ensures_consume_peeked peek (by simp [ahead]) fun l₂ consume same lessDot => ?_
    refine ensures_consume fun l₃ consumeName _ _ => ?_
    generalize name : l₃.token = tt
    split
    · rename_i s
      obtain ⟨u, readsL, phraseL⟩ := left.before consume
      rw [same, ahead] at readsL phraseL
      refine ih.postfixLoop start l₃ _ (by omega)
        ⟨by omega, u ++ [.selection, .identifier s], ?_, ?_⟩
      · simpa [name] using readsL.trans (.consume consumeName)
      · exact fun next _ => .select phraseL
    · exact .none (by omega)
  · exact left.yields

theorem Sound.primary_succ (lexer : Lexer) (enough : 20 * lexer.load + 2 ≤ fuel + 1) :
    (parsePrimaryExpression d (fuel + 1) lexer).Ensures (Yields d .primary lexer) := by
  rw [parsePrimaryExpression]
  refine ensures_peek fun l₁ peek within => ?_
  generalize ahead : l₁.token = tt
  split
  · rename_i s
    refine ensures_consume_peeked peek (by simp [ahead]) fun l₂ consume same less => ?_
    have readName := (Reads.peek peek).trans (.consume consume)
    rw [same, ahead] at readName
    refine ensures_peek fun l₃ peekNext _ => ?_
    split
    · rename_i paren
      refine ensures_consume_peeked peekNext (by simp [paren]) fun l₄ open' sameP lessP => ?_
      refine ensures_bind (ih.sequence _ l₄ (argumentBrackets_proper d) (by omega)) ?_
      rintro (_ | args) l₅ ⟨withinA, foundA⟩
      · exact .none (by omega)
      obtain ⟨lessA, u, reads, phrase⟩ := foundA (.exprList args) rfl
      have readParen := readName.trans ((Reads.peek peekNext).trans (.consume open'))
      rw [sameP, paren] at readParen
      refine Found.yields ⟨by omega, .identifier s :: .openParen :: u, ?_, ?_⟩
      · simpa using readParen.trans reads
      · exact fun next ahead => .call (phrase next ahead)
    · rename_i paren
      refine Found.yields ⟨by omega, [.identifier s], ?_, ?_⟩
      · simpa using readName.trans (.peek peekNext)
      · intro next ahead
        rw [(l₂.peekToken_peeked d peekNext).2] at ahead
        cases ahead
        exact .attrRef paren
  · refine ensures_consume_peeked peek (by simp [ahead]) fun l₂ consume same less => ?_
    have readDot := (Reads.peek peek).trans (.consume consume)
    rw [same, ahead] at readDot
    refine ensures_consume fun l₃ consumeName _ _ => ?_
    generalize name : l₃.token = tt
    split
    · rename_i s
      refine Found.yields ⟨by omega, [.selection, .identifier s], ?_, fun _ _ => .absolute⟩
      simpa [name] using readDot.trans (.consume consumeName)
    · exact .none (by omega)
  · refine ensures_consume_peeked peek (by simp [ahead]) fun l₂ consume same less => ?_
    have readParen := (Reads.peek peek).trans (.consume consume)
    rw [same, ahead] at readParen
    refine ensures_bind (ih.expression l₂ (by omega)) ?_
    rintro (_ | tree) l₃ ⟨withinE, foundE⟩
    · exact .none (by omega)
    refine ensures_consume fun l₄ close _ _ => ?_
    split
    · rename_i closed
      obtain ⟨u, reads, phrase⟩ := (foundE tree rfl).before close
      rw [closed] at reads phrase
      refine Found.yields ⟨by omega, .openParen :: (u ++ [.closeParen]), ?_, ?_⟩
      · simpa using readParen.trans reads
      · exact fun _ _ => .parentheses phrase
    · exact .none (by omega)
  · refine ensures_bind (ih.classAd l₁ (by omega)) ?_
    rintro (_ | attrs) l₂ ⟨withinA, foundA⟩
    · exact .none (by omega)
    obtain ⟨lessA, u, reads, phrase⟩ := foundA (.classAd attrs) rfl
    refine Found.yields ⟨by omega, u, ?_, phrase⟩
    simpa using (Reads.peek peek).trans reads
  · refine ensures_consume_peeked peek (by simp [ahead]) fun l₂ consume same less => ?_
    have readBrace := (Reads.peek peek).trans (.consume consume)
    rw [same, ahead] at readBrace
    refine ensures_bind (ih.sequence _ l₂ listBrackets_proper (by omega)) ?_
    rintro (_ | exprs) l₃ ⟨withinE, foundE⟩
    · exact .none (by omega)
    obtain ⟨lessE, u, reads, phrase⟩ := foundE (.exprList exprs) rfl
    refine Found.yields ⟨by omega, .openBrace :: u, ?_, ?_⟩
    · simpa using readBrace.trans reads
    · exact fun next ahead => .list (phrase next ahead)
  · rw [← ahead]
    cases literal : literalOf l₁.token with
    | none => exact .none within
    | some tree =>
      have other : l₁.token ≠ .endOfInput := by
        intro atEnd
        rw [atEnd] at literal
        simp [literalOf] at literal
      refine ensures_consume_peeked peek other fun l₂ consume same less => ?_
      refine Found.yields ⟨by omega, [l₁.token], ?_, fun _ _ => .literal literal⟩
      simpa [same] using (Reads.peek peek).trans (.consume consume)

theorem Sound.sequence_succ (brackets : Brackets) (lexer : Lexer) (proper : brackets.Proper)
    (enough : 20 * lexer.load + 18 ≤ fuel + 1) :
    (parseSequence d (fuel + 1) brackets lexer).Ensures fun exprs =>
      Yields d (.sequence brackets) lexer (exprs.map .exprList) := by
  rw [parseSequence]
  refine ensures_peek fun l₁ peek _ => ?_
  split
  · rename_i closed
    refine ensures_consume_peeked peek (closed ▸ proper.closing) fun l₂ consume same less => ?_
    refine Found.yields ⟨by omega, [brackets.closing], ?_, fun _ _ => .noElements⟩
    simpa [same, closed] using (Reads.peek peek).trans (.consume consume)
  · exact ih.elementLoop brackets lexer l₁ [] proper (by omega) (.first peek)

theorem Sound.elementLoop_succ (brackets : Brackets) (start lexer : Lexer) (exprs : List ExprTree)
    (proper : brackets.Proper) (enough : 20 * lexer.load + 17 ≤ fuel + 1)
    (opened : Opened d brackets start exprs lexer) :
    (ClassAd.elementLoop d (fuel + 1) brackets exprs lexer).Ensures fun exprs =>
      Yields d (.sequence brackets) start (exprs.map .exprList) := by
  have within := opened.load
  rw [ClassAd.elementLoop]
  refine ensures_bind (ih.expression lexer (by omega)) ?_
  rintro (_ | tree) l₁ ⟨withinE, foundE⟩
  · exact .none (by omega)
  · have less := (foundE tree rfl).less
    exact ih.elementRest brackets start l₁ _ proper (by omega) (opened.element (foundE tree rfl))

theorem Sound.elementRest_succ (brackets : Brackets) (start lexer : Lexer) (exprs : List ExprTree)
    (proper : brackets.Proper) (enough : 20 * lexer.load + 1 ≤ fuel + 1)
    (elements : Found d (.elements brackets) start (.exprList exprs) lexer) :
    (ClassAd.elementRest d (fuel + 1) brackets exprs lexer).Ensures fun exprs =>
      Yields d (.sequence brackets) start (exprs.map .exprList) := by
  rw [ClassAd.elementRest]
  refine ensures_peek fun l₁ peek _ => ?_
  have elements := elements.peek peek
  have less := elements.less
  split
  · rename_i separates
    have other : l₁.token ≠ .endOfInput := by
      intro atEnd
      rw [atEnd, proper.ends] at separates
      cases separates
    refine ensures_consume_peeked peek other fun l₂ consume same lessS => ?_
    exact ih.elementLoop brackets start l₂ _ proper (by omega)
      (.next elements consume (same ▸ separates))
  · split
    · rename_i closed
      refine ensures_consume_peeked peek (closed ▸ proper.closing) fun l₂ consume same lessC => ?_
      obtain ⟨u, reads, phrase⟩ := elements.before consume
      rw [same, closed] at reads phrase
      exact Found.yields ⟨by omega, _, reads, fun _ _ => .closed phrase proper.apart⟩
    · exact .none (by omega)

theorem Sound.classAd_succ (lexer : Lexer) (enough : 20 * lexer.load + 1 ≤ fuel + 1) :
    (parseClassAd d (fuel + 1) false lexer).Ensures fun attrs =>
      Yields d .primary lexer (attrs.map .classAd) := by
  rw [parseClassAd]
  refine ensures_consume fun l₁ consume within less => ?_
  split
  · exact .none within
  rename_i box
  have isBox := not_not.mp box
  have lessBox := less (by simp [isBox])
  refine ensures_bind (ih.body l₁ (by omega)) ?_
  rintro (_ | attrs) l₂ ⟨withinA, foundA⟩
  · exact .none (by omega)
  obtain ⟨lessA, u, reads, phrase⟩ := foundA (.classAd attrs) rfl
  refine Found.yields ⟨by omega, .openBox :: u, ?_, fun next ahead => .ad (phrase next ahead)⟩
  simpa [isBox] using (Reads.consume consume).trans reads

theorem Sound.body_succ (lexer : Lexer) (enough : 20 * lexer.load + 2 ≤ fuel + 1) :
    (parseAttributes d (fuel + 1) lexer).Ensures fun attrs =>
      Yields d .body lexer (attrs.map .classAd) := by
  rw [parseAttributes]
  refine ensures_peek fun l₁ peek within => ?_
  split
  · rename_i closed
    refine ensures_consume_peeked peek (by simp [closed]) fun l₂ consume same less => ?_
    refine Found.yields ⟨by omega, [.closeBox], ?_, fun _ _ => .noAttributes⟩
    simpa [same, closed] using (Reads.peek peek).trans (.consume consume)
  · refine ih.attributeLoop lexer l₁ [] (by omega) ⟨within, true, [], .peek peek, ?_⟩
    exact fun _ _ => .start

theorem Sound.attributeRest_succ (start lexer : Lexer) (attrs : List (Bytes × ExprTree))
    (enough : 20 * lexer.load + 2 ≤ fuel + 1)
    (attributes : Attributes d start (.classAd attrs) lexer) :
    (ClassAd.attributeRest d (fuel + 1) attrs lexer).Ensures fun attrs =>
      Yields d .body start (attrs.map .classAd) := by
  have earlier := attributes.less
  rw [ClassAd.attributeRest]
  refine ensures_peek fun l₁ peek _ => ?_
  split
  · rename_i semicolon
    refine ensures_consume_peeked peek (by simp [semicolon]) fun l₂ consume same less => ?_
    refine ih.attributeRest start l₂ attrs (by omega) (.separated ?_)
    cases attributes with
    | bare phrase _ =>
      obtain ⟨u, reads, derives⟩ := (phrase.peek peek).before consume
      rw [same, semicolon] at reads derives
      exact ⟨by omega, _, reads, fun _ _ => .separated derives⟩
    | separated phrase =>
      obtain ⟨u, reads, derives⟩ := (phrase.peek peek).before consume
      rw [same, semicolon] at reads derives
      exact ⟨by omega, _, reads, fun _ _ => .semicolon derives⟩
  · rename_i other
    split
    · rename_i closed
      refine ensures_consume_peeked peek (by simp [closed]) fun l₂ consume same less => ?_
      refine Found.yields ?_
      cases attributes with
      | bare phrase _ =>
        obtain ⟨u, reads, derives⟩ := (phrase.peek peek).before consume
        rw [same, closed] at reads derives
        exact ⟨by omega, _, reads, fun _ _ => .attributes derives⟩
      | separated phrase =>
        obtain ⟨u, reads, derives⟩ := (phrase.peek peek).before consume
        rw [same, closed] at reads derives
        exact ⟨by omega, _, reads, fun _ _ => .trailing derives⟩
    · rename_i opened
      cases attributes with
      | bare _ token => exact absurd (token l₁ peek) (by tauto)
      | separated phrase =>
        obtain ⟨less, u, reads, derives⟩ := phrase.peek peek
        exact ih.attributeLoop start l₁ attrs (by omega) ⟨by omega, false, u, reads, derives⟩

theorem Sound.attributeLoop_succ (start lexer : Lexer) (attrs : List (Bytes × ExprTree))
    (enough : 20 * lexer.load + 1 ≤ fuel + 1) (ready : Ready d start attrs lexer) :
    (ClassAd.attributeLoop d (fuel + 1) attrs lexer).Ensures fun attrs =>
      Yields d .body start (attrs.map .classAd) := by
  obtain ⟨within, first, u, reads, derives⟩ := ready
  rw [ClassAd.attributeLoop]
  refine ensures_consume fun l₁ consume _ lessTok => ?_
  have phrase : Derives d (.ready first) u (.classAd attrs) l₁.token := by
    obtain ⟨next, peek, rfl⟩ := Option.map_eq_some_iff.mp consume
    exact derives next peek
  have read := reads.trans (.consume consume)
  generalize ahead : l₁.token = tt at *
  split
  · have less := lessTok nofun
    exact ih.attributeLoop start l₁ attrs (by omega)
      ⟨by omega, first, _, read, fun _ _ => .semicolon phrase⟩
  · rename_i s
    have less := lessTok nofun
    refine ensures_consume fun l₂ consumeB _ _ => ?_
    split
    · exact .none (by omega)
    rename_i bound
    have readBound := read.trans (.consume consumeB)
    rw [not_not.mp bound] at readBound
    refine ensures_bind (ih.expression l₂ (by omega)) ?_
    rintro (_ | tree) l₃ ⟨withinE, foundE⟩
    · exact .none (by omega)
    obtain ⟨lessE, v, readsE, phraseE⟩ := foundE tree rfl
    dsimp only
    split
    · exact .none (by omega)
    rename_i named
    have entry : Found d .attributes start (.classAd (insertAttr s tree attrs)) l₃ := by
      refine ⟨by omega, u ++ .identifier s :: .boundTo :: v, ?_, ?_⟩
      · simpa using readBound.trans readsE
      · exact fun next ahead => .entry named phrase (phraseE next ahead)
    refine ensures_peek fun l₄ peek _ => ?_
    split
    · exact .none (by omega)
    rename_i token
    refine ih.attributeRest start l₄ _ (by omega) (.bare (entry.peek peek) ?_)
    intro next ahead
    rw [(l₃.peekToken_peeked d peek).2] at ahead
    cases ahead
    tauto
  · exact .none (by omega)

end Steps

theorem sound (d : Dialect) (fuel : Nat) : Sound d fuel := by
  induction fuel with
  | zero => constructor <;> intros <;> omega
  | succ fuel ih =>
    exact ⟨ih.expression_succ, ih.binary_succ, ih.binaryLoop_succ, ih.unary_succ,
      ih.postfixed_succ, ih.postfixLoop_succ, ih.primary_succ, ih.sequence_succ,
      ih.elementLoop_succ, ih.elementRest_succ, ih.classAd_succ, ih.body_succ,
      ih.attributeLoop_succ, ih.attributeRest_succ⟩

theorem Lexer.initialized_load (lexer : Lexer) (source : LexerSource) :
    (lexer.initialized source).load = ClassAd.load (lexer.initialized source).input := rfl

theorem Lexer.parseExpression_ensures (d : Dialect) (lexer : Lexer) (source : LexerSource)
    (full : Bool) :
    (lexer.parseExpression d source full).Ensures fun result found =>
      ∀ tree, result = some tree → Accepted d full (lexer.initialized source) tree found := by
  refine ((sound d _).top full (lexer.initialized source) ?_).mono fun _ _ post => post.2
  rw [lexer.initialized_load]
  omega

end Condor.ClassAd
