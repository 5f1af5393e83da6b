import Condor.ClassAd.ParserDepth

/-! A parse function that finds a phrase of its category ahead, with a token behind it that does not
go on with it, returns its tree. -/
namespace Condor.ClassAd
open Condor.Utils

section Steps
variable {d : Dialect} {α β : Type} {lexer found last : Lexer} {u : List Token} {tt : Token}

theorem run_bind {p : Parser d α} {f : α → Parser d β} {a : α} (first : p lexer = .done a found) :
    (p >>= f) lexer = f a found := by
  rw [Parser.bind_run, first, Run.bind]

variable {f : Token → Parser d β}

theorem run_peek (peek : lexer.peekToken d = some found) :
    (peekToken d >>= f) lexer = f found.token found :=
  run_bind (by simp only [peekToken, Parser.run, peek])

theorem run_consume (consume : lexer.consumeToken d = some found) :
    (consumeToken d >>= f) lexer = f found.token found :=
  run_bind (by simp only [consumeToken, Parser.run, consume])

structure Head (d : Dialect) (lexer : Lexer) (tt : Token) (peeked rest : Lexer) : Prop where
  peek : lexer.peekToken d = some peeked
  self : peeked.peekToken d = some peeked
  token : peeked.token = tt
  consume : lexer.consumeToken d = some rest
  consumed : peeked.consumeToken d = some rest
  same : rest.token = tt
  within : peeked.load ≤ lexer.load
  less : tt ≠ .endOfInput → rest.load < peeked.load

theorem Reads.head (reads : Reads d lexer (tt :: u) last) :
    ∃ peeked rest, Head d lexer tt peeked rest ∧ Reads d rest u last := by
  cases reads with
  | token consume behind =>
    obtain ⟨peeked, peek, rfl⟩ := Option.map_eq_some_iff.mp consume
    have self := (lexer.peekToken_peeked d peek).2
    have consumed : peeked.consumeToken d = some { peeked with tokenConsumed := true } := by
      rw [Lexer.consumeToken, self, Option.map_some]
    exact ⟨peeked, _, ⟨peek, self, rfl, consume, consumed, rfl, lexer.peekToken_load d peek,
      (peeked.consumeToken_load d consumed).2⟩, behind⟩

theorem Reads.upTo {v : List Token} (reads : Reads d lexer (u ++ tt :: v) last) :
    ∃ peeked rest, Reads d lexer u peeked ∧ Head d peeked tt peeked rest ∧ Reads d rest v last := by
  obtain ⟨mid, first, second⟩ := reads.split
  obtain ⟨peeked, rest, head, behind⟩ := second.head
  refine ⟨peeked, rest, ?_, ⟨head.self, head.self, head.token, head.consumed, head.consumed,
    head.same, le_refl _, head.less⟩, behind⟩
  simpa using first.trans (.peek head.peek)

theorem Reads.ahead (reads : Reads d lexer [] found) : lexer.peekToken d = found.peekToken d := by
  cases reads with
  | same ahead => exact ahead

theorem Reads.load (reads : Reads d lexer u found) (self : found.peekToken d = some found) :
    found.load ≤ lexer.load := by
  induction reads with
  | same ahead => exact Lexer.peekToken_load d (ahead.trans self)
  | token consume _ ih => exact (ih self).trans (Lexer.consumeToken_load d consume).1

end Steps

/-- The token does not go on with a phrase of the levels from `level` on. -/
structure Quiet (level : Nat) (next : Token) : Prop where
  operator : ∀ l, level ≤ l → binaryOp l next = none
  box : next ≠ .openBox
  dot : next ≠ .selection

variable {level : Nat} {next tt : Token} {op : BinaryOp} {u : List Token}

theorem Quiet.mono {level' : Nat} (quiet : Quiet level next) (le : level ≤ level') :
    Quiet level' next :=
  ⟨fun l above => quiet.operator l (le.trans above), quiet.box, quiet.dot⟩

theorem binaryOp_eq_some (operator : binaryOp level tt = some op) :
    operatorOf tt = some (level, op) := by
  unfold binaryOp at operator
  obtain ⟨⟨l, op'⟩, found, eq⟩ := Option.bind_eq_some_iff.mp operator
  split at eq
  · rename_i level
    cases eq
    rw [found, ← level]
  · cases eq

theorem binaryOp_quiet (operator : binaryOp level tt = some op) : Quiet (level + 1) tt := by
  have found := binaryOp_eq_some operator
  refine ⟨fun l above => ?_, ?_, ?_⟩
  · cases other : binaryOp l tt with
    | none => rfl
    | some op' =>
      have same := (binaryOp_eq_some other).symm.trans found
      simp only [Option.some.injEq, Prod.mk.injEq] at same
      omega
  · rintro rfl
    cases found
  · rintro rfl
    cases found

theorem operatorOf_level (found : operatorOf tt = some (level, op)) : level < 10 := by
  unfold operatorOf at found
  split at found <;> cases found <;> decide

def Category.Starts : Category → List Token → Prop
  | .primary, u | .postfixed, u => ∃ tt v, u = tt :: v ∧ unaryOp tt = none ∧
      tt ≠ .closeParen ∧ tt ≠ .closeBrace
  | .expression, u | .binary _, u | .unary, u | .elements _, u => ∃ tt v, u = tt :: v ∧
      tt ≠ .closeParen ∧ tt ≠ .closeBrace
  | .attributes, u | .ready false, u => ∃ tt v, u = tt :: v ∧ tt ≠ .closeBox
  | .ready true, u => ∀ tt v, u = tt :: v → tt ≠ .closeBox
  | _, _ => True

variable {w : List Token} {category : Category}

theorem Category.ready_starts {first : Bool} {x : Token} (starts : (Category.ready first).Starts u)
    (other : x ≠ .closeBox) :
    ∃ tt v, u ++ x :: w = tt :: v ∧ tt ≠ .closeBox := by
  cases u with
  | nil => exact ⟨x, w, rfl, other⟩
  | cons head u =>
    refine ⟨head, _, rfl, ?_⟩
    cases first with
    | true => exact starts head u rfl
    | false =>
      obtain ⟨_, _, ⟨⟩, notBox⟩ := starts
      exact notBox

theorem Derives.starts {d : Dialect} {tree : ExprTree} (phrase : Derives d category u tree next) :
    category.Starts u := by
  induction phrase with
  | ternary _ _ _ ih | operation _ _ _ _ ih | elements _ _ _ ih | subscript _ _ ih
  | select _ ih | separated _ ih =>
    obtain ⟨tt, v, rfl, starts⟩ := ih
    exact ⟨tt, _, rfl, starts⟩
  | simple _ ih | operand _ _ ih | tightest _ ih | primary _ ih | element _ ih => exact ih
  | postfixed _ ih =>
    obtain ⟨tt, v, eq, -, starts⟩ := ih
    exact ⟨tt, v, eq, starts⟩
  | unary operator _ _ =>
    refine ⟨_, _, rfl, ?_, ?_⟩ <;> rintro rfl <;> cases operator
  | literal literal =>
    refine ⟨_, _, rfl, ?_, ?_, ?_⟩
    · unfold literalOf at literal
      split at literal <;> first | rfl | cases literal
    · rintro rfl
      cases literal
    · rintro rfl
      cases literal
  | attrRef | absolute | parentheses | call | list | ad => exact ⟨_, _, rfl, rfl, nofun, by simp⟩
  | noElements | closed | noAttributes | attributes | trailing => trivial
  | start => exact nofun
  | @semicolon first _ _ _ _ ih =>
    cases first with
    | false => exact Category.ready_starts ih nofun
    | true =>
      intro tt v eq
      obtain ⟨_, _, same, other⟩ := Category.ready_starts (w := []) ih (x := .semicolon) nofun
      rw [same] at eq
      cases eq
      exact other
  | entry _ _ _ ih _ => exact Category.ready_starts ih nofun

/-- `Proper` brackets whose tokens end an expression. -/
structure Brackets.Tells (brackets : Brackets) : Prop extends brackets.Proper where
  quiet : ∀ tt, brackets.separates tt = true ∨ tt = brackets.closing → Quiet 0 tt ∧ tt ≠ .qmark
  opens : ∀ tt, tt ≠ .closeParen ∧ tt ≠ .closeBrace → tt ≠ brackets.closing

theorem argumentBrackets_tells (d : Dialect) : (argumentBrackets d).Tells := by
  refine ⟨argumentBrackets_proper d, ?_, fun _ other => other.1⟩
  intro tt behind
  have cases : tt = .comma ∨ tt = .semicolon ∨ tt = .closeParen := by
    simp only [argumentBrackets, Bool.or_eq_true, Bool.and_eq_true, decide_eq_true_eq] at behind
    tauto
  rcases cases with rfl | rfl | rfl <;> exact ⟨⟨fun _ _ => rfl, by simp, by simp⟩, by simp⟩

theorem listBrackets_tells : listBrackets.Tells := by
  refine ⟨listBrackets_proper, ?_, fun _ other => other.2⟩
  intro tt behind
  have cases : tt = .comma ∨ tt = .closeBrace := by
    simpa only [listBrackets, decide_eq_true_eq] using behind
  rcases cases with rfl | rfl <;> exact ⟨⟨fun _ _ => rfl, by simp, by simp⟩, by simp⟩

/-- The phrase of a category stands between `lexer` and `found`: its parse function returns
the tree. A loop that has read the phrase goes on as it does from `found`. -/
def Completes (d : Dialect) (tree : ExprTree) (lexer found : Lexer) : Category → Prop
  | .expression => Quiet 0 found.token → found.token ≠ .qmark →
      ∀ n, 20 * lexer.load + 16 ≤ n → parseExpression d n false lexer = .done (some tree) found
  | .binary level => Quiet (level + 1) found.token → ∀ result last,
      (∀ n, 20 * found.load + 1 ≤ n → binaryLoop d n level tree found = .done result last) →
      ∀ n, 20 * lexer.load + 15 ≤ n + level → parseBinary d n level lexer = .done result last
  | .unary => Quiet 10 found.token →
      ∀ n, 20 * lexer.load + 4 ≤ n → parseUnaryExpression d n lexer = .done (some tree) found
  | .postfixed => ∀ result last,
      (∀ n, 20 * found.load + 1 ≤ n → postfixLoop d n tree found = .done result last) →
      ∀ n, 20 * lexer.load + 3 ≤ n → parsePostfixExpression d n lexer = .done result last
  | .primary => ∀ n, 20 * lexer.load + 2 ≤ n → ∃ mid, mid.peekToken d = some found ∧
      parsePrimaryExpression d n lexer = .done (some tree) mid
  | .sequence brackets => ∀ exprs, tree = .exprList exprs → brackets.Tells →
      ∀ n, 20 * lexer.load + 18 ≤ n → ∃ mid, mid.peekToken d = some found ∧
        parseSequence d n brackets lexer = .done (some exprs) mid
  | .elements brackets => ∀ exprs, tree = .exprList exprs → brackets.Tells →
      brackets.separates found.token = true ∨ found.token = brackets.closing → ∀ result last,
      (∀ n, 20 * found.load + 1 ≤ n →
        elementRest d n brackets exprs found = .done result last) →
      ∀ n, 20 * lexer.load + 17 ≤ n → elementLoop d n brackets [] lexer = .done result last
  | .body => ∀ attrs, tree = .classAd attrs →
      ∀ n, 20 * lexer.load + 2 ≤ n → ∃ mid, mid.peekToken d = some found ∧
        parseAttributes d n lexer = .done (some attrs) mid
  | .attributes => ∀ attrs, tree = .classAd attrs →
      found.token = .semicolon ∨ found.token = .closeBox → ∀ result last,
      (∀ n, 20 * found.load + 2 ≤ n → attributeRest d n attrs found = .done result last) →
      ∀ n, 20 * lexer.load + 1 ≤ n → attributeLoop d n [] lexer = .done result last
  | .ready first => ∀ attrs, tree = .classAd attrs → ∀ result last,
      (∀ n, 20 * found.load + (if first then 1 else 2) ≤ n →
        (if first then attributeLoop d n attrs else attributeRest d n attrs) found =
          .done result last) →
      ∀ n, 20 * lexer.load + 1 ≤ n → attributeLoop d n [] lexer = .done result last

section Cases
variable {d : Dialect} {lexer found : Lexer} {tree : ExprTree}
variable {n : Nat} {c l₁ : Lexer}

theorem binaryLoop_quiet (self : found.peekToken d = some found) (quiet : Quiet level found.token)
    (enough : 0 < n) :
    binaryLoop d n level tree found = .done (some tree) found := by
  obtain _ | n := n
  · omega
  rw [binaryLoop, run_peek self, quiet.operator level (le_refl _)]
  rfl

theorem Completes.binary (whole : Completes d tree lexer found (.binary level))
    (self : found.peekToken d = some found) (quiet : Quiet level found.token)
    (enough : 20 * lexer.load + 15 ≤ n + level) :
    parseBinary d n level lexer = .done (some tree) found :=
  whole (quiet.mono (Nat.le_succ _)) _ _
    (fun _ enough => binaryLoop_quiet self quiet (by omega)) n enough

theorem postfixLoop_quiet (self : found.peekToken d = some found) (quiet : Quiet level found.token)
    (enough : 0 < n) :
    postfixLoop d n tree found = .done (some tree) found := by
  obtain _ | n := n
  · omega
  rw [postfixLoop, run_peek self]
  generalize found.token = tt at quiet
  split
  · exact absurd rfl quiet.box
  · exact absurd rfl quiet.dot
  · rfl

variable {attrs : List (Bytes × ExprTree)}

theorem attributeRest_closed (close : Head d c .closeBox c l₁) (enough : 0 < n) :
    attributeRest d n attrs c = .done (some attrs) l₁ := by
  obtain _ | n := n
  · omega
  rw [attributeRest, run_peek close.self, close.token, if_neg (by simp), if_pos rfl,
    run_consume close.consume]
  rfl

theorem attributes_complete (starts : ∃ tt v, u = tt :: v ∧ tt ≠ .closeBox)
    (readsA : Reads d lexer u c) (self : found.peekToken d = some found)
    (reads : Reads d l₁ [] found)
    (loop : ∀ n, 20 * lexer.load + 1 ≤ n → attributeLoop d n [] lexer = .done (some attrs) l₁)
    (enough : 20 * lexer.load + 2 ≤ n) :
    ∃ mid, mid.peekToken d = some found ∧ parseAttributes d n lexer = .done (some attrs) mid := by
  obtain ⟨tt, v, rfl, other⟩ := starts
  obtain ⟨o, _, head, -⟩ := readsA.head
  obtain _ | n := n
  · omega
  refine ⟨l₁, reads.ahead.trans self, ?_⟩
  rw [parseAttributes, run_peek head.peek, head.token, if_neg other]
  exact (looksFirst_attributeLoop n [] o lexer (head.self.trans head.peek.symm)).trans
    (loop n (by omega))

variable {result : Option (List (Bytes × ExprTree))} {v : List Token}

theorem attributeRest_semicolon {last : Lexer} (head : Head d c .semicolon c l₁)
    (reads : Reads d l₁ [] found) (self : found.peekToken d = some found)
    (rest : ∀ n, 20 * found.load + 2 ≤ n → attributeRest d n attrs found = .done result last)
    (enough : 20 * c.load + 2 ≤ n) : attributeRest d n attrs c = .done result last := by
  have less := head.less (by simp)
  have within := reads.load self
  obtain _ | n := n
  · omega
  rw [attributeRest, run_peek head.self, head.token, if_pos rfl, run_consume head.consume]
  exact (looksFirst_attributeRest n _ l₁ found reads.ahead).trans (rest n (by omega))

theorem attributeLoop_entry {s : Bytes} {last : Lexer} (head : Head d c (.identifier s) c l₁)
    (reads : Reads d l₁ (.boundTo :: v) found) (self : found.peekToken d = some found)
    (named : s ≠ []) (expression : ∀ l₂, Reads d l₂ v found → Completes d tree l₂ found .expression)
    (behind : found.token = .semicolon ∨ found.token = .closeBox)
    (rest : ∀ n, 20 * found.load + 2 ≤ n →
      attributeRest d n (insertAttr s tree attrs) found = .done result last)
    (enough : 20 * c.load + 1 ≤ n) : attributeLoop d n attrs c = .done result last := by
  have less := head.less (by simp)
  obtain ⟨b, l₂, bound, reads⟩ := reads.head
  have lessB := bound.less (by simp)
  have withinB := bound.within
  have within := reads.load self
  obtain _ | n := n
  · omega
  have quiet : Quiet 0 found.token ∧ found.token ≠ .qmark := by
    rcases behind with token | token <;> rw [token] <;>
      exact ⟨⟨fun _ _ => rfl, by simp, by simp⟩, by simp⟩
  have value := expression l₂ reads quiet.1 quiet.2 n (by omega)
  rw [attributeLoop, run_consume head.consume, head.same]
  dsimp only
  rw [run_consume bound.consume, bound.same, if_neg (by simp), run_bind value]
  dsimp only
  rw [if_neg named, run_peek self, if_neg (by tauto)]
  exact rest n (by omega)

def Read (d : Dialect) (category : Category) (used : List Token) (tree : ExprTree) (next : Token) :
    Prop :=
  ∀ lexer found, Reads d lexer used found → found.peekToken d = some found →
    found.token = next → Completes d tree lexer found category

theorem conditional_completes {full : Bool} {treeL treeM treeR : ExprTree}
    (left : Read d (.binary 0) u treeL .qmark) (middle : Read d .expression v treeM .colon)
    (right : Read d .expression w treeR next)
    (reads : Reads d lexer (u ++ .qmark :: (v ++ .colon :: w)) found)
    (self : found.peekToken d = some found) (token : found.token = next)
    (quiet : Quiet 0 found.token) (other : found.token ≠ .qmark) (enough : 20 * lexer.load + 16 ≤ n)
    :
    parseExpression d n full lexer = .done (some (.ternary treeL treeM treeR)) found := by
  obtain ⟨q, l₁, readsL, qmark, reads⟩ := reads.upTo
  obtain ⟨c, l₂, readsM, colon, readsR⟩ := reads.upTo
  have lessL := readsL.load qmark.self
  have lessQ := qmark.less (by simp)
  have lessM := readsM.load colon.self
  have lessC := colon.less (by simp)
  obtain _ | n := n
  · omega
  have quietQ : Quiet 0 q.token := qmark.token ▸ ⟨fun _ _ => rfl, by simp, by simp⟩
  have quietC : Quiet 0 c.token := colon.token ▸ ⟨fun _ _ => rfl, by simp, by simp⟩
  have runL := (left lexer q readsL qmark.self qmark.token).binary (n := n) qmark.self quietQ
    (by omega)
  have runM := middle l₁ c readsM colon.self colon.token quietC (by simp [colon.token]) n
    (by omega)
  have runR := right l₂ found readsR self token quiet other n (by omega)
  rw [parseExpression, run_bind runL]
  dsimp only
  rw [run_peek qmark.self, qmark.token, if_pos rfl, run_consume qmark.consume,
    run_bind runM, run_consume colon.consume, colon.same, if_neg (by simp), run_bind runR]
  rfl

end Cases

theorem Derives.completes {d : Dialect} {tree : ExprTree} (phrase : Derives d category u tree next)
    : Read d category u tree next := by
  induction phrase with
  | ternary _ _ _ ihL ihM ihR =>
    exact fun lexer found reads self token quiet other n enough =>
      conditional_completes ihL ihM ihR reads self token quiet other enough
  | simple _ ih =>
    intro lexer found reads self token quiet other n enough
    obtain _ | n := n
    · omega
    have whole := (ih lexer found reads self token).binary (n := n) self quiet (by omega)
    rw [parseExpression, run_bind whole]
    dsimp only
    rw [run_peek self, if_neg other, if_neg Bool.false_ne_true]
    rfl
  | operand low _ ih =>
    intro lexer found reads self token quiet result last loop n enough
    have less := reads.load self
    obtain _ | n := n
    · omega
    have first := (ih lexer found reads self token).binary (n := n) self quiet (by omega)
    rw [parseBinary, if_pos low, run_bind first]
    exact loop n (by omega)
  | operation low _ operator _ ihL ihR =>
    intro lexer found reads self token quiet result last loop n enough
    obtain ⟨o, l₁, readsL, head, readsR⟩ := reads.upTo
    have lessO := head.less (by rintro rfl; cases operator)
    have lessR := readsR.load self
    refine ihL lexer o readsL head.self head.token (head.token ▸ binaryOp_quiet operator) result
      last ?_ n enough
    intro n enough
    obtain _ | n := n
    · omega
    have right := (ihR l₁ found readsR self token).binary (n := n) self quiet (by omega)
    rw [binaryLoop, run_peek head.self, head.token, operator]
    dsimp only
    rw [run_consume head.consume, run_bind right]
    exact loop n (by omega)
  | tightest _ ih =>
    intro lexer found reads self token quiet result last loop n enough
    obtain _ | n := n
    · omega
    have quiet10 : Quiet 10 found.token := by
      refine ⟨fun l above => ?_, quiet.box, quiet.dot⟩
      cases operator : binaryOp l found.token with
      | none => rfl
      | some op =>
        have := operatorOf_level (binaryOp_eq_some operator)
        omega
    have whole := ih lexer found reads self token quiet10 n (by omega)
    rw [parseBinary, if_neg (by omega), whole, ← loop (20 * found.load + 1) (le_refl _),
      binaryLoop_quiet self quiet10 (by omega)]
  | unary operator _ ih =>
    intro lexer found reads self token quiet n enough
    obtain ⟨o, l₁, head, reads⟩ := reads.head
    have less := head.less (by rintro rfl; cases operator)
    have within := head.within
    obtain _ | n := n
    · omega
    have whole := ih l₁ found reads self token quiet n (by omega)
    rw [parseUnaryExpression, run_peek head.peek, head.token, operator]
    dsimp only
    rw [run_consume head.consumed, run_bind whole]
    rfl
  | postfixed phrase ih =>
    intro lexer found reads self token quiet n enough
    obtain ⟨tt, v, rfl, operator, -⟩ := phrase.starts
    obtain ⟨o, l₁, head, -⟩ := reads.head
    obtain _ | n := n
    · omega
    have whole := ih lexer found reads self token _ _
      (fun n enough => postfixLoop_quiet self quiet (by omega)) n (by omega)
    rw [parseUnaryExpression, run_peek head.peek, head.token, operator]
    exact (looksFirst_postfixed n o lexer (head.self.trans head.peek.symm)).trans whole
  | primary _ ih =>
    intro lexer found reads self token result last loop n enough
    have less := reads.load self
    obtain _ | n := n
    · omega
    obtain ⟨mid, peek, first⟩ := ih lexer found reads self token n (by omega)
    rw [parsePostfixExpression, run_bind first]
    exact (looksFirst_postfixLoop n _ mid found (peek.trans self.symm)).trans
      (loop n (by omega))
  | subscript _ _ ihL ihR =>
    intro lexer found reads self token result last loop n enough
    obtain ⟨b, l₁, readsL, box, reads⟩ := reads.upTo
    obtain ⟨c, l₂, readsR, close, reads⟩ := reads.upTo
    have lessB := box.less (by simp)
    have lessR := readsR.load close.self
    have lessC := close.less (by simp)
    have lessF := reads.load self
    refine ihL lexer b readsL box.self box.token result last ?_ n enough
    intro n enough
    obtain _ | n := n
    · omega
    have right := ihR l₁ c readsR close.self close.token
      (close.token ▸ ⟨fun _ _ => rfl, by simp, by simp⟩) (by simp [close.token]) n (by omega)
    rw [postfixLoop, run_peek box.self, box.token]
    dsimp only
    rw [run_consume box.consume, run_bind right]
    dsimp only
    rw [run_consume close.consume, close.same, if_pos rfl]
    exact (looksFirst_postfixLoop n _ l₂ found reads.ahead).trans (loop n (by omega))
  | select _ ih =>
    intro lexer found reads self token result last loop n enough
    obtain ⟨b, l₁, readsL, dot, reads⟩ := reads.upTo
    obtain ⟨_, l₂, name, reads⟩ := reads.head
    have lessD := dot.less (by simp)
    have lessN := name.less (by simp)
    have within := name.within
    have lessF := reads.load self
    refine ih lexer b readsL dot.self dot.token result last ?_ n enough
    intro n enough
    obtain _ | n := n
    · omega
    rw [postfixLoop, run_peek dot.self, dot.token]
    dsimp only
    rw [run_consume dot.consume, run_consume name.consume, name.same]
    exact (looksFirst_postfixLoop n _ l₂ found reads.ahead).trans (loop n (by omega))
  | attrRef other =>
    intro lexer found reads self token n enough
    obtain ⟨o, l₁, head, reads⟩ := reads.head
    obtain _ | n := n
    · omega
    refine ⟨found, self, ?_⟩
    rw [parsePrimaryExpression, run_peek head.peek, head.token]
    dsimp only
    rw [run_consume head.consumed, run_peek (reads.ahead.trans self), token, if_neg other]
    rfl
  | absolute =>
    intro lexer found reads self token n enough
    obtain ⟨o, l₁, head, reads⟩ := reads.head
    obtain ⟨_, l₂, name, reads⟩ := reads.head
    obtain _ | n := n
    · omega
    refine ⟨l₂, reads.ahead.trans self, ?_⟩
    rw [parsePrimaryExpression, run_peek head.peek, head.token]
    dsimp only
    rw [run_consume head.consumed, run_consume name.consume, name.same]
    rfl
  | literal literal =>
    intro lexer found reads self token n enough
    obtain ⟨o, l₁, head, reads⟩ := reads.head
    obtain _ | n := n
    · omega
    refine ⟨l₁, reads.ahead.trans self, ?_⟩
    rw [parsePrimaryExpression, run_peek head.peek, head.token]
    unfold literalOf at literal
    split at literal <;> cases literal <;> exact run_consume head.consumed
  | parentheses _ ih =>
    intro lexer found reads self token n enough
    obtain ⟨o, l₁, head, reads⟩ := reads.head
    obtain ⟨c, l₂, readsE, close, reads⟩ := reads.upTo
    have within := head.within
    have less := head.less (by simp)
    obtain _ | n := n
    · omega
    have inner := ih l₁ c readsE close.self close.token
      (close.token ▸ ⟨fun _ _ => rfl, by simp, by simp⟩) (by simp [close.token]) n (by omega)
    refine ⟨l₂, reads.ahead.trans self, ?_⟩
    rw [parsePrimaryExpression, run_peek head.peek, head.token]
    dsimp only
    rw [run_consume head.consumed, run_bind inner]
    dsimp only
    rw [run_consume close.consume, close.same, if_pos rfl]
    rfl
  | call _ ih =>
    intro lexer found reads self token n enough
    obtain ⟨o, l₁, head, reads⟩ := reads.head
    obtain ⟨b, l₂, paren, reads⟩ := reads.head
    have within := head.within
    have less := head.less (by simp)
    have withinP := paren.within
    have lessP := paren.less (by simp)
    obtain _ | n := n
    · omega
    obtain ⟨mid, ahead, inner⟩ := ih l₂ found reads self token _ rfl (argumentBrackets_tells d) n
      (by omega)
    refine ⟨mid, ahead, ?_⟩
    rw [parsePrimaryExpression, run_peek head.peek, head.token]
    dsimp only
    rw [run_consume head.consumed, run_peek paren.peek, paren.token, if_pos rfl,
      run_consume paren.consumed, run_bind inner]
    rfl
  | list _ ih =>
    intro lexer found reads self token n enough
    obtain ⟨o, l₁, head, reads⟩ := reads.head
    have within := head.within
    have less := head.less (by simp)
    obtain _ | n := n
    · omega
    obtain ⟨mid, ahead, inner⟩ := ih l₁ found reads self token _ rfl listBrackets_tells n
      (by omega)
    refine ⟨mid, ahead, ?_⟩
    rw [parsePrimaryExpression, run_peek head.peek, head.token]
    dsimp only
    rw [run_consume head.consumed, run_bind inner]
    rfl
  | @ad _ attrs _ _ ih =>
    intro lexer found reads self token n enough
    obtain ⟨o, l₁, head, reads⟩ := reads.head
    have within := head.within
    have less := head.less (by simp)
    obtain ⟨n, rfl⟩ := Nat.exists_eq_add_of_le' (show 2 ≤ n by omega)
    obtain ⟨mid, ahead, inner⟩ := ih l₁ found reads self token _ rfl n (by omega)
    refine ⟨mid, ahead, ?_⟩
    have nested : parseClassAd d (n + 1) false o = .done (some attrs) mid := by
      rw [parseClassAd, run_consume head.consumed, head.same, if_neg (by simp), run_bind inner]
      rfl
    rw [parsePrimaryExpression, run_peek head.peek, head.token]
    dsimp only
    rw [run_bind nested]
    rfl
  | noElements =>
    rintro lexer found reads self token exprs ⟨⟩ tells n enough
    obtain ⟨o, l₁, head, reads⟩ := reads.head
    obtain _ | n := n
    · omega
    refine ⟨l₁, reads.ahead.trans self, ?_⟩
    rw [parseSequence, run_peek head.peek, head.token, if_pos rfl, run_consume head.consumed]
    rfl
  | @closed brackets _ _ _ phrase apart ih =>
    intro lexer found reads self token exprs tree tells n enough
    obtain ⟨c, l₁, readsE, close, behind⟩ := reads.upTo
    obtain ⟨tt, v, rfl, other⟩ := phrase.starts
    obtain ⟨o, _, head, -⟩ := readsE.head
    obtain _ | n := n
    · omega
    have rest : ∀ n, 20 * c.load + 1 ≤ n →
        elementRest d n brackets exprs c = .done (some exprs) l₁ := by
      intro n enough
      obtain _ | n := n
      · omega
      rw [elementRest, run_peek close.self, close.token, if_neg (by simp [apart]), if_pos rfl,
        run_consume close.consume]
      rfl
    have loop := ih lexer c readsE close.self close.token exprs tree tells (.inr close.token) _ _
      rest n (by omega)
    cases behind with
    | same ahead =>
      refine ⟨l₁, ahead.trans self, ?_⟩
      rw [parseSequence, run_peek head.peek, head.token, if_neg (tells.opens tt other)]
      exact (looksFirst_elementLoop n _ [] o lexer (head.self.trans head.peek.symm)).trans loop
  | element _ ih =>
    rintro lexer found reads self token exprs ⟨⟩ tells behind result last rest n enough
    have within := reads.load self
    obtain _ | n := n
    · omega
    obtain ⟨quiet, other⟩ := tells.quiet found.token behind
    have first := ih lexer found reads self token quiet other n (by omega)
    rw [elementLoop, run_bind first]
    exact rest n (by omega)
  | elements _ separates _ ihE ih =>
    rintro lexer found reads self token exprs ⟨⟩ tells behind result last rest n enough
    obtain ⟨c, l₁, readsE, comma, reads⟩ := reads.upTo
    have less := comma.less (by rintro rfl; simp [tells.ends] at separates)
    have within := reads.load self
    refine ihE lexer c readsE comma.self comma.token _ rfl tells
      (.inl (comma.token ▸ separates)) result last ?_ n enough
    intro n enough
    obtain ⟨n, rfl⟩ := Nat.exists_eq_add_of_le' (show 2 ≤ n by omega)
    obtain ⟨quiet, other⟩ := tells.quiet found.token behind
    have element := ih l₁ found reads self token quiet other n (by omega)
    rw [elementRest, run_peek comma.self, comma.token, if_pos separates,
      run_consume comma.consume, elementLoop, run_bind element]
    exact rest n (by omega)
  | noAttributes =>
    rintro lexer found reads self token attrs ⟨⟩ n enough
    obtain ⟨o, l₁, head, reads⟩ := reads.head
    obtain _ | n := n
    · omega
    refine ⟨l₁, reads.ahead.trans self, ?_⟩
    rw [parseAttributes, run_peek head.peek, head.token, if_pos rfl,
      run_consume head.consumed]
    rfl
  | attributes phrase ih =>
    intro lexer found reads self token attrs tree n enough
    obtain ⟨c, l₁, readsA, close, reads⟩ := reads.upTo
    have loop := ih lexer c readsA close.self close.token attrs tree (.inr close.token) _ _
      (fun n enough => attributeRest_closed close (by omega))
    exact attributes_complete phrase.starts readsA self reads loop enough
  | trailing phrase ih =>
    intro lexer found reads self token attrs tree n enough
    obtain ⟨c, l₁, readsA, close, reads⟩ := reads.upTo
    have loop := ih lexer c readsA close.self close.token attrs tree _ _
      (fun n enough => attributeRest_closed close (by simp at enough; omega))
    exact attributes_complete phrase.starts readsA self reads loop enough
  | start =>
    rintro lexer found reads self token attrs ⟨⟩ result last loop n enough
    have within := reads.load self
    exact (looksFirst_attributeLoop n _ lexer found reads.ahead).trans (loop n (by simp; omega))
  | @semicolon first _ _ _ _ ih =>
    intro lexer found reads self token attrs tree result last loop n enough
    obtain ⟨c, l₁, readsA, head, reads⟩ := reads.upTo
    refine ih lexer c readsA head.self head.token attrs tree result last ?_ n enough
    intro n enough
    cases first with
    | false => exact attributeRest_semicolon head reads self loop enough
    | true =>
      have less := head.less (by simp)
      have within := reads.load self
      simp only [↓reduceIte] at enough loop ⊢
      obtain _ | n := n
      · omega
      rw [attributeLoop, run_consume head.consume, head.same]
      exact (looksFirst_attributeLoop n _ l₁ found reads.ahead).trans (loop n (by omega))
  | separated _ ih =>
    intro lexer found reads self token attrs tree result last loop n enough
    obtain ⟨c, l₁, readsA, head, reads⟩ := reads.upTo
    exact ih lexer c readsA head.self head.token attrs tree (.inl head.token) result last
      (fun n enough => attributeRest_semicolon head reads self loop enough) n enough
  | @entry first _ _ attrs₀ _ _ _ named _ _ ihA ih =>
    rintro lexer found reads self token attrs ⟨⟩ behind result last rest n enough
    obtain ⟨c, l₁, readsA, head, reads⟩ := reads.upTo
    have loop : ∀ n, 20 * c.load + 1 ≤ n → attributeLoop d n attrs₀ c = .done result last :=
      fun n enough => attributeLoop_entry head reads self named
        (fun l₂ reads => ih l₂ found reads self token) behind rest enough
    refine ihA lexer c readsA head.self head.token attrs₀ rfl result last ?_ n enough
    intro n enough
    cases first with
    | true => exact loop n enough
    | false =>
      simp only [Bool.false_eq_true, ↓reduceIte] at enough ⊢
      obtain _ | n := n
      · omega
      rw [attributeRest, run_peek head.self, head.token, if_neg (by simp), if_neg (by simp)]
      exact loop n (by omega)

end Condor.ClassAd
