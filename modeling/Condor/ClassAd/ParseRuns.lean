import Condor.ClassAd.ParserCompleteness

/-! Which parses return, what a full parse accepts, and what a parser object remembers of the parses
before. -/
namespace Condor.ClassAd
open Condor.Utils

def wind : Option UInt8 → Bytes → Option UInt8 × Bytes
  | none, rest => (none, rest)
  | some _, [] => (none, [])
  | some _, c :: rest => (some c, rest)

/-- At most `turns` turns of the loop of `PeekToken` over a C comment; `none` while it goes on. -/
def commentLoop : Nat → Option UInt8 → Bytes → Option Bytes
  | 0, _, _ => none
  | turns + 1, oldCh, rest =>
    let (ch, rest) := wind oldCh rest
    if oldCh = some 42 ∧ ch = some 47 then some rest else commentLoop turns ch rest

theorem commentLoop_end (turns : Nat) (rest : Bytes) : commentLoop turns none rest = none := by
  induction turns with
  | zero => rfl
  | succ turns ih => simp [commentLoop, wind, ih]

/-- The comment without end is the one that the loop never leaves. -/
theorem skipBlanks_block (ch : UInt8) (rest : Bytes) :
    (skipBlanks (.block (ch = 42)) rest = .openComment ∧
      ∀ turns, commentLoop turns (some ch) rest = none) ∨
    ∃ turns left, commentLoop turns (some ch) rest = some left ∧
      skipBlanks (.block (ch = 42)) rest = skipBlanks .blanks left := by
  induction rest generalizing ch with
  | nil =>
    refine .inl ⟨rfl, fun turns => ?_⟩
    cases turns with
    | zero => rfl
    | succ turns => simp [commentLoop, wind, commentLoop_end]
  | cons c rest ih =>
    by_cases closed : ch = 42 ∧ c = 47
    · exact .inr ⟨1, rest, by simp [commentLoop, wind, closed], by simp [skipBlanks, closed]⟩
    have skip : skipBlanks (.block (ch = 42)) (c :: rest) = skipBlanks (.block (c = 42)) rest := by
      rw [skipBlanks, if_neg (by simpa using closed)]
    have turn : ∀ turns, commentLoop (turns + 1) (some ch) (c :: rest) =
        commentLoop turns (some c) rest := by
      intro turns
      simp [commentLoop, wind, closed]
    rw [skip]
    rcases ih c with ⟨open_, goesOn⟩ | ⟨turns, left, ends, behind⟩
    · refine .inl ⟨open_, fun turns => ?_⟩
      cases turns with
      | zero => rfl
      | succ turns => rw [turn, goesOn]
    · exact .inr ⟨turns + 1, left, (turn turns).trans ends, behind⟩

/-- Nothing but white space and closed comments stands before a C comment without end, and
the next token is still to be found. -/
def Lexer.BeforeOpenComment (lexer : Lexer) : Prop :=
  lexer.tokenConsumed = true ∧ skipBlanks .blanks lexer.input = .openComment

section Returns
variable {d : Dialect} {α : Type}

theorem Lexer.peekToken_eq_none (lexer : Lexer) :
    lexer.peekToken d = none ↔ lexer.BeforeOpenComment := by
  unfold Lexer.peekToken Lexer.BeforeOpenComment
  cases lexer.tokenConsumed with
  | false => simp
  | true => cases skipBlanks .blanks lexer.input <;> simp

/-- The states of the lexer in which the parser calls it. -/
inductive Parser.Calls : Parser d α → Lexer → Lexer → Prop
  | peek {next : Token → Parser d α} {lexer : Lexer} : Calls (.peek next) lexer lexer
  | consume {next : Token → Parser d α} {lexer : Lexer} : Calls (.consume next) lexer lexer
  | peeked {next : Token → Parser d α} {lexer found later : Lexer} :
      lexer.peekToken d = some found → Calls (next found.token) found later →
      Calls (.peek next) lexer later
  | consumed {next : Token → Parser d α} {lexer found later : Lexer} :
      lexer.consumeToken d = some found → Calls (next found.token) found later →
      Calls (.consume next) lexer later

theorem Parser.run_eq_openComment (p : Parser d α) (lexer : Lexer) :
    p lexer = .openComment ↔ ∃ later, p.Calls lexer later ∧ later.BeforeOpenComment := by
  induction p generalizing lexer with
  | outOfFuel =>
    constructor
    · intro run
      cases run
    · rintro ⟨_, calls, _⟩
      cases calls
  | returns a =>
    constructor
    · intro run
      cases run
    · rintro ⟨_, calls, _⟩
      cases calls
  | peek next ih =>
    rw [run]
    cases ahead : lexer.peekToken d with
    | none => exact ⟨fun _ => ⟨lexer, .peek, lexer.peekToken_eq_none.mp ahead⟩, fun _ => rfl⟩
    | some found =>
      refine (ih found.token found).trans ⟨?_, ?_⟩
      · rintro ⟨later, calls, before⟩
        exact ⟨later, .peeked ahead calls, before⟩
      · rintro ⟨later, calls, before⟩
        cases calls with
        | peek => simp [lexer.peekToken_eq_none.mpr before] at ahead
        | peeked peek calls =>
          cases ahead.symm.trans peek
          exact ⟨later, calls, before⟩
  | consume next ih =>
    rw [run]
    cases ahead : lexer.consumeToken d with
    | none =>
      have peek : lexer.peekToken d = none := Option.map_eq_none_iff.mp ahead
      exact ⟨fun _ => ⟨lexer, .consume, lexer.peekToken_eq_none.mp peek⟩, fun _ => rfl⟩
    | some found =>
      refine (ih found.token found).trans ⟨?_, ?_⟩
      · rintro ⟨later, calls, before⟩
        exact ⟨later, .consumed ahead calls, before⟩
      · rintro ⟨later, calls, before⟩
        cases calls with
        | consume => simp [Lexer.consumeToken, lexer.peekToken_eq_none.mpr before] at ahead
        | consumed consume calls =>
          cases ahead.symm.trans consume
          exact ⟨later, calls, before⟩

def Returns (p : Nat → Parser d α) (start : Lexer) : Prop :=
  ∃ depth result last, p depth start = .done result last

/-- In the course of the parse the lexer is called before a comment without end. -/
def MeetsOpenComment (p : Nat → Parser d α) (start : Lexer) : Prop :=
  ∃ depth later, (p depth).Calls start later ∧ later.BeforeOpenComment

theorem returns_iff {p : Nat → Parser d α} (grows : ∀ n k, Extends (p n) (p (n + k)))
    {depth : Nat} {start : Lexer} {Q : α → Lexer → Prop} (enough : (p depth start).Ensures Q) :
    Returns p start ↔ ¬MeetsOpenComment p start := by
  constructor
  · rintro ⟨n, result, last, done⟩ ⟨m, later, calls, before⟩
    have open_ := ((p m).run_eq_openComment start).mpr ⟨later, calls, before⟩
    have first := grows n m start
    have second := grows m n start
    rw [done] at first
    rw [open_, Nat.add_comm] at second
    rcases first with tired | same
    · cases tired
    rcases second with tired | same'
    · cases tired
    · cases same.trans same'.symm
  · intro none
    cases run : p depth start with
    | openComment =>
      obtain ⟨later, calls, before⟩ := ((p depth).run_eq_openComment start).mp run
      exact (none ⟨depth, later, calls, before⟩).elim
    | outOfFuel =>
      rw [run] at enough
      exact enough.elim
    | done result last => exact ⟨depth, result, last, run⟩

theorem parseClassAd_ensures (full : Bool) (lexer : Lexer) :
    (parseClassAd d (20 * lexer.load + 2) full lexer).Ensures fun _ _ => True := by
  rw [parseClassAd]
  refine ensures_consume fun l₁ consume within less => ?_
  split
  · trivial
  rename_i box
  have lessBox := less (by simp [not_not.mp box])
  refine ensures_bind ((sound d _).body l₁ (by omega)) ?_
  rintro (_ | attrs) l₂ yields
  · trivial
  cases full with
  | false => trivial
  | true =>
    refine ensures_consume fun l₃ consume _ _ => ?_
    split <;> trivial

/-- `ParseExpression` and `ParseClassAd` return on every text in which they do not meet a
comment without end. -/
theorem parse_returns_iff (d : Dialect) (lexer : Lexer) (source : LexerSource) (full : Bool) :
    (Returns (parseExpression d · full) (lexer.initialized source) ↔
      ¬MeetsOpenComment (parseExpression d · full) (lexer.initialized source)) ∧
    (Returns (parseClassAd d · full) (lexer.initialized source) ↔
      ¬MeetsOpenComment (parseClassAd d · full) (lexer.initialized source)) :=
  ⟨returns_iff (fun n k => (grows d n k).expression full)
      (lexer.parseExpression_ensures d source full),
    returns_iff (fun n k => (grows d n k).classAd full) (parseClassAd_ensures full _)⟩

/-- A text that only opens a comment. -/
theorem openComment_not_returns :
    ¬Returns (parseExpression .plain · false)
      (Lexer.fresh.initialized (.string (ascii "/*"))) := by
  rw [returns_iff (fun n k => (grows .plain n k).expression false)
    (Lexer.fresh.parseExpression_ensures .plain (.string (ascii "/*")) false), not_not]
  exact ⟨14, _, .peek, rfl, rfl⟩

end Returns

section Ends
variable {d : Dialect} {α β : Type} {lexer last : Lexer} {b : β}

theorem bind_done {p : Parser d α} {f : α → Parser d β} (run : (p >>= f) lexer = .done b last) :
    ∃ a found, p lexer = .done a found ∧ f a found = .done b last := by
  rw [Parser.bind_run] at run
  cases first : p lexer with
  | openComment => simp [first, Run.bind] at run
  | outOfFuel => simp [first, Run.bind] at run
  | done a found => exact ⟨a, found, rfl, by simpa [first, Run.bind] using run⟩

theorem peek_done {f : Token → Parser d β} (run : (peekToken d >>= f) lexer = .done b last) :
    ∃ found, lexer.peekToken d = some found ∧ found.peekToken d = some found ∧
      f found.token found = .done b last := by
  obtain ⟨tt, found, peek, behind⟩ := bind_done run
  simp only [peekToken, Parser.run] at peek
  cases ahead : lexer.peekToken d with
  | none => simp [ahead] at peek
  | some seen =>
    simp only [ahead, Run.done.injEq] at peek
    obtain ⟨rfl, rfl⟩ := peek
    exact ⟨seen, rfl, (lexer.peekToken_peeked d ahead).2, behind⟩

/-- A token that does not go on with a phrase of the level was looked at. -/
structure Ends (d : Dialect) (level : Nat) (lexer : Lexer) : Prop where
  self : lexer.peekToken d = some lexer
  quiet : Quiet level lexer.token

structure Settled (d : Dialect) (n : Nat) : Prop where
  expression : ∀ {lexer tree last}, parseExpression d n false lexer = .done (some tree) last →
    Ends d 0 last ∧ last.token ≠ .qmark
  binary : ∀ {level lexer tree last}, level ≤ 10 →
    parseBinary d n level lexer = .done (some tree) last → Ends d level last
  binaryLoop : ∀ {level lexer left tree last}, Ends d (level + 1) lexer →
    binaryLoop d n level left lexer = .done (some tree) last → level < 10 → Ends d level last
  unary : ∀ {lexer tree last}, parseUnaryExpression d n lexer = .done (some tree) last →
    Ends d 10 last
  postfixed : ∀ {lexer tree last}, parsePostfixExpression d n lexer = .done (some tree) last →
    Ends d 10 last
  postfixLoop : ∀ {lexer left tree last}, postfixLoop d n left lexer = .done (some tree) last →
    Ends d 10 last

variable {n : Nat} {tree : ExprTree}

theorem Settled.expression_succ (ih : Settled d n)
    (run : parseExpression d (n + 1) false lexer = .done (some tree) last) :
    Ends d 0 last ∧ last.token ≠ .qmark := by
  rw [parseExpression] at run
  obtain ⟨_ | treeL, l₁, left, run⟩ := bind_done run
  · cases run
  obtain ⟨l₂, peek, self, run⟩ := peek_done run
  have ends := ih.binary (Nat.zero_le 10) left
  cases ends.self.symm.trans peek
  split at run
  · obtain ⟨_, l₃, -, run⟩ := bind_done run
    obtain ⟨middle, l₄, -, run⟩ := bind_done run
    obtain ⟨tt, l₅, -, run⟩ := bind_done run
    split at run
    · cases run
    obtain ⟨right, l₆, settled, run⟩ := bind_done run
    cases middle with
    | none => cases run
    | some treeM =>
      cases right with
      | none => cases run
      | some treeR =>
        cases run
        exact ih.expression settled
  · rename_i other
    cases run
    exact ⟨ends, other⟩

variable {level : Nat} {left : ExprTree}

theorem Settled.binary_succ (ih : Settled d n) (bound : level ≤ 10)
    (run : parseBinary d (n + 1) level lexer = .done (some tree) last) :
    Ends d level last := by
  rw [parseBinary] at run
  split at run
  · rename_i low
    obtain ⟨_ | treeL, l₁, left, run⟩ := bind_done run
    · cases run
    exact ih.binaryLoop (ih.binary (by omega) left) run low
  · obtain rfl : level = 10 := by omega
    exact ih.unary run

theorem Settled.binaryLoop_succ (ih : Settled d n) (ends : Ends d (level + 1) lexer)
    (run : ClassAd.binaryLoop d (n + 1) level left lexer = .done (some tree) last)
    (low : level < 10) : Ends d level last := by
  rw [ClassAd.binaryLoop] at run
  obtain ⟨l₁, peek, -, run⟩ := peek_done run
  cases ends.self.symm.trans peek
  cases operator : binaryOp level lexer.token with
  | none =>
    rw [operator] at run
    cases run
    refine ⟨ends.self, ⟨fun l above => ?_, ends.quiet.box, ends.quiet.dot⟩⟩
    rcases Nat.eq_or_lt_of_le above with rfl | above
    · exact operator
    · exact ends.quiet.operator l above
  | some op =>
    rw [operator] at run
    obtain ⟨_, l₂, -, run⟩ := bind_done run
    obtain ⟨_ | treeR, l₃, right, run⟩ := bind_done run
    · cases run
    exact ih.binaryLoop (ih.binary (by omega) right) run low

theorem Settled.unary_succ (ih : Settled d n)
    (run : parseUnaryExpression d (n + 1) lexer = .done (some tree) last) : Ends d 10 last := by
  rw [parseUnaryExpression] at run
  obtain ⟨l₁, -, -, run⟩ := peek_done run
  cases operator : unaryOp l₁.token with
  | none =>
    rw [operator] at run
    exact ih.postfixed run
  | some op =>
    rw [operator] at run
    obtain ⟨_, l₂, -, run⟩ := bind_done run
    obtain ⟨_ | treeM, l₃, operand, run⟩ := bind_done run
    · cases run
    cases run
    exact ih.unary operand

theorem Settled.postfixLoop_succ (ih : Settled d n)
    (run : ClassAd.postfixLoop d (n + 1) left lexer = .done (some tree) last) : Ends d 10 last := by
  rw [ClassAd.postfixLoop] at run
  obtain ⟨l₁, -, self, run⟩ := peek_done run
  generalize token : l₁.token = tt at run
  split at run
  · obtain ⟨_, l₂, -, run⟩ := bind_done run
    obtain ⟨_ | treeR, l₃, -, run⟩ := bind_done run
    · cases run
    obtain ⟨tt, l₄, -, run⟩ := bind_done run
    split at run
    · exact ih.postfixLoop run
    · cases run
  · obtain ⟨_, l₂, -, run⟩ := bind_done run
    obtain ⟨tt, l₃, -, run⟩ := bind_done run
    split at run
    · exact ih.postfixLoop run
    · cases run
  · rename_i noBox noDot
    cases run
    refine ⟨self, ⟨fun l above => ?_, token ▸ noBox, token ▸ noDot⟩⟩
    cases operator : binaryOp l last.token with
    | none => rfl
    | some op => exact absurd (operatorOf_level (binaryOp_eq_some operator)) (by omega)

theorem settled (d : Dialect) (n : Nat) : Settled d n := by
  induction n with
  | zero => constructor <;> intros <;> contradiction
  | succ n ih =>
    refine ⟨ih.expression_succ, ih.binary_succ, ih.binaryLoop_succ, ih.unary_succ, ?_,
      ih.postfixLoop_succ⟩
    intro lexer tree last run
    rw [parsePostfixExpression] at run
    obtain ⟨_ | tree, l₁, -, run⟩ := bind_done run
    · cases run
    · exact ih.postfixLoop run

end Ends

section Full
variable {d : Dialect} {start found last : Lexer} {tree : ExprTree}

/-- The text is made of the tokens of one expression. -/
def WholeExpression (d : Dialect) (start : Lexer) (tree : ExprTree) : Prop :=
  ∃ used found, Reads d start used found ∧ found.peekToken d = some found ∧
    found.token = .endOfInput ∧ Derives d .expression used tree .endOfInput

/-- The text starts with a conditional expression, and a token that cannot go on with it
stands behind it before the end of the input. -/
def TrailingConditional (d : Dialect) (start : Lexer) : Prop :=
  ∃ u v w treeL treeM treeR found, Reads d start (u ++ .qmark :: (v ++ .colon :: w)) found ∧
    Derives d (.binary 0) u treeL .qmark ∧ Derives d .expression v treeM .colon ∧
    Derives d .expression w treeR found.token ∧ Ends d 0 found ∧ found.token ≠ .qmark ∧
    found.token ≠ .endOfInput

theorem WholeExpression.run {n : Nat} (whole : WholeExpression d start tree)
    (enough : 20 * start.load + 16 ≤ n) :
    ∃ last, parseExpression d n true start = .done (some tree) last ∧
      last.token = .endOfInput := by
  obtain ⟨used, found, reads, self, token, phrase⟩ := whole
  have quiet : Quiet 0 found.token := token ▸ ⟨fun _ _ => rfl, by simp, by simp⟩
  have other : found.token ≠ .qmark := by simp [token]
  cases phrase with
  | ternary left middle right =>
    exact ⟨found, conditional_completes left.completes middle.completes right.completes reads
      self token quiet other enough, token⟩
  | simple phrase =>
    obtain _ | n := n
    · omega
    have binary := (phrase.completes start found reads self token).binary (n := n) self quiet
      (by omega)
    have consume : found.consumeToken d = some { found with tokenConsumed := true } := by
      rw [Lexer.consumeToken, self, Option.map_some]
    refine ⟨{ found with tokenConsumed := true }, ?_, token⟩
    rw [parseExpression, run_bind binary]
    dsimp only
    rw [run_peek self, if_neg other, if_pos rfl, run_consume consume, if_neg (by simp [token])]
    rfl

theorem TrailingConditional.run {n : Nat} (trailing : TrailingConditional d start)
    (enough : 20 * start.load + 16 ≤ n) :
    ∃ tree last, parseExpression d n true start = .done (some tree) last ∧
      last.token ≠ .endOfInput := by
  obtain ⟨u, v, w, treeL, treeM, treeR, found, reads, left, middle, right, ends, other, more⟩ :=
    trailing
  exact ⟨_, found, conditional_completes left.completes middle.completes right.completes reads
    ends.self rfl ends.quiet other enough, more⟩

theorem Accepted.whole_or_trailing (accepted : Accepted d true start tree last) :
    WholeExpression d start tree ∨ TrailingConditional d start := by
  cases accepted with
  | conditional _ reads left middle right settles =>
    obtain ⟨depth, mid, run⟩ := settles
    obtain ⟨ends, other⟩ := (settled d depth).expression run
    have behind := right last ends.self
    by_cases token : last.token = .endOfInput
    · rw [token] at behind
      exact .inl ⟨_, last, reads, ends.self, token, .ternary left middle behind⟩
    · exact .inr ⟨_, _, _, _, _, _, last, reads, left, middle, behind, ends, other, token⟩
  | simple full => cases full
  | whole _ phrase consume token =>
    obtain ⟨_, used, reads, phrase⟩ := phrase
    obtain ⟨peeked, peek, rfl⟩ := Option.map_eq_some_iff.mp consume
    have derived := phrase peeked peek
    rw [show peeked.token = .endOfInput from token] at derived
    refine .inl ⟨used, peeked, ?_, (Lexer.peekToken_peeked d peek).2, token, .simple derived⟩
    simpa using reads.trans (.peek peek)

theorem Lexer.initialized_enough (lexer : Lexer) (source : LexerSource) :
    20 * (lexer.initialized source).load + 16 ≤ (lexer.initialized source).fuel := by
  rw [Lexer.fuel, lexer.initialized_load]
  omega

theorem WholeExpression.last_token {lexer : Lexer} {source : LexerSource}
    (whole : WholeExpression d (lexer.initialized source) tree) {tree' : ExprTree}
    (run : lexer.parseExpression d source true = .done (some tree') last) :
    last.token = .endOfInput := by
  obtain ⟨last', run', token⟩ := whole.run (lexer.initialized_enough source)
  cases run.symm.trans run'
  exact token

def Run.leaves {α : Type} : Run (Option α) → Option Token
  | .done (some _) lexer => some lexer.token
  | _ => none

theorem Run.leaves_eq_some {α : Type} {run : Run (Option α)} {tt : Token}
    (leaves : run.leaves = some tt) : ∃ a last, run = .done (some a) last ∧ last.token = tt := by
  obtain _ | _ | ⟨_ | a, last⟩ := run
  · cases leaves
  · cases leaves
  · cases leaves
  · exact ⟨a, last, rfl, Option.some.inj leaves⟩

/-- A full parse accepts whole texts only, unless a conditional expression with more behind it
is what the text starts with. -/
theorem parseExpression_whole_iff (d : Dialect) (lexer : Lexer) (source : LexerSource) :
    (∀ tree last, lexer.parseExpression d source true = .done (some tree) last →
        WholeExpression d (lexer.initialized source) tree) ↔
      ¬TrailingConditional d (lexer.initialized source) := by
  constructor
  · intro whole trailing
    obtain ⟨tree, last, run, more⟩ := trailing.run (lexer.initialized_enough source)
    exact more ((whole tree last run).last_token run)
  · intro none tree last run
    have ensures := lexer.parseExpression_ensures d source true
    rw [run] at ensures
    exact (ensures tree rfl).whole_or_trailing.resolve_right none

/-- The parser finds every whole expression, with the only tree that the grammar gives it. -/
theorem wholeExpression_iff_parsed (d : Dialect) (lexer : Lexer) (source : LexerSource)
    (tree : ExprTree) : WholeExpression d (lexer.initialized source) tree ↔
      ∃ last, lexer.parseExpression d source true = .done (some tree) last ∧
        last.token = .endOfInput := by
  refine ⟨fun whole => whole.run (lexer.initialized_enough source), ?_⟩
  rintro ⟨last, run, ended⟩
  have ensures := lexer.parseExpression_ensures d source true
  rw [run] at ensures
  refine (ensures tree rfl).whole_or_trailing.resolve_right fun trailing => ?_
  obtain ⟨_, _, run', more⟩ := trailing.run (lexer.initialized_enough source)
  cases run.symm.trans run'
  exact more ended

/-- A word behind a conditional expression is not noticed. -/
theorem conditional_with_junk :
    ∃ tree last, Lexer.fresh.parseExpression .plain (.string (ascii "a ? b : c d")) true =
        .done (some tree) last ∧
      ¬WholeExpression .plain (Lexer.fresh.initialized (.string (ascii "a ? b : c d"))) tree := by
  have run : (Lexer.fresh.parseExpression .plain (.string (ascii "a ? b : c d")) true).leaves =
      some (.identifier (ascii "d")) := by decide +kernel
  obtain ⟨tree, last, done, token⟩ := Run.leaves_eq_some run
  refine ⟨tree, last, done, fun whole => ?_⟩
  cases token.symm.trans (whole.last_token done)

end Full

section Memory
variable {d : Dialect}

def Run.result {α : Type} : Run α → Option α
  | .done a _ => some a
  | _ => none

/-- The lexer of a parser object after some calls that returned. -/
inductive History (d : Dialect) : Lexer → Prop
  | constructed : History d .fresh
  | expression {lexer last : Lexer} {source : LexerSource} {full : Bool}
      {result : Option ExprTree} : History d lexer →
      lexer.parseExpression d source full = .done result last → History d last
  | classAd {lexer last : Lexer} {source : LexerSource} {full : Bool}
      {result : Option (List (Bytes × ExprTree))} : History d lexer →
      lexer.parseClassAd d source full = .done result last → History d last
  | next {lexer last : Lexer} {depth : Nat} {result : Option ExprTree} : History d lexer →
      parseExpression d depth false lexer = .done result last → History d last

theorem tokenize_congr (stepsBack : Bool) {last last' : Token} (input : Bytes)
    (same : last.endsOperand = last'.endsOperand) :
    tokenize d stepsBack last input = tokenize d stepsBack last' input := by
  cases input with
  | nil => rfl
  | cons c rest => rw [tokenize, tokenize, same]

theorem initialized_peekToken (lexer lexer' : Lexer) (source : LexerSource)
    (same : lexer.token.endsOperand = lexer'.token.endsOperand) :
    (lexer.initialized source).peekToken d = (lexer'.initialized source).peekToken d := by
  simp only [Lexer.peekToken, Lexer.initialized]
  cases skipBlanks .blanks source.delivers with
  | openComment => rfl
  | divide rest => rfl
  | token rest =>
    simp only [tokenize_congr source.stepsBack rest same]
    rfl

variable {tree : ExprTree}

theorem WholeExpression.result {start : Lexer} {n : Nat} (whole : WholeExpression d start tree)
    (enough : 20 * start.load + 16 ≤ n) :
    (parseExpression d n true start).result = some (some tree) := by
  obtain ⟨last, run, -⟩ := whole.run enough
  rw [run, Run.result]

variable {u : List Token} {next : Token}

theorem Derives.binary {level : Nat} (phrase : Derives d .unary u tree next) (bound : level ≤ 10) :
    Derives d (.binary level) u tree next := by
  induction bound using Nat.decreasingInduction with
  | self => exact .tightest phrase
  | of_succ level low ih => exact .operand low ih

theorem Derives.expression (phrase : Derives d .unary u tree next) :
    Derives d .expression u tree next :=
  .simple (phrase.binary (Nat.zero_le 10))

theorem tokenizeNumber_three (d : Dialect) :
    tokenizeNumber d 45 [51] = (.integerValue (-3) .none, []) ∧
      tokenizeNumber d 51 [] = (.integerValue 3 .none, []) := by
  obtain ⟨old, _, _, _⟩ := d
  cases old <;> exact ⟨rfl, rfl⟩

theorem minusThree_whole (lexer : Lexer) :
    WholeExpression d (lexer.initialized (.string (ascii "-3")))
      (if lexer.token.endsOperand then .unary .unaryMinus (.literal (.integer 3) .none)
        else .literal (.integer (-3)) .none) := by
  have peek : (lexer.initialized (.string (ascii "-3"))).peekToken d =
      some (if lexer.token.endsOperand then ⟨[51], true, .minus, false⟩
        else ⟨[], true, .integerValue (-3) .none, false⟩) := by
    change some { lexer.initialized (.string (ascii "-3")) with
      input := (tokenize d true lexer.token [45, 51]).2,
      token := (tokenize d true lexer.token [45, 51]).1, tokenConsumed := false } = _
    rw [tokenize, if_neg (by decide), if_pos rfl, (tokenizeNumber_three d).1]
    split <;> rfl
  cases operand : lexer.token.endsOperand with
  | true =>
    rw [operand] at peek
    refine ⟨[.minus, .integerValue 3 .none], ⟨[], true, .endOfInput, false⟩, ?_, rfl, rfl, ?_⟩
    · have consume : (lexer.initialized (.string (ascii "-3"))).consumeToken d =
          some ⟨[51], true, .minus, true⟩ := by
        rw [Lexer.consumeToken, peek]
        rfl
      have digit : (Lexer.mk [51] true .minus true).consumeToken d =
          some ⟨[], true, .integerValue 3 .none, true⟩ := by
        change some (Lexer.mk (tokenizeNumber d 51 []).2 true (tokenizeNumber d 51 []).1 true) = _
        rw [(tokenizeNumber_three d).2]
      exact .token consume (.token digit (.same rfl))
    · exact (Derives.unary rfl (Derives.literal rfl).primary.postfixed).expression
  | false =>
    rw [operand] at peek
    refine ⟨[.integerValue (-3) .none], ⟨[], true, .endOfInput, false⟩, ?_, rfl, rfl, ?_⟩
    · have consume : (lexer.initialized (.string (ascii "-3"))).consumeToken d =
          some ⟨[], true, .integerValue (-3) .none, true⟩ := by
        rw [Lexer.consumeToken, peek]
        rfl
      exact .token consume (.same rfl)
    · exact (Derives.literal rfl).primary.postfixed.expression

/-- A parser object gives the results of a fresh one exactly when the last token before was
not one after which a minus sign is an operator. -/
theorem parseExpression_memoryless_iff {lexer : Lexer} (_ : History d lexer) :
    (∀ s full, (lexer.parseExpression d (.string s) full).result =
        (Lexer.fresh.parseExpression d (.string s) full).result) ↔
      lexer.token.endsOperand = false := by
  constructor
  · intro memoryless
    have same := memoryless (ascii "-3") true
    have fresh : Lexer.fresh.token.endsOperand = false := rfl
    rw [Lexer.parseExpression, Lexer.parseExpression,
      (minusThree_whole lexer).result (lexer.initialized_enough _),
      (minusThree_whole .fresh).result (Lexer.fresh.initialized_enough _)] at same
    by_contra ends
    simp [fresh, ends] at same
  · intro same s full
    have peek := initialized_peekToken (d := d) lexer .fresh (.string s) same
    exact congrArg Run.result (looksFirst_expression _ full _ _ peek)

theorem afterAd_history : ∃ lexer, History .plain lexer ∧ lexer.token = .closeBox := by
  have run : (Lexer.fresh.parseClassAd .plain (.string (ascii "[a=1]")) false).leaves =
      some .closeBox := by decide +kernel
  obtain ⟨_, last, done, token⟩ := Run.leaves_eq_some run
  exact ⟨last, .classAd .constructed done, token⟩

theorem parseExpression_memoryless_iff_afterAd :
    ∃ lexer, History .plain lexer ∧ lexer.token = .closeBox ∧
      ((∀ s full, (lexer.parseExpression .plain (.string s) full).result =
          (Lexer.fresh.parseExpression .plain (.string s) full).result) ↔
        lexer.token.endsOperand = false) := by
  obtain ⟨lexer, history, token⟩ := afterAd_history
  exact ⟨lexer, history, token, parseExpression_memoryless_iff history⟩

/-- Behind an ad the text `-3` is an operation, for a new parser it is a literal. -/
theorem minusThree_afterAd :
    ∃ lexer, History .plain lexer ∧
      (lexer.parseExpression .plain (.string (ascii "-3")) true).result =
        some (some (.unary .unaryMinus (.literal (.integer 3) .none))) ∧
      (Lexer.fresh.parseExpression .plain (.string (ascii "-3")) true).result =
        some (some (.literal (.integer (-3)) .none)) := by
  obtain ⟨lexer, history, token⟩ := afterAd_history
  have operand : lexer.token.endsOperand = true := by rw [token, Token.endsOperand]
  have whole := minusThree_whole (d := .plain) lexer
  rw [if_pos operand] at whole
  exact ⟨lexer, history, whole.result (lexer.initialized_enough _),
    (minusThree_whole .fresh).result (Lexer.fresh.initialized_enough _)⟩

end Memory

end Condor.ClassAd
