import Condor.ClassAd.ParserSoundness

/-! A parse that ends within some depth ends in the same way within every larger one. -/
namespace Condor.ClassAd
open Condor.Utils

section Extends
variable {d : Dialect} {α β : Type}

/-- `q` does what `p` does, unless `p` runs out of depth. -/
def Extends (p q : Parser d α) : Prop :=
  ∀ lexer, p lexer = .outOfFuel ∨ p lexer = q lexer

theorem Extends.refl (p : Parser d α) : Extends p p := fun _ => .inr rfl

theorem Extends.bind {p q : Parser d α} {f g : α → Parser d β} (first : Extends p q)
    (second : ∀ a, Extends (f a) (g a)) : Extends (p >>= f) (q >>= g) := by
  intro lexer
  rw [Parser.bind_run, Parser.bind_run]
  rcases first lexer with tired | same
  · rw [tired]
    exact .inl rfl
  · rw [← same]
    cases p lexer with
    | openComment => exact .inr rfl
    | outOfFuel => exact .inl rfl
    | done a found => exact second a found

theorem Extends.token {p : Parser d Token} {f g : Token → Parser d β}
    (second : ∀ tt, Extends (f tt) (g tt)) : Extends (p >>= f) (p >>= g) :=
  (Extends.refl p).bind second

theorem Extends.opt {p q : Parser d (Option α)} {f g : Option α → Parser d β}
    (first : Extends p q) (failed : f none = g none)
    (second : ∀ a, Extends (f (some a)) (g (some a))) : Extends (p >>= f) (q >>= g) := by
  refine first.bind fun result => ?_
  cases result with
  | none =>
    rw [failed]
    exact .refl _
  | some a => exact second a

theorem Extends.ite {c : Prop} [Decidable c] {p q p' q' : Parser d α}
    (first : Extends p q) (second : Extends p' q') :
    Extends (if c then p else p') (if c then q else q') := by
  split
  · exact first
  · exact second

end Extends

structure Grows (d : Dialect) (n m : Nat) : Prop where
  expression : ∀ full, Extends (parseExpression d n full) (parseExpression d m full)
  binary : ∀ level, Extends (parseBinary d n level) (parseBinary d m level)
  binaryLoop : ∀ level tree, Extends (binaryLoop d n level tree) (binaryLoop d m level tree)
  unary : Extends (parseUnaryExpression d n) (parseUnaryExpression d m)
  postfixed : Extends (parsePostfixExpression d n) (parsePostfixExpression d m)
  postfixLoop : ∀ tree, Extends (postfixLoop d n tree) (postfixLoop d m tree)
  primary : Extends (parsePrimaryExpression d n) (parsePrimaryExpression d m)
  sequence : ∀ brackets, Extends (parseSequence d n brackets) (parseSequence d m brackets)
  elementLoop : ∀ brackets exprs,
    Extends (elementLoop d n brackets exprs) (elementLoop d m brackets exprs)
  elementRest : ∀ brackets exprs,
    Extends (elementRest d n brackets exprs) (elementRest d m brackets exprs)
  classAd : ∀ full, Extends (parseClassAd d n full) (parseClassAd d m full)
  body : Extends (parseAttributes d n) (parseAttributes d m)
  attributeLoop : ∀ attrs, Extends (attributeLoop d n attrs) (attributeLoop d m attrs)
  attributeRest : ∀ attrs, Extends (attributeRest d n attrs) (attributeRest d m attrs)

theorem Grows.succ {d : Dialect} {n m : Nat} (ih : Grows d n m) : Grows d (n + 1) (m + 1) where
  expression full := by
    simp only [parseExpression]
    refine (ih.binary 0).opt rfl fun treeL => .token fun tt => .ite (.token fun _ => ?_) (.refl _)
    refine (ih.expression false).bind fun treeM => .token fun tt => .ite (.refl _) ?_
    exact (ih.expression false).bind fun treeR => .refl _
  binary level := by
    simp only [parseBinary]
    exact .ite ((ih.binary _).opt rfl fun tree => ih.binaryLoop level tree) ih.unary
  binaryLoop level tree := by
    simp only [ClassAd.binaryLoop]
    refine .token fun tt => ?_
    cases binaryOp level tt with
    | none => exact .refl _
    | some op => exact .token fun _ => (ih.binary _).opt rfl fun treeR => ih.binaryLoop level _
  unary := by
    simp only [parseUnaryExpression]
    refine .token fun tt => ?_
    cases unaryOp tt with
    | none => exact ih.postfixed
    | some op => exact .token fun _ => ih.unary.opt rfl fun _ => .refl _
  postfixed := by
    simp only [parsePostfixExpression]
    exact ih.primary.opt rfl fun tree => ih.postfixLoop tree
  postfixLoop tree := by
    simp only [ClassAd.postfixLoop]
    refine .token fun tt => ?_
    cases tt
    case openBox =>
      refine .token fun _ => (ih.expression false).opt rfl fun treeR => .token fun tt => ?_
      exact .ite (ih.postfixLoop _) (.refl _)
    case selection =>
      refine .token fun _ => .token fun tt => ?_
      cases tt
      case identifier s => exact ih.postfixLoop _
      all_goals exact .refl _
    all_goals exact .refl _
  primary := by
    simp only [parsePrimaryExpression]
    refine .token fun tt => ?_
    cases tt
    case identifier s =>
      refine .token fun _ => .token fun tt => .ite (.token fun _ => ?_) (.refl _)
      exact (ih.sequence _).opt rfl fun _ => .refl _
    case openParen => exact .token fun _ => (ih.expression false).opt rfl fun _ => .refl _
    case openBox => exact (ih.classAd false).opt rfl fun _ => .refl _
    case openBrace => exact .token fun _ => (ih.sequence _).opt rfl fun _ => .refl _
    all_goals exact .refl _
  sequence brackets := by
    simp only [parseSequence]
    exact .token fun tt => .ite (.refl _) (ih.elementLoop brackets [])
  elementLoop brackets exprs := by
    simp only [ClassAd.elementLoop]
    exact (ih.expression false).opt rfl fun tree => ih.elementRest brackets _
  elementRest brackets exprs := by
    simp only [ClassAd.elementRest]
    refine .token fun tt => .ite ?_ (.refl _)
    exact .token fun _ => ih.elementLoop brackets exprs
  classAd full := by
    simp only [parseClassAd]
    exact .token fun tt => .ite (.refl _) (ih.body.opt rfl fun attrs => .refl _)
  body := by
    simp only [parseAttributes]
    exact .token fun tt => .ite (.refl _) (ih.attributeLoop [])
  attributeLoop attrs := by
    simp only [ClassAd.attributeLoop]
    refine .token fun tt => ?_
    cases tt
    case semicolon => exact ih.attributeLoop attrs
    case identifier s =>
      refine .token fun tt => .ite (.refl _) ((ih.expression false).opt rfl fun tree => ?_)
      exact .ite (.refl _) (.token fun tt => .ite (.refl _) (ih.attributeRest _))
    all_goals exact .refl _
  attributeRest attrs := by
    simp only [ClassAd.attributeRest]
    refine .token fun tt => .ite (.token fun _ => ih.attributeRest attrs) ?_
    exact .ite (.refl _) (ih.attributeLoop attrs)

theorem grows (d : Dialect) (n k : Nat) : Grows d n (n + k) := by
  induction n with
  | zero => constructor <;> intros <;> exact fun _ => .inl rfl
  | succ n ih =>
    rw [Nat.succ_add]
    exact ih.succ

def LooksFirst {α : Type} (d : Dialect) (p : Parser d α) : Prop :=
  ∀ lexer lexer' : Lexer, lexer.peekToken d = lexer'.peekToken d → p lexer = p lexer'

section LooksFirst
variable {d : Dialect} {α β : Type}

theorem LooksFirst.bind {p : Parser d α} (looks : LooksFirst d p) (f : α → Parser d β) :
    LooksFirst d (p >>= f) := by
  intro lexer lexer' same
  rw [Parser.bind_run, Parser.bind_run, looks lexer lexer' same]

theorem looksFirst_peek : LooksFirst d (peekToken d) := by
  intro lexer lexer' same
  rw [peekToken, Parser.run, Parser.run, same]

theorem looksFirst_consume : LooksFirst d (consumeToken d) := by
  intro lexer lexer' same
  rw [consumeToken, Parser.run, Parser.run, Lexer.consumeToken, Lexer.consumeToken, same]

theorem looksFirst_outOfFuel : LooksFirst d (outOfFuel : Parser d α) := fun _ _ _ => rfl

variable (n : Nat)

theorem looksFirst_unary : LooksFirst d (parseUnaryExpression d n) := by
  cases n with
  | zero => exact looksFirst_outOfFuel
  | succ n =>
    rw [parseUnaryExpression]
    exact looksFirst_peek.bind _

theorem looksFirst_binary (level : Nat) : LooksFirst d (parseBinary d n level) := by
  induction n generalizing level with
  | zero => exact looksFirst_outOfFuel
  | succ n ih =>
    rw [parseBinary]
    split
    · exact (ih (level + 1)).bind _
    · exact looksFirst_unary n

theorem looksFirst_primary : LooksFirst d (parsePrimaryExpression d n) := by
  cases n with
  | zero => exact looksFirst_outOfFuel
  | succ n =>
    rw [parsePrimaryExpression]
    exact looksFirst_peek.bind _

theorem looksFirst_postfixed : LooksFirst d (parsePostfixExpression d n) := by
  cases n with
  | zero => exact looksFirst_outOfFuel
  | succ n =>
    rw [parsePostfixExpression]
    exact (looksFirst_primary n).bind _

theorem looksFirst_postfixLoop (tree : ExprTree) : LooksFirst d (postfixLoop d n tree) := by
  cases n with
  | zero => exact looksFirst_outOfFuel
  | succ n =>
    rw [postfixLoop]
    exact looksFirst_peek.bind _

theorem looksFirst_attributeLoop (attrs : List (Bytes × ExprTree)) :
    LooksFirst d (attributeLoop d n attrs) := by
  cases n with
  | zero => exact looksFirst_outOfFuel
  | succ n =>
    rw [attributeLoop]
    exact looksFirst_consume.bind _

theorem looksFirst_attributeRest (attrs : List (Bytes × ExprTree)) :
    LooksFirst d (attributeRest d n attrs) := by
  cases n with
  | zero => exact looksFirst_outOfFuel
  | succ n =>
    rw [attributeRest]
    exact looksFirst_peek.bind _

theorem looksFirst_expression (full : Bool) : LooksFirst d (parseExpression d n full) := by
  cases n with
  | zero => exact looksFirst_outOfFuel
  | succ n =>
    rw [parseExpression]
    exact (looksFirst_binary n 0).bind _

theorem looksFirst_elementLoop (brackets : Brackets) (exprs : List ExprTree) :
    LooksFirst d (elementLoop d n brackets exprs) := by
  cases n with
  | zero => exact looksFirst_outOfFuel
  | succ n =>
    rw [elementLoop]
    exact (looksFirst_expression n false).bind _

end LooksFirst

end Condor.ClassAd
