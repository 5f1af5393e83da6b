import Condor.ClassAd.Parser

/-! Each tokenizer leaves an end of its characters, apart from the string source that steps back, so
`load` falls with every token but the end of the input. -/
namespace Condor.ClassAd
open Condor.Utils

theorem load_cons (c : UInt8) (input : Bytes) :
    load (c :: input) = (if c = 61 then 2 else 1) + load input := rfl

theorem load_lt_cons (c : UInt8) (input : Bytes) : load input < load (c :: input) := by
  rw [load_cons]
  split <;> omega

theorem load_suffix {rest input : Bytes} (suffix : rest <:+ input) : load rest ≤ load input := by
  obtain ⟨read, rfl⟩ := suffix
  induction read with
  | nil => exact le_refl _
  | cons c read ih => exact ih.trans (load_lt_cons c _).le

theorem octalDigits_suffix (real : Bool) (rest : Bytes) : (octalDigits real rest).2 <:+ rest := by
  fun_induction octalDigits real rest with
  | case1 => exact List.suffix_refl _
  | case2 real c rest digit ih => exact ih.trans (List.suffix_cons c rest)
  | case3 => exact List.suffix_refl _

def leftOf {α : Type} (left : α → Bytes) : Except Bytes α → Bytes
  | .error rest => rest
  | .ok a => left a

theorem integerPart_suffix (och : UInt8) (rest : Bytes) :
    leftOf Prod.snd (integerPart och rest) <:+ rest := by
  have octal := octalDigits_suffix false rest
  have hex : rest.tail.dropWhile isHexDigit <:+ rest :=
    (List.dropWhile_suffix _).trans (List.tail_suffix rest)
  unfold integerPart
  dsimp only
  split
  · split
    · split
      · exact hex
      · exact List.tail_suffix rest
    · split
      · exact octal
      · split <;> exact octal
  · split
    · exact List.dropWhile_suffix _
    · exact List.suffix_refl _

theorem windIf_suffix (p : Bool) (rest : Bytes) : windIf p rest <:+ rest := by
  cases p with
  | true => exact List.tail_suffix rest
  | false => exact List.suffix_refl _

theorem exponent_suffix (type : NumberType) (rest : Bytes) :
    leftOf id (exponent type rest) <:+ rest := by
  unfold exponent
  dsimp only
  split
  · have sign := (windIf_suffix (starts '+' rest.tail || starts '-' rest.tail) rest.tail).trans
      (List.tail_suffix rest)
    split
    · exact (List.dropWhile_suffix _).trans sign
    · exact sign
  · exact List.suffix_refl _

theorem scaleFactor_suffix (rest : Bytes) : (scaleFactor rest).2 <:+ rest := by
  unfold scaleFactor
  split
  · exact List.suffix_refl _
  · split
    · exact List.suffix_refl _
    · exact List.suffix_cons _ _

variable (d : Dialect)

theorem numberToken_suffix (type : NumberType) (start rest : Bytes) :
    (numberToken d type start rest).2 <:+ rest := by
  unfold numberToken
  dsimp only
  split <;> exact scaleFactor_suffix rest

theorem unsignedNumber_suffix (start : Bytes) (och : UInt8) (rest : Bytes) :
    (unsignedNumber d start och rest).2 <:+ rest := by
  have whole := integerPart_suffix och rest
  unfold unsignedNumber
  cases part : integerPart och rest with
  | error left => rwa [part] at whole
  | ok found =>
    obtain ⟨type, left⟩ := found
    rw [part] at whole
    refine List.IsSuffix.trans ?_ whole
    have behind := windIf_suffix (starts '.' left) left
    dsimp only
    generalize (och = 46 || starts '.' left) = pointed
    split
    · exact behind
    · have digits : (if pointed then (windIf (starts '.' left) left).dropWhile isDigit
          else left) <:+ left := by
        split
        · exact (List.dropWhile_suffix _).trans behind
        · exact List.suffix_refl _
      refine List.IsSuffix.trans ?_ digits
      generalize (if pointed then (windIf (starts '.' left) left).dropWhile isDigit
        else left) = ahead
      have power := exponent_suffix (if pointed then .real else type) ahead
      cases read : exponent (if pointed then .real else type) ahead with
      | error left => rwa [read] at power
      | ok left =>
        rw [read] at power
        exact (numberToken_suffix d _ start left).trans power

theorem tokenizeNumber_suffix (och : UInt8) (rest : Bytes) :
    (tokenizeNumber d och rest).2 <:+ rest := by
  unfold tokenizeNumber
  dsimp only
  split
  · split
    · exact List.suffix_refl _
    · rename_i c behind
      split
      · exact (unsignedNumber_suffix d _ c behind).trans (List.suffix_cons c behind)
      · split
        · exact unsignedNumber_suffix d _ och _
        · exact List.suffix_refl _
  · exact unsignedNumber_suffix d _ och rest

theorem stringText_suffix (delim : UInt8) (state : Option Bool) (rest : Bytes) :
    (stringText delim state rest).2 <:+ rest := by
  fun_induction stringText delim state rest with
  | case1 | case4 | case5 | case6 => exact List.suffix_refl _
  | case2 c rest _ ih | case3 rest _ ih | case7 odd c rest _ _ ih =>
    exact ih.trans (List.suffix_cons _ rest)
  | case8 odd c rest _ _ text left found ih =>
    rw [found] at ih
    exact ih.trans (List.suffix_cons c rest)

theorem tokenizeString_suffix (delim : UInt8) (rest : Bytes) :
    (tokenizeString delim rest).2 <:+ rest := by
  have text := stringText_suffix delim (some false) rest
  unfold tokenizeString
  dsimp only
  split <;> exact text

theorem tokenizeAlphaHead_suffix {c : UInt8} (head : isAlpha c = true ∨ c = 95) (rest : Bytes) :
    (tokenizeAlphaHead (c :: rest)).2 <:+ rest := by
  unfold tokenizeAlphaHead
  by_cases letter : isAlpha c = true
  · have letters : (c :: rest).dropWhile isAlpha <:+ rest := by
      rw [List.dropWhile_cons_of_pos letter]
      exact List.dropWhile_suffix _
    dsimp only
    split
    · exact (List.dropWhile_suffix _).trans letters
    · exact letters
  · obtain rfl := head.resolve_left letter
    exact List.dropWhile_suffix (l := rest) isWord

theorem tokenizeEquals_load (stepsBack : Bool) (rest : Bytes) :
    load (tokenizeEquals stepsBack rest).2 ≤ 1 + load rest := by
  have one := load_suffix (List.tail_suffix rest)
  have two := load_suffix (List.tail_suffix rest.tail)
  have back : load (33 :: rest) = 1 + load rest := rfl
  unfold tokenizeEquals
  repeat' split
  all_goals dsimp only; omega

theorem tokenizePunctOperator_load (stepsBack : Bool) (oldch : UInt8) (rest : Bytes) :
    load (tokenizePunctOperator stepsBack oldch rest).2 < load (oldch :: rest) := by
  have less := load_lt_cons oldch rest
  have one := load_suffix (List.tail_suffix rest)
  have two := load_suffix (List.tail_suffix rest.tail)
  unfold tokenizePunctOperator
  split
  · rename_i equals
    have bound := tokenizeEquals_load stepsBack rest
    rw [equals, load_cons, if_pos rfl]
    omega
  · split
    all_goals repeat' split
    all_goals dsimp only; omega

theorem tokenize_load (stepsBack : Bool) (last : Token) (input : Bytes) :
    load (tokenize d stepsBack last input).2 ≤ load input ∧
      ((tokenize d stepsBack last input).1 ≠ .endOfInput →
        load (tokenize d stepsBack last input).2 < load input) := by
  cases input with
  | nil => exact ⟨le_refl _, fun other => absurd rfl other⟩
  | cons c rest =>
    by_cases nul : c = 0
    · simp [tokenize, nul]
    have less : load (tokenize d stepsBack last (c :: rest)).2 < load (c :: rest) := by
      have read := load_lt_cons c rest
      have number := load_suffix (tokenizeNumber_suffix d c rest)
      have string := load_suffix (tokenizeString_suffix c rest)
      have operator := tokenizePunctOperator_load stepsBack c rest
      rw [tokenize, if_neg nul]
      split
      · split <;> omega
      · split
        · omega
        · split
          · rename_i head
            have word := load_suffix (tokenizeAlphaHead_suffix (by simpa using head) rest)
            omega
          · split <;> omega
    exact ⟨less.le, fun _ => less⟩

/-- The characters that `skipBlanks` passes, with the slash of a division. -/
def Skipped.Within (state : Blanks) (input : Bytes) : Skipped → Prop
  | .openComment => True
  | .token rest => load rest ≤ load input
  | .divide rest => load rest ≤ load input ∧ (state ≠ .slash → load rest < load input)

theorem Skipped.Within.cons {state before : Blanks} {rest : Bytes} {skipped : Skipped}
    (within : skipped.Within state rest) (c : UInt8) : skipped.Within before (c :: rest) := by
  have less := load_lt_cons c rest
  cases skipped with
  | openComment => trivial
  | token left => exact (within : load left ≤ load rest).trans less.le
  | divide left => exact ⟨within.1.trans less.le, fun _ => within.1.trans_lt less⟩

theorem skipBlanks_within (state : Blanks) (input : Bytes) :
    (skipBlanks state input).Within state input := by
  induction input generalizing state with
  | nil => cases state <;> simp [skipBlanks, Skipped.Within]
  | cons c rest ih =>
    cases state with
    | blanks =>
      rw [skipBlanks]
      split
      · exact (ih .blanks).cons c
      · split
        · exact (ih .slash).cons c
        · exact le_refl _
    | slash =>
      rw [skipBlanks]
      split
      · exact (ih .line).cons c
      · split
        · exact (ih (.block false)).cons c
        · exact ⟨le_refl _, fun other => absurd rfl other⟩
    | line =>
      rw [skipBlanks]
      split
      · exact le_refl _
      · split
        · exact (ih .blanks).cons c
        · exact (ih .line).cons c
    | block star =>
      rw [skipBlanks]
      split
      · exact (ih .blanks).cons c
      · exact (ih (.block _)).cons c

/-- The characters ahead, and the token that is found and not consumed. -/
def Lexer.load (lexer : Lexer) : Nat :=
  ClassAd.load lexer.input +
    if lexer.tokenConsumed = false ∧ lexer.token ≠ .endOfInput then 1 else 0

variable {lexer found : Lexer}

theorem Lexer.peekToken_cases (peek : lexer.peekToken d = some found) :
    (lexer.tokenConsumed = false ∧ found = lexer) ∨
      lexer.tokenConsumed = true ∧ ∃ token left,
        found = { lexer with input := left, token := token, tokenConsumed := false } ∧
          ClassAd.load left ≤ ClassAd.load lexer.input ∧
          (token ≠ .endOfInput → ClassAd.load left < ClassAd.load lexer.input) := by
  cases consumed : lexer.tokenConsumed with
  | false =>
    simp only [Lexer.peekToken, consumed, Bool.not_false, ↓reduceIte] at peek
    exact .inl ⟨rfl, (Option.some.inj peek).symm⟩
  | true =>
    refine .inr ⟨rfl, ?_⟩
    have ahead := skipBlanks_within .blanks lexer.input
    simp only [Lexer.peekToken, consumed, Bool.not_true, Bool.false_eq_true, ↓reduceIte] at peek
    cases skipped : skipBlanks .blanks lexer.input with
    | openComment =>
      rw [skipped] at peek
      cases peek
    | divide rest =>
      rw [skipped] at peek ahead
      have less := ahead.2 nofun
      exact ⟨.divide, rest, (Option.some.inj peek).symm, less.le, fun _ => less⟩
    | token rest =>
      rw [skipped] at peek ahead
      have within : ClassAd.load rest ≤ ClassAd.load lexer.input := ahead
      have read := tokenize_load d lexer.stepsBack lexer.token rest
      refine ⟨_, _, (Option.some.inj peek).symm, read.1.trans within, ?_⟩
      intro other
      exact (read.2 other).trans_le within

theorem Lexer.peekToken_peeked (peek : lexer.peekToken d = some found) :
    found.tokenConsumed = false ∧ found.peekToken d = some found := by
  have peeked : found.tokenConsumed = false := by
    obtain ⟨unconsumed, rfl⟩ | ⟨-, token, left, rfl, -⟩ := lexer.peekToken_cases d peek
    · exact unconsumed
    · rfl
  exact ⟨peeked, by simp [Lexer.peekToken, peeked]⟩

theorem Lexer.peekToken_load (peek : lexer.peekToken d = some found) : found.load ≤ lexer.load := by
  obtain ⟨-, rfl⟩ | ⟨consumed, token, left, rfl, within, less⟩ := lexer.peekToken_cases d peek
  · exact le_refl _
  · simp only [Lexer.load, consumed, Bool.true_eq_false, false_and, ↓reduceIte, true_and]
    split
    · have := less ‹_›
      omega
    · omega

/-- Consuming a token that is not the end of the input takes it off. -/
theorem Lexer.consumeToken_load (consume : lexer.consumeToken d = some found) :
    found.load ≤ lexer.load ∧ (found.token ≠ .endOfInput → found.load < lexer.load) := by
  obtain ⟨peeked, peek, rfl⟩ := Option.map_eq_some_iff.mp consume
  have less := lexer.peekToken_load d peek
  have unconsumed := (lexer.peekToken_peeked d peek).1
  simp only [Lexer.load, unconsumed, Bool.true_eq_false, false_and, ↓reduceIte, true_and] at *
  refine ⟨?_, ?_⟩
  · split at less <;> omega
  · intro other
    rw [if_pos other] at less
    omega

end Condor.ClassAd
