import Condor.ClassAd.Sink

/-! What the lexer makes of `0[0-7]+`, `0[xX][0-9a-fA-F]+` and decimal digits. -/
namespace Condor.ClassAd
open Condor.Utils

section Scanning
variable {text rest : Bytes} {p : UInt8 → Bool}

theorem notWord_cases {c : UInt8} (word : isWord c = false) (point : c ≠ 46) :
    isDigit c = false ∧ isHexDigit c = false ∧ isPointOrExponent c = false ∧
      toLower c ≠ 120 ∧ factorOf c = .none := by
  have every : ∀ c : UInt8, isWord c = false → c ≠ 46 → isDigit c = false ∧
      isHexDigit c = false ∧ isPointOrExponent c = false ∧ toLower c ≠ 120 ∧ factorOf c = .none :=
    forall_byte (by decide +kernel)
  exact every c word point

theorem takeWhile_stop (all : ∀ c ∈ text, p c = true) (stop : at? p rest = false) :
    (text ++ rest).takeWhile p = text ∧ (text ++ rest).dropWhile p = rest := by
  rw [List.takeWhile_append_of_pos all, List.dropWhile_append_of_pos all]
  cases rest with
  | nil => simp
  | cons c rest =>
    have neg : ¬ p c = true := Bool.eq_false_iff.mp stop
    simp [List.takeWhile_cons_of_neg neg, List.dropWhile_cons_of_neg neg]

structure EndsNumber (rest : Bytes) : Prop where
  word : at? isWord rest = false
  point : starts '.' rest = false

theorem EndsNumber.none (ends : EndsNumber rest) :
    at? isDigit rest = false ∧ at? isHexDigit rest = false ∧
      at? isPointOrExponent rest = false ∧ at? (toLower · = 120) rest = false ∧
      scaleFactor rest = (.none, rest) := by
  cases rest with
  | nil => exact ⟨rfl, rfl, rfl, rfl, rfl⟩
  | cons c rest =>
    have point : c ≠ 46 := by simpa [starts, at?] using ends.point
    obtain ⟨digit, hex, exponent, letter, factor⟩ := notWord_cases ends.word point
    exact ⟨digit, hex, exponent, by simpa [at?] using letter, by simp [scaleFactor, factor]⟩

end Scanning

inductive Radix where
  | octal | hex | decimal
  deriving DecidableEq

def Radix.base : Radix → Nat
  | .octal => 8
  | .hex => 16
  | .decimal => 10

inductive Radix.Spells : Radix → Bytes → Bytes → Prop
  | octal {digits : Bytes} : digits ≠ [] → (∀ c ∈ digits, isOctalDigit c = true) →
      Spells .octal (48 :: digits) digits
  | hex {x : UInt8} {digits : Bytes} : x = 120 ∨ x = 88 → digits ≠ [] →
      (∀ c ∈ digits, isHexDigit c = true) → Spells .hex (48 :: x :: digits) digits
  | decimal {c : UInt8} {digits : Bytes} : (∀ x ∈ c :: digits, isDigit x = true) →
      (c = 48 → digits = []) → Spells .decimal (c :: digits) (c :: digits)

section Literals
variable {d : Dialect} {radix : Radix} {text digits rest : Bytes}
variable {c : UInt8}

theorem isDigit_of_isOctalDigit (octal : isOctalDigit c = true) : isDigit c = true :=
  forall_byte (P := fun c => isOctalDigit c = true → isDigit c = true) (by decide +kernel) c octal

theorem octalDigits_stop (stop : at? isDigit rest = false) (real : Bool) :
    octalDigits real rest = (real, rest) := by
  cases rest with
  | nil => rfl
  | cons c rest =>
    have other : isDigit c = false := stop
    simp [octalDigits, other]

/-- The character behind the last octal digit is none: the number is taken for a real. -/
theorem octalDigits_real (stop : at? isDigit rest = false) (some : digits ≠ [])
    (all : ∀ c ∈ digits, isOctalDigit c = true) : ∀ real : Bool,
    octalDigits real (digits ++ rest) = (true, rest) := by
  induction digits with
  | nil => exact absurd rfl some
  | cons c digits ih =>
    intro real
    rw [List.cons_append, octalDigits,
      if_pos (isDigit_of_isOctalDigit (all c List.mem_cons_self))]
    cases digits with
    | nil =>
      have behind : at? isOctalDigit rest = false := by
        cases rest with
        | nil => rfl
        | cons x rest =>
          refine Bool.eq_false_iff.mpr fun octal => ?_
          exact absurd (isDigit_of_isOctalDigit octal)
            (Bool.eq_false_iff.mp stop)
      rw [List.nil_append, behind, Bool.not_false, Bool.or_true, octalDigits_stop stop]
    | cons x digits =>
      exact ih (List.cons_ne_nil _ _) (fun y member => all y (List.mem_cons_of_mem _ member)) _

theorem integerPart_octal (ends : EndsNumber rest) (some : digits ≠ [])
    (all : ∀ c ∈ digits, isOctalDigit c = true) :
    integerPart 48 (digits ++ rest) = .error rest := by
  obtain ⟨digit, -, exponent, -⟩ := ends.none
  have letter : at? (toLower · = 120) (digits ++ rest) = false := by
    cases digits with
    | nil => exact absurd rfl some
    | cons c digits =>
      exact forall_byte (P := fun c => isOctalDigit c = true → decide (toLower c = 120) = false)
        (by decide +kernel) c (all c List.mem_cons_self)
  simp [integerPart, letter, octalDigits_real digit some all, exponent]

theorem integerPart_hex {x : UInt8} (ends : EndsNumber rest) (letter : x = 120 ∨ x = 88)
    (some : digits ≠ []) (all : ∀ c ∈ digits, isHexDigit c = true) :
    integerPart 48 (x :: digits ++ rest) = .ok (.integer, rest) := by
  have stop := (takeWhile_stop all ends.none.2.1).2
  have lower : toLower x = 120 := by rcases letter with rfl | rfl <;> rfl
  have first : at? isHexDigit (digits ++ rest) = true := by
    cases digits with
    | nil => exact absurd rfl some
    | cons c digits => exact all c List.mem_cons_self
  have hex : at? (toLower · = 120) (x :: digits ++ rest) = true := decide_eq_true lower
  rw [integerPart, if_pos rfl, if_pos hex]
  change (if at? isHexDigit (digits ++ rest) then _ else _) = _
  rw [if_pos first]
  exact congrArg (fun left => Except.ok (NumberType.integer, left)) stop

theorem integerPart_digits (ends : EndsNumber rest) (all : ∀ x ∈ c :: digits, isDigit x = true)
    (zero : c = 48 → digits = []) :
    integerPart c (digits ++ rest) = .ok (.integer, rest) := by
  obtain ⟨digit, -, exponent, letter, -⟩ := ends.none
  by_cases leading : c = 48
  · obtain rfl := zero leading
    simp [integerPart, leading, letter, octalDigits_stop digit, exponent]
  · have first := all c List.mem_cons_self
    have stop := (takeWhile_stop (fun x member => all x (List.mem_cons_of_mem _ member)) digit).2
    simp [integerPart, leading, first, stop, exponent]

variable {left : Bytes}

theorem unsignedNumber_integer {start : Bytes} {och : UInt8} (ends : EndsNumber rest)
    (digit : isDigit och = true) (part : integerPart och left = .ok (.integer, rest)) :
    unsignedNumber d start och left =
      (.integerValue (clipToInt (strtol d.useOldClassAdSemantics
        (start.take (start.length - rest.length)))) .none, rest) := by
  have point : och ≠ 46 := by
    rintro rfl
    cases digit
  have factor := ends.none.2.2.2.2
  simp [unsignedNumber, part, point, ends.point, exponent, numberToken, factor]

theorem peekToken_number {lexer : Lexer} {negative : Bool} (consumed : lexer.tokenConsumed = true)
    (operand : negative = true → lexer.token.endsOperand = false) (digit : isDigit c = true)
    (input : lexer.input = (if negative then [45] else []) ++ c :: left) :
    lexer.peekToken d = some { lexer with
      input := (unsignedNumber d lexer.input c left).2
      token := (unsignedNumber d lexer.input c left).1
      tokenConsumed := false } := by
  obtain ⟨space, minus, -⟩ := not_isSpace_of_isDigit digit
  have plain : c ≠ 47 ∧ c ≠ 0 :=
    forall_byte (P := fun c => isDigit c = true → c ≠ 47 ∧ c ≠ 0) (by decide +kernel) c digit
  have skipped : skipBlanks .blanks lexer.input = .token lexer.input := by
    rw [input]
    cases negative with
    | true => rfl
    | false => simp [skipBlanks, space, plain.1]
  have token : tokenize d lexer.stepsBack lexer.token lexer.input =
      unsignedNumber d lexer.input c left := by
    rw [input]
    cases negative with
    | true =>
      have number :
          tokenizeNumber d 45 (c :: left) = unsignedNumber d (45 :: c :: left) c left := by
        simp [tokenizeNumber, digit]
      simpa [tokenize, operand rfl] using number
    | false => simp [tokenize, tokenizeNumber, plain.2, minus, digit]
  simp [Lexer.peekToken, consumed, skipped, token]

theorem strtol_literal (spells : radix.Spells text digits) (other : radix ≠ .octal)
    (negative : Bool) :
    strtol false ((if negative then [45] else []) ++ text) =
      if negative then -(numeral radix.base digits : Int) else numeral radix.base digits := by
  obtain ⟨c, left, rfl, digit⟩ : ∃ c left, text = c :: left ∧ isDigit c = true := by
    cases spells with
    | octal some all => exact ⟨_, _, rfl, rfl⟩
    | hex letter some all => exact ⟨_, _, rfl, rfl⟩
    | decimal all zero => exact ⟨_, _, rfl, all _ List.mem_cons_self⟩
  obtain ⟨-, minus, plus⟩ := not_isSpace_of_isDigit digit
  have sign : splitSign ((if negative then [45] else []) ++ c :: left) = (negative, c :: left) := by
    cases negative with
    | true => rfl
    | false => simp [splitSign, minus, plus]
  rw [strtol, sign]
  cases spells with
  | octal some all => exact absurd rfl other
  | hex letter some all =>
    have lower : ∀ x : UInt8, x = 120 ∨ x = 88 → toLower x = 120 := by
      rintro x (rfl | rfl) <;> rfl
    simp [lower _ letter, List.takeWhile_eq_self_iff.mpr all, Radix.base]
  | decimal all zero =>
    have whole := List.takeWhile_eq_self_iff.mpr all
    by_cases leading : c = 48
    · obtain rfl := zero leading
      simp only [whole, Radix.base]
    · simp [whole, Radix.base, leading]

/-- The integer literals that the lexer reads are the hexadecimal and the decimal ones. -/
theorem peekToken_integer_iff (d : Dialect) (new : d.useOldClassAdSemantics = false)
    (lexer : Lexer) (consumed : lexer.tokenConsumed = true) (negative : Bool)
    (operand : negative = true → lexer.token.endsOperand = false) (radix : Radix)
    (text digits rest : Bytes) (spells : radix.Spells text digits) (ends : EndsNumber rest)
    (input : lexer.input = (if negative then [45] else []) ++ text ++ rest) :
    (let value : Int := if negative then -numeral radix.base digits else numeral radix.base digits
    lexer.peekToken d = some { lexer with
      input := rest
      token := .integerValue (max (-2 ^ 31) (min (2 ^ 31 - 1) value)) .none
      tokenConsumed := false }) ↔ radix ≠ .octal := by
  have lexeme : lexer.input.take (lexer.input.length - rest.length) =
      (if negative then [45] else []) ++ text := by
    rw [input, List.length_append, Nat.add_sub_cancel, List.take_left]
  have value := strtol_literal spells
  cases spells with
  | octal some all =>
    rw [List.append_assoc, List.cons_append] at input
    rw [peekToken_number consumed operand rfl input, unsignedNumber,
      integerPart_octal ends some all]
    simp
  | hex letter some all =>
    rw [List.append_assoc, List.cons_append] at input
    rw [peekToken_number consumed operand rfl input,
      unsignedNumber_integer ends rfl (integerPart_hex ends letter some all), new, lexeme,
      value (by decide) negative]
    simp [clipToInt]
  | decimal all zero =>
    rw [List.append_assoc, List.cons_append] at input
    have digit := all _ List.mem_cons_self
    rw [peekToken_number consumed operand digit input,
      unsignedNumber_integer ends digit (integerPart_digits ends all zero), new, lexeme,
      value (by decide) negative]
    simp [clipToInt]

/-- `-0x1F,`. -/
theorem peekToken_integer_hex :
    Lexer.peekToken Dialect.plain ⟨ascii "-0x1F,", true, .comma, true⟩ =
      some ⟨ascii ",", true, .integerValue (-31) .none, false⟩ := by
  have spells : Radix.Spells .hex (ascii "0x1F") (ascii "1F") :=
    .hex (.inl rfl) (by decide) (by decide +kernel)
  exact (peekToken_integer_iff Dialect.plain rfl ⟨ascii "-0x1F,", true, .comma, true⟩ rfl true
    (fun _ => rfl) .hex _ _ (ascii ",") spells ⟨rfl, rfl⟩ rfl).mpr (by decide)

/-- `017`. -/
theorem peekToken_octal_error :
    Radix.Spells .octal (ascii "017") (ascii "17") ∧
      Lexer.peekToken Dialect.plain ⟨ascii "017", true, .comma, true⟩ =
        some ⟨[], true, .tokenError, false⟩ :=
  ⟨.octal (by decide) (by decide +kernel), rfl⟩

end Literals

end Condor.ClassAd
