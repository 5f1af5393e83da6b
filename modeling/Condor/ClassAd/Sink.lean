import Condor.ClassAd.Lexer

/-! `ClassAdUnParser::Unparse` of a string in new syntax, and the proof that the lexer reads the
printed text back as one token. -/
namespace Condor.ClassAd
open Condor.Utils

def isPrint (c : UInt8) : Bool := 32 ≤ c && c ≤ 126

/-- `%03o`. -/
def octalDigitsOf (c : UInt8) : Bytes := [48 + c / 64, 48 + c / 8 % 8, 48 + c % 8]

def backslashed (x : Char) : Bytes := [92, UInt8.ofNat x.toNat]

def escapeLetter (c : UInt8) : Option Char :=
  match c.toNat with
  | 7 => some 'a'
  | 8 => some 'b'
  | 12 => some 'f'
  | 10 => some 'n'
  | 13 => some 'r'
  | 9 => some 't'
  | 11 => some 'v'
  | 92 => some '\\'
  | _ => none

def escapeChar (delimiter c : UInt8) : Bytes :=
  if c = delimiter then if delimiter = 34 then backslashed '"' else backslashed '\''
  else
    match escapeLetter c with
    | some x => backslashed x
    | none => if isPrint c then [c] else 92 :: octalDigitsOf c

def unparseString (delimiter : UInt8) (s : Bytes) : Bytes :=
  [34] ++ s.flatMap (escapeChar delimiter) ++ [34]

inductive Escaped (delimiter c : UInt8) : Bytes → Prop
  | plain : c ≠ 92 → c ≠ delimiter → Escaped delimiter c [c]
  | letter {x : UInt8} : x ≠ 0 → isOctalDigit x = false → unescape x = c →
      Escaped delimiter c [92, x]
  | octal {x y z : UInt8} : isOctalDigit x = true → isOctalDigit y = true →
      isOctalDigit z = true → x ≤ 51 → numeral 8 [x, y, z] = c.toNat →
      Escaped delimiter c [92, x, y, z]

theorem forall_byte {P : UInt8 → Prop} (every : ∀ n : Fin 256, P (UInt8.ofNat n)) (c : UInt8) :
    P c := by
  have this := every ⟨c.toNat, c.toNat_lt⟩
  rwa [UInt8.ofNat_toNat] at this

theorem octalDigitsOf_value : ∀ c : UInt8,
    isOctalDigit (48 + c / 64) = true ∧ isOctalDigit (48 + c / 8 % 8) = true ∧
      isOctalDigit (48 + c % 8) = true ∧ 48 + c / 64 ≤ 51 ∧
      numeral 8 (octalDigitsOf c) = c.toNat :=
  forall_byte (by decide +kernel)

variable {c : UInt8}

theorem escapeLetter_value {x : Char} (letter : escapeLetter c = some x) :
    UInt8.ofNat x.toNat ≠ 0 ∧ isOctalDigit (UInt8.ofNat x.toNat) = false ∧
      unescape (UInt8.ofNat x.toNat) = c := by
  have every : ∀ c : UInt8, ((escapeLetter c).all fun x =>
      decide (UInt8.ofNat x.toNat ≠ 0) && !isOctalDigit (UInt8.ofNat x.toNat) &&
        decide (unescape (UInt8.ofNat x.toNat) = c)) = true := forall_byte (by decide +kernel)
  simpa [letter, and_assoc] using every c

variable {text after : Bytes}

theorem convertEscapes_escaped {delimiter : UInt8} (escaped : Escaped delimiter c text)
    (notNul : c ≠ 0) (rest : Bytes) :
    convertEscapes (text ++ rest) = (convertEscapes rest).map (c :: ·) := by
  cases escaped with
  | plain backslash quote =>
    rw [List.singleton_append, convertEscapes.eq_def]
    simp [backslash]
  | letter nonzero digit value =>
    rw [List.cons_append, List.singleton_append, convertEscapes.eq_def]
    simp [digit, value]
  | octal x y z small value =>
    have nonzero : c.toNat ≠ 0 := fun h => notNul (UInt8.toNat_inj.mp h)
    simp only [List.cons_append, List.nil_append]
    rw [convertEscapes.eq_def]
    simp [x, y, z, small, octalChar, value, nonzero]

/-- Behind the closing delimiter white space is read, up to a character that is not the
opening delimiter of another literal. -/
theorem stringText_after {delimiter : UInt8}
    (apart : at? (· = delimiter) (after.dropWhile isSpace) = false) :
    stringText delimiter none after = (some [], after.dropWhile isSpace) := by
  induction after with
  | nil => rfl
  | cons c after ih =>
    by_cases space : isSpace c = true
    · rw [List.dropWhile_cons_of_pos space] at apart ⊢
      simp [stringText, space, ih apart]
    · rw [List.dropWhile_cons_of_neg space] at apart ⊢
      have other : c ≠ delimiter := by simpa [at?] using apart
      simp [stringText, space, other]

section Delimited
variable {delimiter : UInt8} (quote : delimiter = 34 ∨ delimiter = 39)
include quote

theorem escapeChar_escaped (c : UInt8) : Escaped delimiter c (escapeChar delimiter c) := by
  unfold escapeChar
  by_cases same : c = delimiter
  · rw [if_pos same]
    rcases quote with rfl | rfl
    · exact .letter (by decide) (by decide) same.symm
    · exact .letter (by decide) (by decide) same.symm
  rw [if_neg same]
  cases letter : escapeLetter c with
  | some x =>
    obtain ⟨nonzero, digit, value⟩ := escapeLetter_value letter
    exact .letter nonzero digit value
  | none =>
    have backslash : c ≠ 92 := by
      rintro rfl
      exact Option.some_ne_none _ letter
    obtain ⟨x, y, z, small, value⟩ := octalDigitsOf_value c
    cases isPrint c with
    | true => exact .plain backslash same
    | false => exact .octal x y z small value

theorem stringText_escaped (escaped : Escaped delimiter c text) (notNul : c ≠ 0) (rest : Bytes) :
    stringText delimiter (some false) (text ++ rest) =
      ((stringText delimiter (some false) rest).1.map (text ++ ·),
        (stringText delimiter (some false) rest).2) := by
  -- Behind a backslash `odd` is set for one character only; no escape ends in a backslash.
  have digit : ∀ {x : UInt8}, isOctalDigit x = true → x ≠ 0 ∧ x ≠ delimiter ∧ x ≠ 92 := by
    intro x octal
    rcases quote with rfl | rfl <;>
      refine ⟨?_, ?_, ?_⟩ <;> rintro rfl <;> revert octal <;> decide
  have other : (92 : UInt8) ≠ delimiter := by
    rcases quote with rfl | rfl <;> decide
  cases escaped with
  | plain backslash quote => simp [stringText, notNul, quote, backslash]
  | letter nonzero octal value => simp [stringText, nonzero, other, Function.comp_def]
  | octal x y z small value =>
    simp [stringText, digit x, digit y, digit z, other, Function.comp_def]

variable {s : Bytes}

theorem convertEscapes_flatMap (nulFree : 0 ∉ s) :
    convertEscapes (s.flatMap (escapeChar delimiter)) = some s := by
  induction s with
  | nil => rfl
  | cons c s ih =>
    rw [List.mem_cons, not_or] at nulFree
    rw [List.flatMap_cons,
      convertEscapes_escaped (escapeChar_escaped quote c) (Ne.symm nulFree.1),
      ih nulFree.2, Option.map_some]

theorem stringText_flatMap (nulFree : 0 ∉ s) (rest : Bytes) :
    stringText delimiter (some false) (s.flatMap (escapeChar delimiter) ++ rest) =
      ((stringText delimiter (some false) rest).1.map (s.flatMap (escapeChar delimiter) ++ ·),
        (stringText delimiter (some false) rest).2) := by
  induction s with
  | nil => simp
  | cons c s ih =>
    rw [List.mem_cons, not_or] at nulFree
    rw [List.flatMap_cons, List.append_assoc,
      stringText_escaped quote (escapeChar_escaped quote c) (Ne.symm nulFree.1), ih nulFree.2]
    simp [Function.comp_def]

theorem tokenizeString_flatMap (nulFree : 0 ∉ s)
    (apart : at? (· = delimiter) (after.dropWhile isSpace) = false) :
    tokenizeString delimiter (s.flatMap (escapeChar delimiter) ++ delimiter :: after) =
      (if delimiter = 34 then .stringValue s else .identifier s, after.dropWhile isSpace) := by
  have nonzero : delimiter ≠ 0 := by
    rcases quote with rfl | rfl <;> decide
  have closing : stringText delimiter (some false) (delimiter :: after) =
      (some [], after.dropWhile isSpace) := by
    simp [stringText, nonzero, stringText_after apart]
  simp [tokenizeString, stringText_flatMap quote nulFree, closing,
    convertEscapes_flatMap quote nulFree]

end Delimited

/-- A printed string is lexed as one string token. It ends with the closing quote: what is
left is the text that follows, from its first character that is not blank. -/
theorem peekToken_unparseString (d : Dialect) (lexer : Lexer) (s after : Bytes) (nulFree : 0 ∉ s)
    (apart : starts '"' (after.dropWhile isSpace) = false)
    (consumed : lexer.tokenConsumed = true)
    (ahead : lexer.input = unparseString 34 s ++ after) :
    lexer.peekToken d =
      some { lexer with
        input := after.dropWhile isSpace, token := .stringValue s, tokenConsumed := false } := by
  have text : lexer.input = 34 :: (s.flatMap (escapeChar 34) ++ 34 :: after) := by
    rw [ahead]
    simp [unparseString]
  have token : tokenizeString 34 (s.flatMap (escapeChar 34) ++ 34 :: after) =
      (.stringValue s, after.dropWhile isSpace) :=
    tokenizeString_flatMap (.inl rfl) nulFree apart
  have skipped : skipBlanks .blanks lexer.input = .token lexer.input := by
    rw [text]
    rfl
  simp only [Lexer.peekToken, consumed, skipped, Bool.not_true, Bool.false_eq_true, ↓reduceIte]
  rw [text]
  have first : tokenize d lexer.stepsBack lexer.token
      (34 :: (s.flatMap (escapeChar 34) ++ 34 :: after)) =
      tokenizeString 34 (s.flatMap (escapeChar 34) ++ 34 :: after) := rfl
  rw [first, token]

/-- A string with a quote, a backslash, a digit behind a control character and a byte above 127. -/
theorem peekToken_unparseString_mixed :
    (Lexer.mk (unparseString 34 [34, 92, 1, 55, 200] ++ ascii " ;") true .equal true).peekToken
        .plain =
      some ⟨ascii ";", true, .stringValue [34, 92, 1, 55, 200], false⟩ :=
  peekToken_unparseString .plain _ [34, 92, 1, 55, 200] (ascii " ;") (by decide) (by decide) rfl rfl

end Condor.ClassAd
