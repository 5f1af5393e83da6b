import Mathlib.Data.List.Infix
import Condor.Utils.Stdio

/-! `StringList::contains_withwildcard`. An entry may have an asterisk in it, or one at its start
and one at its end. The parts before and behind an asterisk are looked for in the same string, so
they may overlap there. -/
namespace Condor.Utils.StringList
open Condor.Utils

def asterisk : UInt8 := 42

def folded (anycase : Bool) (s : Bytes) : Bytes := if anycase then s.map toLower else s

/-- `strcmp` or `strcasecmp` returning zero. -/
def same (anycase : Bool) (s t : Bytes) : Bool := folded anycase s = folded anycase t

/-- `strncmp` or `strncasecmp` returning zero for the length of the first string. -/
def startsWith (anycase : Bool) (start string : Bytes) : Bool :=
  (folded anycase start).isPrefixOf (folded anycase string)

/-- Whether `strstr` or `strcasestr` finds the second string. -/
def hasInside (anycase : Bool) (string part : Bytes) : Bool :=
  (folded anycase string).tails.any (folded anycase part).isPrefixOf

/-- The comparison with what stands at the end of the string, if it is long enough. -/
def endsWith (anycase : Bool) (string matchend : Bytes) : Bool :=
  if matchend.length > string.length then false
  else same anycase (string.drop (string.length - matchend.length)) matchend

def entryMatches (anycase : Bool) (string x : Bytes) : Bool :=
  if asterisk ∉ x then same anycase x string
  else
    let first := x.idxOf asterisk
    if first = 0 then
      -- `strrchr` finds another asterisk, and it is the last character
      if x.length ≠ 1 ∧ x.getLast? = some asterisk then hasInside anycase string x.tail.dropLast
      else endsWith anycase string x.tail
    else if first + 1 = x.length then startsWith anycase (x.take first) string
    else
      startsWith anycase (x.take first) string && endsWith anycase string (x.drop (first + 1))

/-- `contains_withwildcard` without a list of matches: the first entry that matches. -/
def containsWithwildcard (strings : List Bytes) (string : Bytes) (anycase : Bool) : Option Bytes :=
  strings.find? (entryMatches anycase string)

variable {anycase : Bool} {string p q : Bytes}

theorem folded_append (s t : Bytes) :
    folded anycase (s ++ t) = folded anycase s ++ folded anycase t := by
  unfold folded
  split
  · exact List.map_append
  · rfl

theorem length_folded (s : Bytes) : (folded anycase s).length = s.length := by
  unfold folded
  split
  · exact List.length_map _
  · rfl

theorem folded_drop (n : Nat) (s : Bytes) :
    folded anycase (s.drop n) = (folded anycase s).drop n := by
  unfold folded
  split
  · exact List.map_drop
  · rfl

/-- Every part of a folded string is a folded part of it. -/
theorem exists_of_folded_eq {s a b c : Bytes} (parts : folded anycase s = a ++ b ++ c) :
    ∃ s₁ s₂ s₃, s = s₁ ++ s₂ ++ s₃ ∧ folded anycase s₁ = a ∧ folded anycase s₂ = b ∧
      folded anycase s₃ = c := by
  cases anycase with
  | false => exact ⟨a, b, c, parts, rfl, rfl, rfl⟩
  | true =>
    obtain ⟨s₁₂, s₃, rfl, front, last⟩ := List.map_eq_append_iff.mp parts
    obtain ⟨s₁, s₂, rfl, first, middle⟩ := List.map_eq_append_iff.mp front
    exact ⟨s₁, s₂, s₃, rfl, first, middle, last⟩

theorem startsWith_iff (start : Bytes) :
    startsWith anycase start string = true ↔ folded anycase start <+: folded anycase string :=
  List.isPrefixOf_iff_prefix

theorem hasInside_iff (part : Bytes) :
    hasInside anycase string part = true ↔ folded anycase part <:+: folded anycase string := by
  rw [hasInside, List.any_eq_true]
  constructor
  · rintro ⟨tail, member, starts⟩
    exact ( List.isPrefixOf_iff_prefix.mp starts).isInfix.trans
      ((List.mem_tails _ _).mp member).isInfix
  · rintro ⟨before, after, split⟩
    refine ⟨folded anycase part ++ after, (List.mem_tails _ _).mpr ⟨before, ?_⟩, ?_⟩
    · rw [← List.append_assoc]
      exact split
    · exact List.isPrefixOf_iff_prefix.mpr ⟨after, rfl⟩

theorem endsWith_iff (matchend : Bytes) :
    endsWith anycase string matchend = true ↔
      folded anycase matchend <:+ folded anycase string := by
  unfold endsWith
  split
  · next long =>
      refine iff_of_false Bool.false_ne_true fun ends => ?_
      have bound := ends.length_le
      rw [length_folded, length_folded] at bound
      omega
  · rw [same, decide_eq_true_eq, folded_drop, List.suffix_iff_eq_drop, length_folded,
      length_folded]
    exact eq_comm

/-- An entry with one asterisk: its two parts are looked for separately. -/
theorem entryMatches_one (plainP : asterisk ∉ p) (plainQ : asterisk ∉ q) :
    entryMatches anycase string (p ++ asterisk :: q) = true ↔
      folded anycase p <+: folded anycase string ∧
        folded anycase q <:+ folded anycase string := by
  have inside : ¬asterisk ∉ p ++ asterisk :: q := not_not.mpr (by simp)
  have first : (p ++ asterisk :: q).idxOf asterisk = p.length := by
    rw [List.idxOf_append_of_notMem plainP, List.idxOf_cons_self, Nat.add_zero]
  simp only [entryMatches, if_neg inside, first]
  cases p with
  | nil =>
    have single : ¬((asterisk :: q).length ≠ 1 ∧ (asterisk :: q).getLast? = some asterisk) := by
      rintro ⟨long, last⟩
      cases q with
      | nil => exact long rfl
      | cons b q =>
        rw [List.getLast?_cons_cons] at last
        exact plainQ (List.mem_of_getLast? last)
    rw [if_pos (by rfl), List.nil_append, if_neg single, List.tail_cons, endsWith_iff]
    exact (and_iff_right (by unfold folded; split <;> exact List.nil_prefix)).symm
  | cons b p =>
    have split : ((b :: p) ++ asterisk :: q).drop ((b :: p).length + 1) = q := by
      rw [List.drop_append, Nat.add_sub_cancel_left, List.drop_eq_nil_of_le (Nat.le_succ _)]
      rfl
    rw [if_neg (by simp), List.take_left, ← startsWith_iff]
    cases q with
    | nil =>
      rw [if_pos (by simp)]
      exact (and_iff_left (by unfold folded; split <;> exact List.nil_suffix)).symm
    | cons b' q =>
      rw [if_neg (by simp), Bool.and_eq_true, ← endsWith_iff]
      exact Iff.of_eq (congrArg (_ ∧ endsWith anycase string · = true) split)

theorem entryMatches_both (r : Bytes) :
    entryMatches anycase string (asterisk :: r ++ [asterisk]) = true ↔
      folded anycase r <:+: folded anycase string := by
  have inside : ¬asterisk ∉ asterisk :: r ++ [asterisk] := not_not.mpr (by simp)
  have first : (asterisk :: r ++ [asterisk]).idxOf asterisk = 0 := List.idxOf_cons_self
  have both : (asterisk :: r ++ [asterisk]).length ≠ 1 ∧
      (asterisk :: r ++ [asterisk]).getLast? = some asterisk :=
    ⟨by simp, List.getLast?_concat⟩
  have middle : (asterisk :: r ++ [asterisk]).tail.dropLast = r := by
    rw [List.cons_append, List.tail_cons, List.dropLast_concat]
  simp only [entryMatches, if_neg inside, first, if_true, if_pos both, middle]
  exact hasInside_iff r

theorem containsWithwildcard_singleton (x : Bytes) :
    (containsWithwildcard [x] string anycase).isSome = entryMatches anycase string x := by
  rw [containsWithwildcard, List.find?_singleton]
  cases entryMatches anycase string x <;> rfl

/-- The two parts of an entry are found in the string but do not fit into it together. -/
def Overlaps (anycase : Bool) (string p q : Bytes) : Prop :=
  startsWith anycase p string = true ∧ endsWith anycase string q = true ∧
    string.length < p.length + q.length

/-- Matching an entry with one asterisk is exact except where its parts overlap, and matching
one with two asterisks always is. -/
theorem containsWithwildcard_exact_iff (anycase : Bool) (string r : Bytes)
    (plainP : asterisk ∉ p) (plainQ : asterisk ∉ q) :
    (((containsWithwildcard [p ++ asterisk :: q] string anycase).isSome = true ↔
      ∃ w, same anycase string (p ++ w ++ q) = true) ↔ ¬Overlaps anycase string p q) ∧
    ((containsWithwildcard [asterisk :: r ++ [asterisk]] string anycase).isSome = true ↔
      ∃ w w', same anycase string (w ++ r ++ w') = true) := by
  simp only [containsWithwildcard_singleton, entryMatches_one plainP plainQ, entryMatches_both,
    Overlaps, startsWith_iff, endsWith_iff, same, decide_eq_true_eq, folded_append]
  constructor
  · constructor
    · rintro exactly ⟨starts, ends, short⟩
      obtain ⟨w, parts⟩ := exactly.mp ⟨starts, ends⟩
      have total := congrArg List.length parts
      simp only [List.length_append, length_folded] at total
      omega
    · intro apart
      constructor
      · rintro ⟨⟨after, starts⟩, ends⟩
        have room : p.length + q.length ≤ string.length :=
          not_lt.mp fun short => apart ⟨⟨after, starts⟩, ends, short⟩
        -- the end lies in what follows the start
        have rest : folded anycase q <:+ after := by
          refine List.suffix_of_suffix_length_le ends ⟨folded anycase p, starts⟩ ?_
          have total := congrArg List.length starts
          simp only [List.length_append, length_folded] at total ⊢
          omega
        obtain ⟨w, rfl⟩ := rest
        obtain ⟨-, w, -, -, -, same, -⟩ := exists_of_folded_eq
          (starts.symm.trans (List.append_assoc _ _ _).symm)
        exact ⟨w, by rw [same, List.append_assoc, starts]⟩
      · rintro ⟨w, parts⟩
        rw [parts]
        exact ⟨⟨_, (List.append_assoc _ _ _).symm⟩, ⟨_, rfl⟩⟩
  · constructor
    · rintro ⟨before, after, parts⟩
      obtain ⟨w, -, w', -, first, -, last⟩ := exists_of_folded_eq parts.symm
      exact ⟨w, w', by rw [first, last, parts]⟩
    · rintro ⟨w, w', parts⟩
      rw [parts]
      exact ⟨_, _, rfl⟩

theorem containsWithwildcard_exact_iff_host :
    (((containsWithwildcard [ascii "ppp" ++ asterisk :: ascii ".edu"] (ascii "PPPmiron.edu")
        true).isSome = true ↔
      ∃ w, same true (ascii "PPPmiron.edu") (ascii "ppp" ++ w ++ ascii ".edu") = true) ↔
      ¬Overlaps true (ascii "PPPmiron.edu") (ascii "ppp") (ascii ".edu")) ∧
    ((containsWithwildcard [asterisk :: ascii "miron" ++ [asterisk]] (ascii "PPPmiron.edu")
        true).isSome = true ↔
      ∃ w w', same true (ascii "PPPmiron.edu") (w ++ ascii "miron" ++ w') = true) :=
  containsWithwildcard_exact_iff true (ascii "PPPmiron.edu") (ascii "miron") (by decide) (by decide)

/-- `ab*bc` matches `abc`. -/
theorem overlapping_parts_match :
    (containsWithwildcard [ascii "ab*bc"] (ascii "abc") false).isSome = true ∧
      ¬∃ w, ascii "abc" = ascii "ab" ++ w ++ ascii "bc" := by
  refine ⟨by decide +kernel, ?_⟩
  rintro ⟨w, parts⟩
  have total := congrArg List.length parts
  simp [ascii] at total

end Condor.Utils.StringList
