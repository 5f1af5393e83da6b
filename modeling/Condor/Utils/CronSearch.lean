import Mathlib.Order.Lattice
import Mathlib.Tactic.IntervalCases
import Condor.Utils.CronTab

/-! The search goes on from year to year without a bound. It ends exactly if some month of the
schedule has one of its days, in a leap year at least, and the hours and the minutes are not empty.
-/
namespace Condor.Utils.CronTab
open Condor.Utils

/-! ## The values of the fields -/

variable {sorted list : List Int} {v min max : Int} {n : Nat} {a b found d : Date} {useFirst : Bool}
variable {value year month : Int} {token : Bytes} {le : Date → Date → Prop}

@[simp] theorem mem_insertValue :
    v ∈ insertValue sorted value ↔ v = value ∨ v ∈ sorted := by
  have split : v ∈ sorted ↔
      v ∈ sorted.rdropWhile (· > value) ∨ v ∈ sorted.rtakeWhile (· > value) := by
    rw [← List.mem_append, List.rdropWhile_append_rtakeWhile]
  rw [insertValue, List.mem_append, List.mem_cons, split]
  tauto

theorem mem_foldl_insertValue : v ∈ list.foldl insertValue sorted ↔ v ∈ sorted ∨ v ∈ list := by
  induction list generalizing sorted with
  | nil => simp
  | cons value list ih =>
    rw [List.foldl_cons, ih, mem_insertValue, List.mem_cons]
    tauto

@[simp] theorem mem_sort : v ∈ sort list ↔ v ∈ list := by
  simp [sort, mem_foldl_insertValue]

/-- What the values of a field are. -/
structure Within (idx : Nat) (min max v : Int) : Prop where
  least : min ≤ v
  greatest : v ≤ max
  weekday : idx = dowIdx → v < dayOfWeekMax

variable {idx : Nat}

theorem bounds_within {curMin curMax : Int}
    (selected : bounds idx min max token = some (curMin, curMax)) :
    min ≤ curMin ∧ curMax ≤ max := by
  unfold bounds at selected
  split at selected
  · simp only [Option.some.injEq, Prod.mk.injEq] at selected
    obtain ⟨first, last⟩ := selected
    constructor
    · split at first <;> omega
    · split at last <;> omega
  · split at selected
    · split at selected
      · cases selected
      · cases selected
        exact ⟨le_rfl, le_rfl⟩
    · dsimp only at selected
      split at selected
      · rename_i inside
        cases selected
        exact inside
      · cases selected
        exact ⟨le_rfl, le_rfl⟩

theorem normalize_within {ctr : Int} (least : min ≤ ctr) (greatest : ctr ≤ max)
    (sunday : idx = dowIdx → min = dayOfWeekMin ∧ max = dayOfWeekMax) :
    Within idx min max (normalize idx ctr) := by
  unfold normalize
  split
  · rename_i seven
    obtain ⟨rfl, rfl⟩ := sunday seven.1
    exact ⟨le_rfl, by decide, fun _ => by decide⟩
  · rename_i other
    refine ⟨least, greatest, fun isDow => ?_⟩
    have := (sunday isDow).2
    have notSeven : ctr ≠ dayOfWeekMax := fun seven => other ⟨isDow, seven⟩
    omega

structure Filled (idx : Nat) (min max : Int) (list : List Int) : Prop where
  nodup : list.Nodup
  within : ∀ v ∈ list, Within idx min max v

theorem fill_within {curStep : Int}
    (sunday : idx = dowIdx → min = dayOfWeekMin ∧ max = dayOfWeekMax) :
    ∀ (count : Nat) {ctr : Int} {list filled : List Int}, min ≤ ctr → ctr + count ≤ max + 1 →
      Filled idx min max list → fill idx curStep count ctr list = some filled →
      Filled idx min max filled
  | 0, ctr, list, filled, _, _, before, filling => by
    cases filling
    exact before
  | count + 1, ctr, list, filled, least, greatest, before, filling => by
    have new := normalize_within least (by omega : ctr ≤ max) sunday
    unfold fill at filling
    split at filling
    · cases filling
    · dsimp only at filling
      split at filling
      · next added =>
          refine fill_within sunday count (by omega) (by omega) ⟨?_, ?_⟩ filling
          · refine List.nodup_append.mpr ⟨before.nodup, List.pairwise_singleton _ _, ?_⟩
            rintro v old w member rfl
            exact added.2 (List.mem_singleton.mp member ▸ old)
          · intro v member
            rcases List.mem_append.mp member with old | member
            · exact before.within v old
            · rw [List.mem_singleton.mp member]
              exact new
      · exact fill_within sunday count (by omega) (by omega) before filling

theorem expandToken_within {expanded : List Int}
    (sunday : idx = dowIdx → min = dayOfWeekMin ∧ max = dayOfWeekMax)
    (before : Filled idx min max list)
    (expanding : expandToken idx min max list token = some expanded) :
    Filled idx min max expanded := by
  unfold expandToken at expanding
  dsimp only at expanding
  split at expanding
  · cases expanding
    exact before
  · rename_i curMin curMax selected
    obtain ⟨least, greatest⟩ := bounds_within selected
    by_cases empty : curMax < curMin
    · rw [Int.toNat_of_nonpos (by omega : curMax - curMin + 1 ≤ 0)] at expanding
      cases expanding
      exact before
    · exact fill_within sunday _ least (by omega) before expanding

theorem foldlM_expandToken_within (sunday : idx = dowIdx → min = dayOfWeekMin ∧ max = dayOfWeekMax)
    :
    ∀ (words : List Bytes) {list expanded : List Int}, Filled idx min max list →
      words.foldlM (expandToken idx min max) list = some expanded → Filled idx min max expanded
  | [], list, expanded, before, expanding => by
    cases expanding
    exact before
  | token :: words, list, expanded, before, expanding => by
    rw [List.foldlM_cons, Option.bind_eq_bind, Option.bind_eq_some_iff] at expanding
    obtain ⟨middle, first, rest⟩ := expanding
    exact foldlM_expandToken_within sunday words (expandToken_within sunday before first) rest

theorem insertValue_sorted (increasing : sorted.Pairwise (· < ·)) (new : value ∉ sorted) :
    (insertValue sorted value).Pairwise (· < ·) := by
  rw [← List.rdropWhile_append_rtakeWhile (p := (· > value)) (l := sorted)] at increasing new
  obtain ⟨lower, upper, across⟩ := List.pairwise_append.mp increasing
  have above : ∀ v ∈ sorted.rtakeWhile (· > value), value < v := fun v member => by
    simpa using List.mem_rtakeWhile_imp member
  have below : ∀ v ∈ sorted.rdropWhile (· > value), v < value := by
    intro v member
    have last := List.rdropWhile_last_not (· > value) sorted (List.ne_nil_of_mem member)
    have bound : v ≤ (sorted.rdropWhile (· > value)).getLast (List.ne_nil_of_mem member) := by
      rw [← List.dropLast_append_getLast (List.ne_nil_of_mem member)] at lower member
      rcases List.mem_append.mp member with before | same
      · exact ((List.pairwise_append.mp lower).2.2 v before _ (List.mem_singleton_self _)).le
      · exact (List.mem_singleton.mp same).le
    have other : v ≠ value := by
      rintro rfl
      exact new (List.mem_append_left _ member)
    rw [decide_eq_true_eq] at last
    omega
  refine List.pairwise_append.mpr ⟨lower, List.pairwise_cons.mpr ⟨above, upper⟩, ?_⟩
  intro v early w late
  rcases List.mem_cons.mp late with rfl | late
  · exact below v early
  · exact (below v early).trans (above w late)

theorem sort_sorted (nodup : list.Nodup) : (sort list).Pairwise (· < ·) := by
  suffices grown : ∀ (list sorted : List Int), sorted.Pairwise (· < ·) → (sorted ++ list).Nodup →
      (list.foldl insertValue sorted).Pairwise (· < ·) from grown list [] .nil nodup
  intro list
  induction list with
  | nil => exact fun sorted increasing _ => increasing
  | cons value list ih =>
    intro sorted increasing nodup
    have new : value ∉ sorted := fun old =>
      (List.nodup_append.mp nodup).2.2 value old value List.mem_cons_self rfl
    refine ih _ (insertValue_sorted increasing new) ?_
    refine List.nodup_append.mpr ⟨?_, (List.nodup_cons.mp (List.nodup_append.mp nodup).2.1).2, ?_⟩
    · exact (insertValue_sorted increasing new).imp fun below => ne_of_lt below
    · rintro v member w late rfl
      rcases mem_insertValue.mp member with rfl | old
      · exact (List.nodup_cons.mp (List.nodup_append.mp nodup).2.1).1 late
      · exact (List.nodup_append.mp nodup).2.2 v old v (List.mem_cons_of_mem _ late) rfl

theorem expandParameter_within {param : Bytes} {valid : Bool}
    (expanding : expandParameter idx (mins idx) (maxs idx) param = some (valid, list)) :
    list.Pairwise (· < ·) ∧ ∀ v ∈ list, Within idx (mins idx) (maxs idx) v := by
  unfold expandParameter at expanding
  split at expanding
  · simp only [Option.bind_eq_bind, Option.pure_def, Option.bind_eq_some_iff, Option.some.injEq,
      Prod.mk.injEq] at expanding
    obtain ⟨unsorted, words, -, rfl⟩ := expanding
    have filled := foldlM_expandToken_within (by
      rintro rfl
      exact ⟨rfl, rfl⟩) _ ⟨.nil, fun _ none => absurd none List.not_mem_nil⟩ words
    exact ⟨sort_sorted filled.nodup, fun v member => filled.within v (mem_sort.mp member)⟩
  · cases expanding
    exact ⟨.nil, fun _ none => absurd none List.not_mem_nil⟩

theorem getElem?_mapM {α β : Type*} {f : α → Option β} :
    ∀ {as : List α} {bs : List β}, as.mapM f = some bs → ∀ {i : Nat} {a : α}, as[i]? = some a →
      ∃ b, bs[i]? = some b ∧ f a = some b
  | [], _, _, _, _, absent => by simp at absent
  | a :: as, bs, mapped, i, a', at_i => by
    simp only [List.mapM_cons, Option.bind_eq_bind, Option.pure_def, Option.bind_eq_some_iff,
      Option.some.injEq] at mapped
    obtain ⟨b, first, bs', rest, rfl⟩ := mapped
    cases i with
    | zero =>
      cases at_i
      exact ⟨b, rfl, first⟩
    | succ i => exact getElem?_mapM rest at_i

variable {cron : CronTab}

theorem init_within {parameters : Nat → Bytes}
    (built : init parameters = some cron) (inside : idx < fieldCount) :
    (cron.range idx).Pairwise (· < ·) ∧
      ∀ v ∈ cron.range idx, Within idx (mins idx) (maxs idx) v := by
  simp only [init, Option.bind_eq_bind, Option.pure_def, Option.bind_eq_some_iff,
    Option.some.injEq] at built
  obtain ⟨expanded, expanding, rfl⟩ := built
  obtain ⟨⟨valid, list⟩, at_idx, field⟩ :=
    getElem?_mapM expanding (List.getElem?_range inside)
  have same : CronTab.range ⟨expanded.map (·.2), invalid, expanded.all (·.1)⟩ idx = list := by
    simp [range, at_idx]
  rw [same]
  exact expandParameter_within field

/-! ## The calendar -/

theorem daysInMonth_le (month year : Int) : daysInMonth month year ≤ daysInMonth month 2000 := by
  unfold daysInMonth
  split
  · have leapYear : leap 2000 = true := by decide
    rw [leapYear]
    split <;> split <;> simp_all
  · exact le_rfl

theorem daysInMonth_of_leap (leapYear : leap year = true) (month : Int) :
    daysInMonth month year = daysInMonth month 2000 := by
  have : leap 2000 = true := by decide
  simp only [daysInMonth, leapYear, this]

theorem twentyEight_le_daysInMonth (first : 1 ≤ month) (last : month ≤ 12) (year : Int) :
    28 ≤ daysInMonth month year := by
  have table : 28 ≤ ([0, 31, 28, 31, 30, 31, 30, 31, 31, 30, 31, 30, 31] : List Int).getD
      month.toNat 0 := by
    obtain ⟨m, rfl⟩ := Int.eq_ofNat_of_zero_le (by omega : 0 ≤ month)
    have small : m ≤ 12 := by omega
    interval_cases m <;> simp_all
  rw [daysInMonth, if_pos ⟨by omega, last⟩]
  split <;> omega

theorem exists_leap (year : Int) : ∃ k : Nat, leap (year + (k + 1)) = true := by
  obtain ⟨k, century⟩ : ∃ k : Nat, (400 : Int) ∣ year + (k + 1) :=
    ⟨(399 - year % 400).toNat, by omega⟩
  exact ⟨k, by simp [leap, Int.tmod_eq_zero_of_dvd century]⟩

/-! ## The days of a month -/

theorem mem_addWeekday : ∀ (count : Nat) {day : Int} {curRange : List Int},
    dayOfMonthMax + 1 - day ≤ count →
    (v ∈ addWeekday count day curRange ↔ v ∈ curRange ∨
      0 < v ∧ v ≤ dayOfMonthMax ∧ day ≤ v ∧ (v - day) % 7 = 0) := by
  intro count
  induction count with
  | zero =>
    intro day curRange enough
    rw [addWeekday]
    grind
  | succ count ih =>
    intro day curRange enough
    rw [addWeekday]
    split
    · next inside =>
        -- the first of the days is the one that this pass adds
        have first : (0 < v ∧ v ≤ dayOfMonthMax ∧ day ≤ v ∧ (v - day) % 7 = 0) ↔ v = day ∧ 0 < v ∨
            0 < v ∧ v ≤ dayOfMonthMax ∧ day + 7 ≤ v ∧ (v - (day + 7)) % 7 = 0 := by
          omega
        rw [ih (by omega), first]
        grind
    · grind

theorem mem_foldl_addWeekday {firstDay : Int} (dow : List Int) {curRange : List Int} :
    (v ∈ dow.foldl (fun curRange weekday =>
        addWeekday (dayOfMonthMax + 1 - (weekday - firstDay + 1)).toNat (weekday - firstDay + 1)
          curRange) curRange) ↔ v ∈ curRange ∨ ∃ weekday ∈ dow, 0 < v ∧ v ≤ dayOfMonthMax ∧
      weekday - firstDay + 1 ≤ v ∧ (v - (weekday - firstDay + 1)) % 7 = 0 := by
  induction dow generalizing curRange with
  | nil => simp
  | cons weekday dow ih =>
    rw [List.foldl_cons, ih, mem_addWeekday _ (Int.self_le_toNat _), List.exists_mem_cons_iff,
      or_assoc]

/-- The days of a month: those of the schedule unless they are all days and only the weekdays
restrict, and those of the weekdays. -/
theorem mem_dayRange : v ∈ cron.dayRange month year ↔
    v ∈ cron.range domIdx ∧ ((cron.range domIdx).length = dayOfMonthMax →
      (cron.range dowIdx).length = dayOfWeekMax ∨ (cron.range dowIdx).length = 0) ∨
    ∃ weekday ∈ cron.range dowIdx, 0 < v ∧ v ≤ dayOfMonthMax ∧
      weekday - dayOfWeek month 1 year + 1 ≤ v ∧
      (v - (weekday - dayOfWeek month 1 year + 1)) % 7 = 0 := by
  rw [dayRange, mem_sort, mem_foldl_addWeekday]
  refine or_congr_left ?_
  split
  · next all =>
      split
      · next rest => exact ⟨fun member => ⟨member, fun _ => rest⟩, And.left⟩
      · next rest =>
          exact ⟨fun none => absurd none List.not_mem_nil, fun listed => (rest (listed.2 all)).elim⟩
  · next some => exact ⟨fun member => ⟨member, fun all => (some all).elim⟩, And.left⟩

theorem dayOfWeek_bounds (month day year : Int) :
    -7 < dayOfWeek month day year ∧ dayOfWeek month day year < 7 := by
  have small : ∀ n : Int, -7 < n.tmod 7 ∧ n.tmod 7 < 7 := by
    intro n
    rw [Int.tmod_eq_emod]
    split <;> omega
  exact small _

theorem mem_dayRange_of_dow_empty (anyWeekday : cron.range dowIdx = [])
    (month year v : Int) : v ∈ cron.dayRange month year ↔ v ∈ cron.range domIdx := by
  simp [mem_dayRange, anyWeekday]

/-- The first day of the month on a weekday is one of its first thirteen days, also
where the remainder of a negative year is negative. -/
theorem exists_dayRange_of_dow (someWeekday : cron.range dowIdx ≠ [])
    (weekdays : ∀ v ∈ cron.range dowIdx, 0 ≤ v ∧ v < 7) (month year : Int) :
    ∃ v ∈ cron.dayRange month year, v ≤ 13 := by
  obtain ⟨weekday, member⟩ := List.exists_mem_of_ne_nil _ someWeekday
  have range := weekdays weekday member
  have firstDay := dayOfWeek_bounds month 1 year
  have isMax : dayOfMonthMax = 31 := rfl
  by_cases positive : 0 < weekday - dayOfWeek month 1 year + 1
  · exact ⟨_, mem_dayRange.mpr (.inr ⟨weekday, member, positive, by omega, le_rfl, by omega⟩),
      by omega⟩
  · exact ⟨weekday - dayOfWeek month 1 year + 1 + 7, mem_dayRange.mpr (.inr ⟨weekday, member,
      by omega, by omega, by omega, by omega⟩), by omega⟩

/-! ## The search within a year -/

def AgreeFrom (n : Nat) (a b : Date) : Prop := ∀ j, n ≤ j → a j = b j

theorem AgreeFrom.refl (found : Date) : AgreeFrom n found found := fun _ _ => rfl

theorem AgreeFrom.symm (agree : AgreeFrom n a b) : AgreeFrom n b a :=
  fun j above => (agree j above).symm

theorem AgreeFrom.trans {c : Date} (first : AgreeFrom n a b) (second : AgreeFrom n b c) :
    AgreeFrom n a c :=
  fun j above => (first j above).trans (second j above)

theorem AgreeFrom.succ (agree : AgreeFrom n a b) : AgreeFrom (n + 1) a b :=
  fun j above => agree j (by omega)

theorem AgreeFrom.update (found : Date) (value : Int) :
    AgreeFrom (idx + 1) (Function.update found idx value) found :=
  fun _ above => Function.update_of_ne (by omega) ..

theorem AgreeFrom.update_self (agree : AgreeFrom (idx + 1) a found) :
    AgreeFrom idx a (Function.update found idx (a idx)) := by
  intro j above
  by_cases same : j = idx
  · rw [same, Function.update_self]
  · rw [Function.update_of_ne same, agree j (by omega)]

theorem curRange_congr (agree : AgreeFrom (idx + 1) a b) :
    cron.curRange idx a = cron.curRange idx b := by
  unfold curRange
  split
  · next isDom =>
      subst isDom
      rw [agree monthsIdx (by decide), agree yearsIdx (by decide)]
  · rfl

theorem dayExists_congr (agree : AgreeFrom (idx + 1) a b) (value : Int) :
    dayExists idx a value = dayExists idx b value := by
  unfold dayExists
  by_cases isDom : idx = domIdx
  · subst isDom
    rw [agree monthsIdx (by decide), agree yearsIdx (by decide)]
  · simp [isDom]

/-- What a search among the dates that agree with `found` from field `n` on answers: the
least date with the property, or that there is none. -/
structure Finds (n : Nat) (found : Date) (P : Date → Prop) (le : Date → Date → Prop)
    (answer : Bool × Date) : Prop where
  agree : AgreeFrom n answer.2 found
  hit : answer.1 = true → P answer.2 ∧ ∀ d, AgreeFrom n d found → P d → le answer.2 d
  miss : answer.1 = false → ∀ d, AgreeFrom n d found → ¬P d

theorem Finds.congr {found' : Date} {P P' : Date → Prop} {answer : Bool × Date}
    (finds : Finds n found P le answer) (agree : AgreeFrom n found found')
    (same : ∀ d, AgreeFrom n d found' → (P d ↔ P' d)) :
    Finds n found' P' le answer := by
  have agreeing := finds.agree.trans agree
  refine ⟨agreeing, fun hit => ⟨(same _ agreeing).mp (finds.hit hit).1, fun d agree' cand => ?_⟩,
    fun miss d agree' cand => ?_⟩
  · exact (finds.hit hit).2 d (agree'.trans agree.symm) ((same d agree').mpr cand)
  · exact finds.miss miss d (agree'.trans agree.symm) ((same d agree').mpr cand)

/-- The dates that a field may take: a value of the field, not before the current one, and
below it a date that may be earlier than the current time if the value is later. -/
def Takes (idx : Nat) (curTime : Date) (useFirst : Bool) (P : Bool → Date → Prop)
    (values : List Int) (d : Date) : Prop :=
  d idx ∈ values ∧ dayExists idx d (d idx) = true ∧ (useFirst = true ∨ d idx ≥ curTime idx) ∧
    P (useFirst || decide (d idx > curTime idx)) d

/-- The loop over increasing values finds the least date if the field below does. -/
theorem tryValues_finds {curTime : Date} {below : Bool → Date → Bool × Date}
    {P : Bool → Date → Prop}
    (spec : ∀ first found, Finds idx found (P first) le (below first found)) :
    ∀ (values : List Int) (first : Bool) (found : Date), values.Pairwise (· < ·) →
      (useFirst = true → first = true) →
      (first = true → useFirst = true ∨ ∀ v ∈ values, curTime idx < v) →
      Finds (idx + 1) found (Takes idx curTime useFirst P values)
        (fun a b => a idx < b idx ∨ a idx = b idx ∧ le a b)
        (tryValues idx curTime useFirst below values first found)
  | [], _, found, _, _, _ => ⟨.refl found, nofun, fun _ _ _ takes => List.not_mem_nil takes.1⟩
  | value :: values, first, found, increasing, started, later => by
    obtain ⟨least, rest⟩ := List.pairwise_cons.mp increasing
    -- where no date has this value the rest of the loop decides
    have skip {found' : Date} {first' : Bool} (agree : AgreeFrom (idx + 1) found' found)
        (passed : ∀ d, AgreeFrom (idx + 1) d found → d idx = value →
          ¬Takes idx curTime useFirst P (value :: values) d)
        (finds : Finds (idx + 1) found' (Takes idx curTime useFirst P values)
          (fun a b => a idx < b idx ∨ a idx = b idx ∧ le a b)
          (tryValues idx curTime useFirst below values first' found')) :
        Finds (idx + 1) found (Takes idx curTime useFirst P (value :: values))
          (fun a b => a idx < b idx ∨ a idx = b idx ∧ le a b)
          (tryValues idx curTime useFirst below values first' found') := by
      refine finds.congr agree fun d agree' => ⟨fun takes => ?_, fun takes => ?_⟩
      · exact ⟨List.mem_cons_of_mem _ takes.1, takes.2⟩
      · refine ⟨(List.mem_cons.mp takes.1).resolve_left fun here => ?_, takes.2⟩
        exact passed d agree' here takes
    unfold tryValues
    split
    · next reached =>
        have flag : (first || decide (value > curTime idx)) =
            (useFirst || decide (value > curTime idx)) := by
          grind
        have larger : useFirst = true ∨ ∀ v ∈ values, curTime idx < v :=
          reached.imp_right fun bound v member => lt_of_le_of_lt bound (least v member)
        dsimp only
        split
        · next isDay =>
            have found' := spec (first || decide (value > curTime idx))
              (Function.update found idx value)
            have mine : ∀ d, AgreeFrom (idx + 1) d found → d idx = value →
                AgreeFrom idx d (Function.update found idx value) := by
              rintro d agree rfl
              exact agree.update_self
            split
            · next f answer =>
                rw [answer, flag] at found'
                have agree : AgreeFrom (idx + 1) f found :=
                  found'.agree.succ.trans (.update found value)
                have here : f idx = value := by
                  have := found'.agree idx (Nat.le_refl idx)
                  rwa [Function.update_self] at this
                obtain ⟨lower, smallest⟩ := found'.hit rfl
                refine ⟨agree, fun _ => ⟨?_, fun d agree' takes => ?_⟩, nofun⟩
                · rw [← here] at lower reached isDay
                  exact ⟨here ▸ List.mem_cons_self,
                    (dayExists_congr agree _).trans isDay, reached, lower⟩
                · dsimp only
                  rw [here]
                  rcases List.mem_cons.mp takes.1 with same | member
                  · refine .inr ⟨same.symm, smallest d (mine d agree' same) ?_⟩
                    exact same ▸ takes.2.2.2
                  · exact .inl (least _ member)
            · next f answer =>
                rw [answer, flag] at found'
                refine skip (found'.agree.succ.trans (.update found value))
                  (fun d agree' same takes => ?_)
                  (tryValues_finds spec values true f rest (fun _ => rfl) fun _ => larger)
                exact found'.miss rfl d (mine d agree' same) (same ▸ takes.2.2.2)
        · next noDay =>
            refine skip (.refl found) (fun d agree' same takes => noDay ?_)
              (tryValues_finds spec values _ found rest (by grind) fun _ => larger)
            rw [← dayExists_congr agree' value, ← same]
            exact takes.2.1
    · next early =>
        refine skip (.refl found) (fun d agree' same takes => early ?_)
          (tryValues_finds spec values first found rest started fun begun =>
            (later begun).imp_right fun all v member => all v (List.mem_cons_of_mem _ member))
        exact same ▸ takes.2.2.1

def Meets (cron : CronTab) (n : Nat) (d : Date) : Prop :=
  ∀ idx < n, d idx ∈ cron.curRange idx d ∧ dayExists idx d (d idx) = true

def NotAfter : Nat → Date → Date → Prop
  | 0, _, _ => True
  | idx + 1, a, b => a idx < b idx ∨ a idx = b idx ∧ NotAfter idx a b

def Candidate (cron : CronTab) (curTime : Date) (n : Nat) (useFirst : Bool) (d : Date) : Prop :=
  cron.Meets n d ∧ (useFirst = true ∨ NotAfter n curTime d)

theorem candidate_succ {curTime : Date} :
    cron.Candidate curTime (idx + 1) useFirst d ↔
      Takes idx curTime useFirst (cron.Candidate curTime idx) (cron.curRange idx d) d := by
  have split : cron.Meets (idx + 1) d ↔
      (d idx ∈ cron.curRange idx d ∧ dayExists idx d (d idx) = true) ∧ cron.Meets idx d := by
    simp only [Meets, Nat.forall_lt_succ_right]
    exact and_comm
  simp only [Candidate, split, Takes, NotAfter, Bool.or_eq_true, decide_eq_true_eq]
  grind

section Search
variable {cron : CronTab} {curTime : Date}
variable (increasing : ∀ idx ≤ monthsIdx, ∀ found, (cron.curRange idx found).Pairwise (· < ·))
include increasing

theorem matchFields_finds : ∀ (idx : Nat), idx ≤ monthsIdx → ∀ (useFirst : Bool) (found : Date),
    Finds (idx + 1) found (cron.Candidate curTime (idx + 1) useFirst) (NotAfter (idx + 1))
      (cron.matchFields curTime idx useFirst found)
  | 0, bound, useFirst, found =>
    (tryValues_finds (P := cron.Candidate curTime 0) (fun _ found =>
      ⟨.refl found, fun _ => ⟨⟨nofun, .inr trivial⟩, fun _ _ _ => trivial⟩,
        fun none => Bool.noConfusion none⟩) _ useFirst _
      (increasing 0 bound found) id fun first => .inl first).congr (.update found _)
      fun d agree => by rw [candidate_succ, curRange_congr agree]
  | idx + 1, bound, useFirst, found =>
    (tryValues_finds (matchFields_finds idx (by omega)) _ useFirst _
      (increasing (idx + 1) bound found) id fun first => .inl first).congr (.update found _)
      fun d agree => by rw [candidate_succ, curRange_congr agree]

/-! ## The years -/

/-- The dates of the search from the year of `found` on. -/
structure FromYear (cron : CronTab) (curTime : Date) (useFirst : Bool) (found d : Date) :
    Prop where
  rest : ∀ j, monthsIdx < j → j ≠ yearsIdx → d j = found j
  year : found yearsIdx ≤ d yearsIdx
  candidate : cron.Candidate curTime (monthsIdx + 1)
    (useFirst || decide (found yearsIdx < d yearsIdx)) d

omit increasing

theorem fromYear_iff_of_year (same : found yearsIdx = d yearsIdx) :
    FromYear cron curTime useFirst found d ↔
      AgreeFrom (monthsIdx + 1) d found ∧ cron.Candidate curTime (monthsIdx + 1) useFirst d := by
  constructor
  · rintro ⟨rest, -, candidate⟩
    rw [same, decide_eq_false (lt_irrefl _), Bool.or_false] at candidate
    refine ⟨fun j above => ?_, candidate⟩
    by_cases isYear : j = yearsIdx
    · rw [isYear, same]
    · exact rest j above isYear
  · rintro ⟨agree, candidate⟩
    refine ⟨fun j above _ => agree j above, same.le, ?_⟩
    rwa [same, decide_eq_false (lt_irrefl _), Bool.or_false]

theorem fromYear_next {f : Date}
    (search : Finds (monthsIdx + 1) found (cron.Candidate curTime (monthsIdx + 1) useFirst)
      (NotAfter (monthsIdx + 1)) (false, f)) :
    FromYear cron curTime useFirst found d ↔
      FromYear cron curTime true (Function.update f yearsIdx (f yearsIdx + 1)) d := by
  have year : f yearsIdx = found yearsIdx := search.agree yearsIdx (by decide)
  have others : ∀ j, monthsIdx < j → j ≠ yearsIdx →
      Function.update f yearsIdx (f yearsIdx + 1) j = found j := fun j above other => by
    rw [Function.update_of_ne other]
    exact search.agree j above
  constructor
  · intro before
    have later : found yearsIdx < d yearsIdx := by
      refine lt_of_le_of_ne before.year fun same => ?_
      obtain ⟨agree, candidate⟩ := (fromYear_iff_of_year same).mp before
      exact search.miss rfl d agree candidate
    refine ⟨fun j above other => (before.rest j above other).trans (others j above other).symm,
      ?_, ?_⟩
    · rw [Function.update_self]
      omega
    · have candidate := before.candidate
      rwa [decide_eq_true later, Bool.or_true] at candidate
  · intro after
    have bound := after.year
    rw [Function.update_self] at bound
    refine ⟨fun j above other => (after.rest j above other).trans (others j above other),
      by omega, ?_⟩
    rw [decide_eq_true (by omega : found yearsIdx < d yearsIdx), Bool.or_true]
    exact after.candidate

include increasing

theorem matchYears_finds : ∀ (years : Nat) (useFirst : Bool) (found : Date) {found' : Date},
    cron.matchYears curTime years useFirst found = some found' →
    FromYear cron curTime useFirst found found' ∧ ∀ d, FromYear cron curTime useFirst found d →
      found' yearsIdx < d yearsIdx ∨
        found' yearsIdx = d yearsIdx ∧ NotAfter (monthsIdx + 1) found' d
  | years + 1, useFirst, found, found', ended => by
    have search := @matchFields_finds cron curTime increasing monthsIdx le_rfl useFirst found
    unfold matchYears at ended
    split at ended
    · next f answer =>
        cases ended
        rw [answer] at search
        have year : found' yearsIdx = found yearsIdx := search.agree yearsIdx (by decide)
        obtain ⟨candidate, smallest⟩ := search.hit rfl
        refine ⟨(fromYear_iff_of_year year.symm).mpr ⟨search.agree, candidate⟩,
          fun d isDate => ?_⟩
        rcases eq_or_lt_of_le isDate.year with same | later
        · obtain ⟨agree, candidate⟩ := (fromYear_iff_of_year same).mp isDate
          exact .inr ⟨year.trans same, smallest d agree candidate⟩
        · exact .inl (year ▸ later)
    · next f answer =>
        rw [answer] at search
        obtain ⟨isDate, smallest⟩ := matchYears_finds years true _ ended
        exact ⟨(fromYear_next search).mpr isDate,
          fun d isDate => smallest d ((fromYear_next search).mp isDate)⟩

/-- The search ends if there is a date. -/
theorem matchYears_ends : ∀ (k : Nat) {useFirst : Bool} {found d : Date},
    FromYear cron curTime useFirst found d → d yearsIdx - found yearsIdx ≤ k →
    ∃ years found', cron.matchYears curTime years useFirst found = some found' := by
  intro k
  induction k with
  | zero =>
    intro useFirst found d isDate near
    have search := @matchFields_finds cron curTime increasing monthsIdx le_rfl useFirst found
    have same : found yearsIdx = d yearsIdx := by
      have := isDate.year
      omega
    obtain ⟨agree, candidate⟩ := (fromYear_iff_of_year same).mp isDate
    refine ⟨1, ?_⟩
    unfold matchYears
    split
    · exact ⟨_, rfl⟩
    · next f answer =>
        rw [answer] at search
        exact absurd candidate (search.miss rfl d agree)
  | succ k ih =>
    intro useFirst found d isDate near
    have search := @matchFields_finds cron curTime increasing monthsIdx le_rfl useFirst found
    rcases answer : cron.matchFields curTime monthsIdx useFirst found with ⟨_ | _, f⟩
    · rw [answer] at search
      have year : f yearsIdx = found yearsIdx := search.agree yearsIdx (by decide)
      obtain ⟨years, found', ended⟩ := ih ((fromYear_next search).mp isDate) (by
        rw [Function.update_self]
        omega)
      exact ⟨years + 1, found', by rw [matchYears, answer]; exact ended⟩
    · exact ⟨1, f, by rw [matchYears, answer]⟩

end Search

theorem addWeekday_nodup : ∀ (count : Nat) {day : Int} {curRange : List Int}, curRange.Nodup →
    (addWeekday count day curRange).Nodup
  | 0, _, _, nodup => nodup
  | count + 1, day, curRange, nodup => by
    unfold addWeekday
    split
    · apply addWeekday_nodup count
      split
      · next new =>
          refine List.nodup_append.mpr ⟨nodup, List.pairwise_singleton _ _, ?_⟩
          rintro v old w member rfl
          exact new.2 (List.mem_singleton.mp member ▸ old)
      · exact nodup
    · exact nodup

theorem curRange_increasing {parameters : Nat → Bytes} (built : init parameters = some cron) :
    ∀ idx ≤ monthsIdx, ∀ found, (cron.curRange idx found).Pairwise (· < ·) := by
  intro idx bound found
  have increasing := (init_within built
    (Nat.lt_of_le_of_lt bound (by decide) : idx < fieldCount)).1
  unfold curRange
  split
  · next isDom =>
      rw [isDom] at increasing
      apply sort_sorted
      have start : ∀ (dow curRange : List Int) (firstDay : Int), curRange.Nodup →
          (dow.foldl (fun curRange weekday =>
            addWeekday (dayOfMonthMax + 1 - (weekday - firstDay + 1)).toNat
              (weekday - firstDay + 1) curRange) curRange).Nodup := by
        intro dow
        induction dow with
        | nil => exact fun _ _ nodup => nodup
        | cons weekday dow ih => exact fun _ _ nodup => ih _ _ (addWeekday_nodup _ nodup)
      apply start
      have nodup : (cron.range domIdx).Nodup := increasing.imp fun below => ne_of_lt below
      split
      · split
        · exact nodup
        · exact .nil
      · exact nodup
  · exact increasing

/-- Some date meets the schedule: 2000 is a leap year. -/
def HasDate (cron : CronTab) : Prop :=
  cron.range minutesIdx ≠ [] ∧ cron.range hoursIdx ≠ [] ∧ cron.range monthsIdx ≠ [] ∧
    (cron.range dowIdx ≠ [] ∨ ∃ month ∈ cron.range monthsIdx, ∃ day ∈ cron.range domIdx,
      day ≤ daysInMonth month 2000)

theorem HasDate.of_meets (meets : cron.Meets (monthsIdx + 1) d) : cron.HasDate := by
  have month := (meets monthsIdx (by decide)).1
  refine ⟨List.ne_nil_of_mem (meets minutesIdx (by decide)).1,
    List.ne_nil_of_mem (meets hoursIdx (by decide)).1, List.ne_nil_of_mem month, ?_⟩
  by_cases anyWeekday : cron.range dowIdx = []
  · obtain ⟨isDay, inMonth⟩ := meets domIdx (by decide)
    refine .inr ⟨_, month, _, (mem_dayRange_of_dow_empty anyWeekday _ _ _).mp isDay, ?_⟩
    have short : d domIdx ≤ daysInMonth (d monthsIdx) (d yearsIdx) := by
      simpa [dayExists] using inMonth
    exact short.trans (daysInMonth_le _ _)
  · exact .inl anyWeekday

theorem HasDate.meets {parameters : Nat → Bytes} (built : init parameters = some cron)
    (possible : cron.HasDate) (leapYear : leap (found yearsIdx) = true) :
    ∃ d, AgreeFrom (monthsIdx + 1) d found ∧ cron.Meets (monthsIdx + 1) d := by
  obtain ⟨minutes, hours, months, days⟩ := possible
  obtain ⟨minute, isMinute⟩ := List.exists_mem_of_ne_nil _ minutes
  obtain ⟨hour, isHour⟩ := List.exists_mem_of_ne_nil _ hours
  have day : ∃ month ∈ cron.range monthsIdx, ∃ day ∈ cron.dayRange month (found yearsIdx),
      day ≤ daysInMonth month (found yearsIdx) := by
    by_cases anyWeekday : cron.range dowIdx = []
    · obtain ⟨month, isMonth, day, isDay, inMonth⟩ :=
        days.resolve_left (fun someWeekday => someWeekday anyWeekday)
      exact ⟨month, isMonth, day, (mem_dayRange_of_dow_empty anyWeekday _ _ day).mpr isDay,
        daysInMonth_of_leap leapYear month ▸ inMonth⟩
    · obtain ⟨month, isMonth⟩ := List.exists_mem_of_ne_nil _ months
      have calendar := (init_within built (by decide : monthsIdx < fieldCount)).2 month isMonth
      obtain ⟨day, isDay, early⟩ := exists_dayRange_of_dow anyWeekday
        (fun v member =>
          have weekday := (init_within built (by decide : dowIdx < fieldCount)).2 v member
          ⟨weekday.least, weekday.weekday rfl⟩) month (found yearsIdx)
      have long := twentyEight_le_daysInMonth calendar.least calendar.greatest (found yearsIdx)
      exact ⟨month, isMonth, day, isDay, by omega⟩
  obtain ⟨month, isMonth, day, isDay, inMonth⟩ := day
  refine ⟨fun idx => if idx = 0 then minute else if idx = 1 then hour else if idx = 2 then day
    else if idx = 3 then month else found idx, fun j above => ?_, fun idx below => ?_⟩
  · have : 4 ≤ j := above
    grind
  · have small : idx < 4 := below
    interval_cases idx
    · exact ⟨isMinute, rfl⟩
    · exact ⟨isHour, rfl⟩
    · exact ⟨isDay, by simpa [dayExists, domIdx, monthsIdx, yearsIdx] using inMonth⟩
    · exact ⟨isMonth, rfl⟩

theorem matchYears_ends_iff {parameters : Nat → Bytes}
    (built : init parameters = some cron) (curTime : Date) (useFirst : Bool) (found : Date) :
    (∃ years found', cron.matchYears curTime years useFirst found = some found') ↔
      cron.HasDate := by
  have increasing := curRange_increasing built
  constructor
  · rintro ⟨years, found', ended⟩
    exact .of_meets (matchYears_finds increasing years useFirst found ended).1.candidate.1
  · intro possible
    obtain ⟨k, leapYear⟩ := exists_leap (found yearsIdx)
    obtain ⟨d, agree, meets⟩ := possible.meets built
      (by rwa [Function.update_self] :
      leap (Function.update found yearsIdx (found yearsIdx + (k + 1)) yearsIdx) = true)
    have year : d yearsIdx = found yearsIdx + (k + 1) := by
      rw [agree yearsIdx (by decide), Function.update_self]
    refine matchYears_ends increasing (k + 1) (d := d) ⟨fun j above other => ?_, by omega,
      meets, .inl ?_⟩ (by omega)
    · rw [agree j above, Function.update_of_ne other]
    · rw [decide_eq_true (by omega : found yearsIdx < d yearsIdx), Bool.or_true]

theorem nextRunTime_some_iff (valid : cron.valid = true) (host : Host)
    (years : Nat) (timestamp : Int) :
    (∃ result, cron.nextRunTime host years timestamp = some result) ↔
      ∃ found, cron.matchYears (currentFields (host.localtime (roundUp timestamp))) years false
        (initialMatch (host.localtime (roundUp timestamp))) = some found := by
  simp only [nextRunTime, valid, if_true]
  cases cron.matchYears (currentFields (host.localtime (roundUp timestamp))) years false
    (initialMatch (host.localtime (roundUp timestamp))) with
  | none => simp
  | some found =>
    dsimp only
    split <;> simp

/-- The next run of a valid schedule is computed exactly if some date meets it: the
minutes, the hours and the months are not empty, and there is a weekday or a day that one
of the months has in a leap year. -/
theorem nextRunTime_returns_iff (parameters : Nat → Bytes) (cron : CronTab)
    (built : init parameters = some cron) (valid : cron.valid = true) (host : Host)
    (timestamp : Int) :
    (∃ years result, cron.nextRunTime host years timestamp = some result) ↔ cron.HasDate := by
  rw [← matchYears_ends_iff built (currentFields (host.localtime (roundUp timestamp))) false
    (initialMatch (host.localtime (roundUp timestamp)))]
  exact exists_congr fun years => nextRunTime_some_iff valid host years timestamp

def parameters (minutes hours daysOfMonth months daysOfWeek : String) (idx : Nat) : Bytes :=
  ascii ([minutes, hours, daysOfMonth, months, daysOfWeek].getD idx "*")

def plainHost : Host where
  localtime t :=
    let minutes := t / 60
    let days := minutes / 1440
    { sec := 0, min := minutes % 60, hour := minutes / 60 % 24, mday := days % 31 + 1,
      mon := days / 31 % 12, year := 70 + days / 372, wday := days % 7, isdst := 0 }
  mktime tm :=
    60 * (tm.min + 60 * (tm.hour + 24 * (tm.mday - 1 + 31 * (tm.mon + 12 * (tm.year - 70)))))

def leapDay : CronTab where
  ranges := [[0], [0, 2, 4, 6, 8, 10, 12, 14, 16, 18, 20, 22], [29], [2], []]
  lastRunTime := invalid
  valid := true

theorem nextRunTime_returns_leap_day :
    init (parameters "0" "*/2" "29" "2" "*") = some leapDay ∧
      ∃ years result, leapDay.nextRunTime plainHost years 0 = some result := by
  have built : init (parameters "0" "*/2" "29" "2" "*") = some leapDay := by decide +kernel
  exact ⟨built, (nextRunTime_returns_iff _ leapDay built rfl plainHost 0).mpr
    ⟨by decide, by decide, by decide, .inr ⟨2, by decide, 29, by decide, by decide⟩⟩⟩

def noDay : CronTab where
  ranges := [[0], [0], [30], [2], []]
  lastRunTime := invalid
  valid := true

/-- The parameters are valid, and the search never ends. -/
theorem nextRunTime_never_returns :
    init (parameters "0" "0" "30" "2" "*") = some noDay ∧ noDay.valid = true ∧
      ∀ host years timestamp, noDay.nextRunTime host years timestamp = none := by
  have built : init (parameters "0" "0" "30" "2" "*") = some noDay := by decide +kernel
  refine ⟨built, rfl, fun host years timestamp => ?_⟩
  have impossible : ¬ noDay.HasDate := by
    rintro ⟨-, -, -, weekday | ⟨month, isMonth, day, isDay, inMonth⟩⟩
    · exact weekday rfl
    · rw [List.mem_singleton.mp isMonth, List.mem_singleton.mp isDay] at inMonth
      exact absurd inMonth (by decide)
  apply Option.eq_none_iff_forall_ne_some.mpr
  intro result returned
  obtain ⟨found, ended⟩ := (nextRunTime_some_iff rfl host years timestamp).mp ⟨result, returned⟩
  exact impossible ((matchYears_ends_iff built _ false _).mp ⟨years, found, ended⟩)

end Condor.Utils.CronTab
