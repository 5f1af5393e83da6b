import Mathlib.Data.List.Infix

/-! A reader frames a block of symbols when it reads exactly that block off any longer stream, and
nothing off a stream that ends inside the block. A stream of framed records that is cut anywhere
reads back as the records that are whole. -/
namespace Condor.Lib

universe u v w x

/-- A reader's answer, if any, and what it leaves unread. -/
def Reader (β : Type u) (α : Type v) := List β → Option α × List β

namespace Reader
variable {β : Type u} {α γ : Type v}

def bind (m : Reader β α) (f : α → Reader β γ) : Reader β γ := fun bs =>
  match m bs with
  | (none, rest) => (none, rest)
  | (some a, rest) => f a rest

instance : Monad (Reader β) where
  pure a := fun bs => (some a, bs)
  bind := bind

end Reader

structure Frames {β : Type u} {α : Type v} (m : Reader β α) (bs : List β) (a : α) : Prop where
  whole : ∀ rest, m (bs ++ rest) = (some a, rest)
  torn : ∀ cut, cut <+: bs → cut ≠ bs → m cut = (none, [])

theorem prefix_append_cases {β : Type u} {cut bs cs : List β} (h : cut <+: bs ++ cs)
    (proper : cut ≠ bs ++ cs) :
    (cut <+: bs ∧ cut ≠ bs) ∨ ∃ rest, cut = bs ++ rest ∧ rest <+: cs ∧ rest ≠ cs := by
  rcases List.prefix_or_prefix_of_prefix h (List.prefix_append bs cs) with inside | ⟨rest, rfl⟩
  · by_cases all : cut = bs
    · refine .inr ⟨[], by rw [all, List.append_nil], List.nil_prefix, ?_⟩
      rintro rfl
      exact proper (by rw [all, List.append_nil])
    · exact .inl ⟨inside, all⟩
  · refine .inr ⟨rest, rfl, (List.prefix_append_right_inj bs).mp h, ?_⟩
    rintro rfl
    exact proper rfl

namespace Frames
variable {β : Type u} {α γ : Type v} {bs cs : List β} {a : α}

theorem pure (a : α) : Frames (Pure.pure a : Reader β α) [] a where
  whole _ := rfl
  torn _ inside proper := absurd (List.prefix_nil.mp inside) proper

variable {m : Reader β α}

theorem bind {f : α → Reader β γ} {c : γ} (first : Frames m bs a) (second : Frames (f a) cs c) :
    Frames (m >>= f) (bs ++ cs) c where
  whole rest := by
    change Reader.bind m f _ = _
    rw [Reader.bind, List.append_assoc, first.whole]
    exact second.whole rest
  torn cut inside proper := by
    change Reader.bind m f _ = _
    rcases prefix_append_cases inside proper with ⟨early, short⟩ | ⟨rest, rfl, late, short⟩
    · rw [Reader.bind, first.torn cut early short]
    · rw [Reader.bind, first.whole]
      exact second.torn rest late short

theorem map (f : α → γ) (first : Frames m bs a) :
    Frames (m >>= fun a => Pure.pure (f a)) bs (f a) := by
  have both := first.bind (f := fun a => (Pure.pure (f a) : Reader β γ)) (pure (f a))
  rwa [List.append_nil] at both

end Frames

/-- A reader takes what it finds off the front, and finds it also when more follows. -/
def Stable {β : Type u} {α : Type v} (m : Reader β α) : Prop :=
  ∀ bs a rest, m bs = (some a, rest) →
    rest.length ≤ bs.length ∧ ∀ more, m (bs ++ more) = (some a, rest ++ more)

namespace Stable
variable {β : Type u} {α γ : Type v}

theorem pure (a : α) : Stable (Pure.pure a : Reader β α) := by
  intro bs c rest found
  cases found
  exact ⟨Nat.le_refl _, fun more => rfl⟩

theorem bind {m : Reader β α} {f : α → Reader β γ} (first : Stable m)
    (second : ∀ a, Stable (f a)) : Stable (m >>= f) := by
  intro bs c rest found
  change Reader.bind m f _ = _ at found
  rw [Reader.bind] at found
  cases answer : m bs with
  | mk read left =>
    rw [answer] at found
    cases read with
    | none => cases found
    | some a =>
      obtain ⟨fewer, again⟩ := first bs a left answer
      obtain ⟨fewer', again'⟩ := second a left c rest found
      refine ⟨Nat.le_trans fewer' fewer, fun more => ?_⟩
      change Reader.bind m f _ = _
      rw [Reader.bind, again more]
      exact again' more

end Stable

def Jams {β : Type u} {α : Type v} (m : Reader β α) (bs : List β) : Prop :=
  ∀ rest, (m (bs ++ rest)).1 = none

namespace Jams
variable {β : Type u} {α γ : Type v} {bs : List β}
variable {m : Reader β α}

theorem bind (f : α → Reader β γ) (stuck : Jams m bs) (cs : List β) :
    Jams (m >>= f) (bs ++ cs) := by
  intro rest
  have first := stuck (cs ++ rest)
  change (Reader.bind m f _).1 = none
  rw [Reader.bind, List.append_assoc]
  generalize m (bs ++ (cs ++ rest)) = answer at first
  obtain ⟨read, left⟩ := answer
  cases first
  rfl

theorem after {f : α → Reader β γ} {a : α} {cs : List β} (first : Frames m bs a)
    (stuck : Jams (f a) cs) : Jams (m >>= f) (bs ++ cs) := by
  intro rest
  change (Reader.bind m f _).1 = none
  rw [Reader.bind, List.append_assoc, first.whole]
  exact stuck rest

end Jams

section Journal
variable {β : Type u} {ρ : Type v} {α : Type v} {σ : Type w} {ε : Type x}

/-- The records whose last symbol is among the first `n` of the stream. -/
def wholeRecords (encode : ρ → List β) : Nat → List ρ → List ρ
  | _, [] => []
  | n, r :: rs =>
    if (encode r).length ≤ n then r :: wholeRecords encode (n - (encode r).length) rs else []

/-- What a stream cut after `n` symbols holds beyond its whole records. -/
def tornPart (encode : ρ → List β) : Nat → List ρ → List β
  | _, [] => []
  | n, r :: rs =>
    if (encode r).length ≤ n then tornPart encode (n - (encode r).length) rs
    else (encode r).take n

/-- Read records until the reader finds none, and fold them into a state. The
answer keeps the stream as it was before and after the last, fruitless read. -/
def foldRecords (read : List β → Except ε (Option α × List β)) (step : σ → α → σ) :
    Nat → σ → List β → Except ε (σ × List β × List β)
  | 0, s, bs => .ok (s, bs, bs)
  | fuel + 1, s, bs =>
    match read bs with
    | .error e => .error e
    | .ok (none, rest) => .ok (s, bs, rest)
    | .ok (some a, rest) => foldRecords read step fuel (step s a) rest

variable {encode : ρ → List β}

theorem take_flatMap (n : Nat) (rs : List ρ) :
    (rs.flatMap encode).take n =
      (wholeRecords encode n rs).flatMap encode ++ tornPart encode n rs := by
  induction rs generalizing n with
  | nil => simp [wholeRecords, tornPart]
  | cons r rs ih =>
    simp only [List.flatMap_cons, List.take_append, wholeRecords, tornPart]
    split
    · next fits => rw [List.take_of_length_le fits, ih, List.flatMap_cons, List.append_assoc]
    · next exceeds =>
        have done : n - (encode r).length = 0 := by omega
        rw [done, List.take_zero, List.append_nil, List.flatMap_nil, List.nil_append]

theorem length_le_flatMap (solid : ∀ r, encode r ≠ []) (rs : List ρ) :
    rs.length ≤ (rs.flatMap encode).length := by
  induction rs with
  | nil => exact Nat.le_refl 0
  | cons r rs ih =>
    have one := List.length_pos_of_ne_nil (solid r)
    rw [List.length_cons, List.flatMap_cons, List.length_append]
    omega

theorem length_wholeRecords_le (solid : ∀ r, encode r ≠ []) (n : Nat) (rs : List ρ) :
    (wholeRecords encode n rs).length ≤ ((rs.flatMap encode).take n).length := by
  rw [take_flatMap, List.length_append]
  exact Nat.le_add_right_of_le (length_le_flatMap solid _)

theorem wholeRecords_zero (solid : ∀ r, encode r ≠ []) (rs : List ρ) :
    wholeRecords encode 0 rs = [] := by
  cases rs with
  | nil => rfl
  | cons r rs =>
    have one := List.length_pos_of_ne_nil (solid r)
    rw [wholeRecords, if_neg (by omega)]

/-- The whole records are the first ones, and all of them when the stream is long enough. -/
theorem wholeRecords_prefix (n : Nat) (rs : List ρ) : wholeRecords encode n rs <+: rs := by
  induction rs generalizing n with
  | nil => exact List.nil_prefix
  | cons r rs ih =>
    rw [wholeRecords]
    split
    · exact (List.prefix_cons_inj r).mpr (ih _)
    · exact List.nil_prefix

variable {n : Nat} {rs : List ρ} {view : ρ → α}

theorem wholeRecords_mono (encode : ρ → List β) {m : Nat} (more : n ≤ m) (rs : List ρ) :
    wholeRecords encode n rs <+: wholeRecords encode m rs := by
  induction rs generalizing n m with
  | nil => exact List.nil_prefix
  | cons r rs ih =>
    rw [wholeRecords, wholeRecords]
    split
    · next fits =>
        rw [if_pos (Nat.le_trans fits more)]
        exact (List.prefix_cons_inj r).mpr (ih (by omega))
    · exact List.nil_prefix

theorem tornPart_cases (encode : ρ → List β) (n : Nat) (rs : List ρ) :
    tornPart encode n rs = [] ∨
      ∃ r ∈ rs, tornPart encode n rs <+: encode r ∧ tornPart encode n rs ≠ encode r := by
  induction rs generalizing n with
  | nil => exact .inl rfl
  | cons r rs ih =>
    rw [tornPart]
    split
    · rcases ih (n - (encode r).length) with none | ⟨q, member, inside, proper⟩
      · exact .inl none
      · exact .inr ⟨q, List.mem_cons_of_mem r member, inside, proper⟩
    · next exceeds =>
        refine .inr ⟨r, List.mem_cons_self,  List.take_prefix n _, fun same => ?_⟩
        have lengths := congrArg List.length same
        rw [List.length_take] at lengths
        omega

theorem wholeRecords_append_of_le (fits : (rs.flatMap encode).length ≤ n) (qs : List ρ) :
    wholeRecords encode n (rs ++ qs) =
      rs ++ wholeRecords encode (n - (rs.flatMap encode).length) qs := by
  induction rs generalizing n with
  | nil => simp
  | cons r rs ih =>
    rw [List.flatMap_cons, List.length_append] at fits
    rw [List.cons_append, wholeRecords, if_pos (by omega), ih (by omega), List.flatMap_cons,
      List.length_append, Nat.sub_add_eq]
    rfl

theorem wholeRecords_append_of_within (solid : ∀ r, encode r ≠ [])
    (within : n ≤ (rs.flatMap encode).length) (qs : List ρ) :
    wholeRecords encode n (rs ++ qs) = wholeRecords encode n rs := by
  induction rs generalizing n with
  | nil =>
    rw [Nat.le_zero.mp within, wholeRecords_zero solid, wholeRecords_zero solid]
  | cons r rs ih =>
    rw [List.flatMap_cons, List.length_append] at within
    rw [List.cons_append, wholeRecords, wholeRecords]
    split
    · rw [ih (by omega)]
    · rfl

/-- A stream too short for the first records has no whole record beyond them, and
lacks one of them. -/
theorem wholeRecords_append_of_lt (short : n < (rs.flatMap encode).length) (qs : List ρ) :
    wholeRecords encode n (rs ++ qs) <+: rs ∧ wholeRecords encode n (rs ++ qs) ≠ rs := by
  induction rs generalizing n with
  | nil => exact absurd short (Nat.not_lt_zero n)
  | cons r rs ih =>
    rw [List.flatMap_cons, List.length_append] at short
    rw [List.cons_append, wholeRecords]
    split
    · obtain ⟨inside, proper⟩ := ih (n := n - (encode r).length) (by omega)
      exact ⟨(List.prefix_cons_inj r).mpr inside, fun same =>
          proper (List.cons_inj_right r |>.mp same)⟩
    · exact ⟨List.nil_prefix, (List.cons_ne_nil r rs).symm⟩

variable (read : List β → Except ε (Option α × List β))

/-- A reader that frames every record reads a cut stream back as its whole records. -/
theorem foldRecords_take (step : σ → α → σ) (rs : List ρ) (finish : read [] = .ok (none, []))
    (whole : ∀ r ∈ rs, ∀ rest, read (encode r ++ rest) = .ok (some (view r), rest))
    (torn : ∀ r ∈ rs, ∀ cut, cut <+: encode r → cut ≠ encode r → read cut = .ok (none, []))
    (n fuel : Nat) (enough : (wholeRecords encode n rs).length < fuel) (s : σ) :
    foldRecords read step fuel s ((rs.flatMap encode).take n) =
      .ok (((wholeRecords encode n rs).map view).foldl step s, tornPart encode n rs, []) := by
  induction rs generalizing n fuel s with
  | nil =>
    cases fuel with
    | zero => exact absurd enough (Nat.not_lt_zero _)
    | succ fuel => simp [foldRecords, wholeRecords, tornPart, finish]
  | cons r rs ih =>
    cases fuel with
    | zero => exact absurd enough (Nat.not_lt_zero _)
    | succ fuel =>
      simp only [List.flatMap_cons, List.take_append, wholeRecords, tornPart] at enough ⊢
      split
      · next fits =>
          rw [if_pos fits, List.length_cons] at enough
          rw [List.take_of_length_le fits]
          simp only [foldRecords, whole r List.mem_cons_self, List.map_cons, List.foldl_cons]
          exact ih (fun q hq => whole q (List.mem_cons_of_mem r hq))
            (fun q hq => torn q (List.mem_cons_of_mem r hq)) _ fuel (by omega) _
      · next exceeds =>
          have done : n - (encode r).length = 0 := by omega
          have short : (encode r).take n ≠ encode r := by
            intro same
            have lengths := congrArg List.length same
            rw [List.length_take] at lengths
            omega
          rw [done, List.take_zero, List.append_nil]
          simp only [foldRecords, torn r List.mem_cons_self _ ( List.take_prefix n _) short,
            List.map_nil, List.foldl_nil]

theorem foldRecords_whole (step : σ → α → σ)
    (whole : ∀ r ∈ rs, ∀ rest, read (encode r ++ rest) = .ok (some (view r), rest)) (more : List β)
    (extra : Nat) (s : σ) :
    foldRecords read step (rs.length + extra) s (rs.flatMap encode ++ more) =
      foldRecords read step extra ((rs.map view).foldl step s) more := by
  induction rs generalizing s with
  | nil => rw [List.length_nil, Nat.zero_add, List.flatMap_nil, List.nil_append, List.map_nil,
      List.foldl_nil]
  | cons r rs ih =>
    rw [List.length_cons, Nat.add_right_comm, List.flatMap_cons, List.append_assoc]
    simp only [foldRecords, whole r List.mem_cons_self, List.map_cons, List.foldl_cons]
    exact ih (fun q member => whole q (List.mem_cons_of_mem r member)) _

variable {fuel : Nat}

theorem foldRecords_all (step : σ → α → σ) (rs : List ρ) (finish : read [] = .ok (none, []))
    (whole : ∀ r ∈ rs, ∀ rest, read (encode r ++ rest) = .ok (some (view r), rest))
    (enough : rs.length < fuel) (s : σ) :
    foldRecords read step fuel s (rs.flatMap encode) =
      .ok ((rs.map view).foldl step s, [], []) := by
  obtain ⟨extra, rfl⟩ := Nat.exists_eq_add_of_lt enough
  have first := foldRecords_whole read step whole [] (extra + 1) s
  rw [List.append_nil] at first
  rw [Nat.add_assoc, first, foldRecords, finish]

/-- A stream that was read to its end is read first when more follows. -/
theorem foldRecords_append {read : List β → Except ε (Option α × List β)} {step : σ → α → σ}
    (stable : ∀ bs a rest, read bs = .ok (some a, rest) →
      rest.length < bs.length ∧ ∀ more, read (bs ++ more) = .ok (some a, rest ++ more)) {s t : σ}
    {bs final : List β} (all : foldRecords read step fuel s bs = .ok (t, [], final)) :
    ∃ n ≤ bs.length, ∀ more extra,
      foldRecords read step (n + extra) s (bs ++ more) = foldRecords read step extra t more := by
  induction fuel generalizing s bs with
  | zero =>
    simp only [foldRecords, Except.ok.injEq, Prod.mk.injEq] at all
    obtain ⟨rfl, rfl, -⟩ := all
    exact ⟨0, Nat.le_refl 0, fun more extra => by rw [Nat.zero_add, List.nil_append]⟩
  | succ fuel ih =>
    rw [foldRecords] at all
    cases found : read bs with
    | error e =>
      rw [found] at all
      cases all
    | ok answer =>
      obtain ⟨record, rest⟩ := answer
      rw [found] at all
      cases record with
      | none =>
        simp only [Except.ok.injEq, Prod.mk.injEq] at all
        obtain ⟨rfl, rfl, -⟩ := all
        exact ⟨0, Nat.le_refl 0, fun more extra => by rw [Nat.zero_add, List.nil_append]⟩
      | some a =>
        obtain ⟨shorter, again⟩ := stable bs a rest found
        obtain ⟨n, few, later⟩ := ih all
        refine ⟨n + 1, by omega, fun more extra => ?_⟩
        rw [Nat.add_right_comm, foldRecords, again more]
        exact later more extra

end Journal
end Condor.Lib
