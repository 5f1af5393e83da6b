import Mathlib.Data.List.Basic
import Mathlib.Data.List.TakeDrop
import Condor.Utils.Stdio

/-! A buffer holds at most 4096 bytes and remembers how many have been read. Bytes that `seek`
brings into use are zero here; the header replaces them before they are read. -/
namespace Condor.Cedar
open Condor.Utils

def condorIoBufSize : Nat := 4096

@[ext] structure Buf where
  dta : Bytes
  pt : Nat
  fits : dta.length ≤ condorIoBufSize
  within : pt ≤ dta.length

namespace Buf

def reset : Buf := ⟨[], 0, Nat.zero_le _, Nat.le_refl _⟩

def rewind (b : Buf) : Buf := { b with pt := 0, within := Nat.zero_le _ }

def numUntouched (b : Buf) : Nat := b.dta.length - b.pt

def numFree (b : Buf) : Nat := condorIoBufSize - b.dta.length

def empty (b : Buf) : Bool := b.dta.length = 0

def full (b : Buf) : Bool := b.dta.length = condorIoBufSize

def consumed (b : Buf) : Bool := b.pt = b.dta.length

def untouched (b : Buf) : Bytes := b.dta.drop b.pt

def putMax (b : Buf) (data : Bytes) : Buf × Nat :=
  ({ b with
      dta := b.dta ++ data.take b.numFree
      fits := by
        have room := b.fits
        rw [List.length_append, List.length_take, numFree]
        omega
      within := by
        have here := b.within
        rw [List.length_append]
        omega },
    min data.length b.numFree)

def getMax (b : Buf) (sz : Nat) : Bytes × Buf :=
  (b.untouched.take sz,
    { b with
      pt := b.pt + min sz b.numUntouched
      within := by
        have here := b.within
        rw [numUntouched]
        omega })

def find (b : Buf) (delim : UInt8) : Option Nat := b.untouched.findIdx? (· = delim)

def peek (b : Buf) : Option UInt8 := if b.empty || b.consumed then none else b.untouched.head?

/-- The last position of a buffer is the one before its end, even if the buffer is full. -/
def seek (b : Buf) (pos : Nat) : Buf :=
  let pt := if pos < condorIoBufSize then pos else condorIoBufSize - 1
  { b with
    dta := b.dta ++ List.replicate (pt - b.dta.length) 0
    pt := pt
    fits := by
      have room := b.fits
      have last : pt < condorIoBufSize := by
        simp only [pt]
        split
        · assumption
        · decide
      rw [List.length_append, List.length_replicate]
      omega
    within := by
      rw [List.length_append, List.length_replicate]
      omega }

def flush (b : Buf) (hdr : Bytes) : Bytes × Buf :=
  ((hdr ++ b.dta.drop hdr.length).take b.dta.length, reset)

/-- What `read` makes of `n` bytes from the socket, in a new buffer. -/
def read (n : Nat) (sock : Bytes) : Option (Buf × Bytes) :=
  if small : n ≤ condorIoBufSize then
    if n ≤ sock.length then
      some (⟨sock.take n, 0, (List.length_take_le n sock).trans small, Nat.zero_le _⟩, sock.drop n)
    else none
  else none

variable (b : Buf)

theorem dta_seek {pos : Nat} (small : pos < condorIoBufSize) :
    (b.seek pos).dta = b.dta ++ List.replicate (pos - b.dta.length) 0 := by
  change b.dta ++ List.replicate ((if pos < condorIoBufSize then pos else _) - _) 0 = _
  rw [if_pos small]

def fresh (data : Bytes) : Buf :=
  ⟨data.take condorIoBufSize, 0, List.length_take_le _ _, Nat.zero_le _⟩

variable {data : Bytes}

theorem untouched_fresh (small : data.length ≤ condorIoBufSize) :
    (fresh data).untouched = data := List.take_of_length_le small

theorem read_append (small : data.length ≤ condorIoBufSize) (rest : Bytes) :
    read data.length (data ++ rest) = some (fresh data, rest) := by
  have enough : data.length ≤ (data ++ rest).length := by
    rw [List.length_append]
    exact Nat.le_add_right _ _
  have front : (data ++ rest).take data.length = data.take condorIoBufSize := by
    rw [List.take_left, List.take_of_length_le small]
  rw [read, dif_pos small, if_pos enough, List.drop_left]
  congr 2
  exact Buf.ext front rfl

theorem consumed_iff : b.consumed = true ↔ b.untouched = [] := by
  have here := b.within
  rw [consumed, decide_eq_true_iff, untouched, List.drop_eq_nil_iff]
  omega

theorem untouched_getMax (sz : Nat) : (b.getMax sz).2.untouched = b.untouched.drop sz := by
  have here := b.within
  change b.dta.drop (b.pt + min sz (b.dta.length - b.pt)) = (b.dta.drop b.pt).drop sz
  rw [List.drop_drop]
  rcases Nat.le_total sz (b.dta.length - b.pt) with short | long
  · rw [Nat.min_eq_left short]
  · rw [Nat.min_eq_right long, List.drop_eq_nil_of_le (by omega), List.drop_eq_nil_of_le (by omega)]

end Buf

/-- A chain of buffers: those before the current one, and those from it on. When reading
has run off the end there is no current one. -/
structure ChainBuf where
  before : List Buf
  current : List Buf

namespace ChainBuf

def reset : ChainBuf := ⟨[], []⟩

/-- A new buffer becomes the current one only if it is the first. -/
def put (c : ChainBuf) (b : Buf) : ChainBuf :=
  match c.before, c.current with
  | [], [] => ⟨[], [b]⟩
  | before, [] => ⟨before ++ [b], []⟩
  | before, current => ⟨before, current ++ [b]⟩

def tail (c : ChainBuf) : Option Buf := (c.before ++ c.current).getLast?

def consumed (c : ChainBuf) : Bool :=
  match c.tail with
  | none => true
  | some b => b.consumed

def getFrom : List Buf → List Buf → Nat → Bytes × ChainBuf
  | before, [], _ => ([], ⟨before, []⟩)
  | before, b :: current, sz =>
    let (data, b) := b.getMax sz
    if data.length = sz then (data, ⟨before, b :: current⟩)
    else
      let (more, c) := getFrom (before ++ [b]) current (sz - data.length)
      (data ++ more, c)

def get (c : ChainBuf) (sz : Nat) : Bytes × ChainBuf := getFrom c.before c.current sz

/-- `_curr` moves on when its buffer has been read. -/
def peek (c : ChainBuf) : Option UInt8 × ChainBuf :=
  match c.current with
  | [] => (none, c)
  | b :: current =>
    match b.peek, current with
    | some x, _ => (some x, c)
    | none, [] => (none, ⟨c.before ++ [b], []⟩)
    | none, b' :: current => (b'.peek, ⟨c.before ++ [b], b' :: current⟩)

def findFrom (delim : UInt8) : List Buf → Nat → Option Nat
  | [], _ => none
  | b :: current, nr =>
    match b.find delim with
    | none => findFrom delim current (nr + b.numUntouched)
    | some tr => some (nr + tr)

/-- The bytes up to and with the delimiter, from one buffer or copied out of several. -/
def getTmp (c : ChainBuf) (delim : UInt8) : Option Bytes × ChainBuf :=
  match c.current with
  | [] => (none, c)
  | b :: current =>
    match b.find delim with
    | some tr =>
      (some (b.untouched.take (tr + 1)),
        ⟨c.before, (b.seek 0).seek (b.pt + tr + 1) :: current⟩)
    | none =>
      match findFrom delim current b.numUntouched with
      | none => (none, c)
      | some nr =>
        let (data, c) := c.get (nr + 1)
        (some data, c)

def unread (c : ChainBuf) : Bytes := c.current.flatMap Buf.untouched

/-- Buffers behind the current one have been read, and those ahead of it have not. -/
structure Ordered (c : ChainBuf) : Prop where
  read : ∀ b ∈ c.before, b.consumed = true
  ahead : ∀ b ∈ c.current.tail, b.consumed = false

variable (before : List Buf)

theorem getFrom_cons (current : List Buf) (b : Buf) (sz : Nat) :
    getFrom before (b :: current) sz =
      if (b.getMax sz).1.length = sz then ((b.getMax sz).1, ⟨before, (b.getMax sz).2 :: current⟩)
      else
        ((b.getMax sz).1 ++
            (getFrom (before ++ [(b.getMax sz).2]) current (sz - (b.getMax sz).1.length)).1,
          (getFrom (before ++ [(b.getMax sz).2]) current (sz - (b.getMax sz).1.length)).2) := rfl

theorem getFrom_spec (current : List Buf) (sz : Nat) :
    (getFrom before current sz).1 = (current.flatMap Buf.untouched).take sz ∧
    (getFrom before current sz).2.unread = (current.flatMap Buf.untouched).drop sz := by
  induction current generalizing before sz with
  | nil =>
    rw [getFrom, List.flatMap_nil, List.take_nil, List.drop_nil]
    exact ⟨rfl, rfl⟩
  | cons b current ih =>
    have left := b.untouched_getMax sz
    have size : (b.getMax sz).1.length = min sz b.untouched.length := List.length_take
    rw [getFrom_cons, List.flatMap_cons, List.take_append, List.drop_append]
    by_cases enough : (b.getMax sz).1.length = sz
    · have none : sz - b.untouched.length = 0 := by omega
      rw [if_pos enough, none, List.take_zero, List.append_nil, List.drop_zero, ← left]
      exact ⟨rfl, rfl⟩
    · have all : (b.getMax sz).1 = b.untouched := List.take_of_length_le (by omega)
      have rest : sz - (b.getMax sz).1.length = sz - b.untouched.length := by rw [all]
      obtain ⟨data, unread⟩ := ih (before ++ [(b.getMax sz).2]) (sz - b.untouched.length)
      have none : b.untouched.drop sz = [] := List.drop_eq_nil_of_le (by omega)
      rw [if_neg enough, rest, data, unread, none, List.nil_append]
      exact ⟨rfl, rfl⟩

theorem getFrom_ordered {before current : List Buf} (read : ∀ b ∈ before, b.consumed = true)
    (ahead : ∀ b ∈ current.tail, b.consumed = false) (sz : Nat) :
    (getFrom before current sz).2.Ordered := by
  induction current generalizing before sz with
  | nil => exact ⟨read, ahead⟩
  | cons b current ih =>
    rw [getFrom_cons]
    by_cases enough : (b.getMax sz).1.length = sz
    · rw [if_pos enough]
      exact ⟨read, ahead⟩
    · rw [if_neg enough]
      refine ih ?_ (fun c inside => ahead c (List.mem_of_mem_tail inside)) _
      intro c inside
      rcases List.mem_append.mp inside with old | new
      · exact read c old
      · cases List.mem_singleton.mp new
        have size : (b.getMax sz).1.length = min sz b.untouched.length := List.length_take
        rw [Buf.consumed_iff, b.untouched_getMax]
        exact List.drop_eq_nil_of_le (by omega)

theorem get_data (c : ChainBuf) (sz : Nat) : (c.get sz).1 = c.unread.take sz :=
  (getFrom_spec c.before c.current sz).1

theorem unread_get (c : ChainBuf) (sz : Nat) : (c.get sz).2.unread = c.unread.drop sz :=
  (getFrom_spec c.before c.current sz).2

variable {c : ChainBuf}

theorem Ordered.get (ordered : c.Ordered) (sz : Nat) : (c.get sz).2.Ordered :=
  getFrom_ordered ordered.read ordered.ahead sz

theorem tail_concat (current : List Buf) (last : Buf) :
    (⟨before, current ++ [last]⟩ : ChainBuf).tail = some last := by
  rw [tail, ← List.append_assoc]
  exact List.getLast?_concat

theorem Ordered.consumed_iff (ordered : c.Ordered) : c.consumed = true ↔ c.unread = [] := by
  obtain ⟨before, current⟩ := c
  rcases List.eq_nil_or_concat current with rfl | ⟨front, last, rfl⟩
  · refine iff_of_true ?_ rfl
    rcases List.eq_nil_or_concat before with rfl | ⟨front, last, rfl⟩
    · rfl
    · have here : (⟨front ++ [last], []⟩ : ChainBuf).tail = some last := by
        rw [tail, List.append_nil]
        exact List.getLast?_concat
      rw [List.concat_eq_append, consumed, here]
      exact ordered.read last (by simp)
  · rw [List.concat_eq_append, consumed, tail_concat, unread, List.flatMap_append,
      List.append_eq_nil_iff]
    change last.consumed = true ↔ _ ∧ last.untouched ++ [] = []
    rw [List.append_nil, ← Buf.consumed_iff]
    refine ⟨fun all => ⟨?_, all⟩, fun all => all.2⟩
    cases front with
    | nil => rfl
    | cons b front =>
      have left := ordered.ahead last (by simp)
      rw [all] at left
      cases left

theorem put_of_current (b : Buf) (walking : c.before = []) : c.put b = ⟨[], c.current ++ [b]⟩ := by
  obtain ⟨before, current⟩ := c
  cases walking
  cases current <;> rfl

end ChainBuf
end Condor.Cedar
