import Mathlib.Data.Finset.Basic

/-! `SelfDrainingQueue` hands its items to a handler when its timer goes off. They are in a ring
buffer; a hash holds the items that were enqueued without `allow_dups`, and every dequeued item is
removed from it. -/
namespace Condor.Utils

/-- `Queue`, a ring buffer that grows when it is full. -/
structure Queue (α : Type) where
  tableSize : Nat
  ht : Nat → Option α
  length : Nat
  head : Nat
  tail : Nat

namespace Queue
variable {α : Type}

/-- The two parts of a full buffer are copied behind each other. -/
def grow (q : Queue α) : Queue α where
  tableSize := q.tableSize * 2
  ht j := if j < q.tableSize - q.head then q.ht (q.head + j)
    else q.ht (j - (q.tableSize - q.head))
  length := q.length
  head := q.length
  tail := 0

def enqueue (q : Queue α) (value : α) : Queue α :=
  let q := if q.length = q.tableSize then q.grow else q
  { q with
    ht := Function.update q.ht q.head (some value)
    head := (q.head + 1) % q.tableSize
    length := q.length + 1 }

/-- The value is absent if the queue is empty. -/
def dequeue (q : Queue α) : Option α × Queue α :=
  if q.length = 0 then (none, q)
  else (q.ht q.tail, { q with tail := (q.tail + 1) % q.tableSize, length := q.length - 1 })

/-- The buffer holds these values from its tail on. -/
structure Holds (q : Queue α) (values : List α) : Prop where
  length : q.length = values.length
  room : q.length ≤ q.tableSize
  inside : q.tail < q.tableSize
  head : q.head = (q.tail + q.length) % q.tableSize
  cells : ∀ i < q.length, q.ht ((q.tail + i) % q.tableSize) = values[i]?

theorem wrap {t i n : Nat} (inside : t < n) (less : i ≤ n) :
    (t + i) % n = if t + i < n then t + i else t + i - n := by
  split
  next fits => exact Nat.mod_eq_of_lt fits
  next past => rw [Nat.mod_eq_sub_mod (by omega), Nat.mod_eq_of_lt (by omega)]

variable {q : Queue α} {values : List α}

theorem Holds.grow (holds : q.Holds values) (full : q.length = q.tableSize) :
    q.grow.Holds values := by
  obtain ⟨length, room, inside, head, cells⟩ := holds
  have same : q.head = q.tail := by
    rw [head, full, Nat.add_mod_right, Nat.mod_eq_of_lt inside]
  refine ⟨length, by simp only [Queue.grow]; omega, by simp only [Queue.grow]; omega, ?_,
    fun i less => ?_⟩
  · simp only [Queue.grow]
    rw [Nat.zero_add, Nat.mod_eq_of_lt (by omega)]
  · simp only [Queue.grow] at less ⊢
    have cell := cells i less
    rw [wrap inside (by omega)] at cell
    rw [Nat.zero_add, Nat.mod_eq_of_lt (by omega), same]
    by_cases fits : q.tail + i < q.tableSize
    · rw [if_pos fits] at cell
      rw [if_pos (by omega), cell]
    · rw [if_neg fits] at cell
      rw [if_neg (by omega), ← cell]
      congr 1
      omega

theorem Holds.enqueue (holds : q.Holds values) (value : α) :
    (q.enqueue value).Holds (values ++ [value]) := by
  rw [Queue.enqueue]
  generalize grown : (if q.length = q.tableSize then q.grow else q) = g
  obtain ⟨⟨length, room, inside, head, cells⟩, free⟩ : g.Holds values ∧ g.length < g.tableSize := by
    have := holds.room
    have := holds.inside
    subst grown
    split
    next full => exact ⟨holds.grow full, by simp only [Queue.grow]; omega⟩
    next notFull => exact ⟨holds, by omega⟩
  have next : (g.head + 1) % g.tableSize = (g.tail + (g.length + 1)) % g.tableSize := by
    rw [head, Nat.mod_add_mod, Nat.add_assoc]
  refine ⟨by simp [length], free, inside, next, fun i less => ?_⟩
  dsimp only at less ⊢
  rcases Nat.lt_or_eq_of_le (Nat.lt_succ_iff.mp less) with before | rfl
  · have other : (g.tail + i) % g.tableSize ≠ g.head := by
      rw [head, wrap inside (by omega), wrap inside room]
      split <;> split <;> omega
    rw [Function.update_of_ne other, cells i before, List.getElem?_append_left (by omega)]
  · rw [← head, Function.update_self, length, List.getElem?_concat_length]

theorem Holds.dequeue {value : α} (holds : q.Holds (value :: values)) :
    ∃ q', q.dequeue = (some value, q') ∧ q'.Holds values := by
  obtain ⟨length, room, inside, head, cells⟩ := holds
  rw [List.length_cons] at length
  have first := cells 0 (by omega)
  rw [Nat.add_zero, Nat.mod_eq_of_lt inside, List.getElem?_cons_zero] at first
  have shift : ∀ i, ((q.tail + 1) % q.tableSize + i) % q.tableSize =
      (q.tail + (i + 1)) % q.tableSize := by
    intro i
    rw [Nat.mod_add_mod, Nat.add_assoc, Nat.add_comm 1]
  have done : q.dequeue = (some value,
      { q with tail := (q.tail + 1) % q.tableSize, length := q.length - 1 }) := by
    rw [Queue.dequeue, if_neg (by omega : ¬ q.length = 0), first]
  refine ⟨_, done, by dsimp only; omega, by dsimp only; omega, Nat.mod_lt _ (by omega), ?_,
    fun i less => ?_⟩
  · rw [shift, Nat.sub_add_cancel (by omega : 1 ≤ q.length), head]
  · dsimp only at less ⊢
    rw [shift, cells (i + 1) (by omega), List.getElem?_cons_succ]

end Queue

/-- The queue with a key for each item: items compare equal if they have the same key. -/
structure SelfDrainingQueue (α κ : Type) where
  queue : Queue α
  hash : Finset κ
  /-- Whether a timer is registered. -/
  tid : Bool
  countPerInterval : Nat
  /-- While `timerHandler` runs, the number of items it has handled. -/
  count : Option Nat

namespace SelfDrainingQueue

inductive Event (α : Type) where
  /-- A call of `enqueue`, also from inside the handler. -/
  | enqueue (data : α) (allowDups : Bool)
  /-- The timer goes off. -/
  | timer
  /-- `timerHandler` goes on when the handler has returned. -/
  | next

inductive Outcome (α : Type) where
  | accepted (data : α) (allowDups : Bool)
  | refused
  | handled (data : α)
  | nothing
  deriving DecidableEq

variable {α κ : Type} [DecidableEq κ] (key : α → κ)

def create (countPerInterval : Nat) : SelfDrainingQueue α κ :=
  ⟨⟨32, fun _ => none, 0, 0, 0⟩, ∅, false, countPerInterval, none⟩

def enqueue (s : SelfDrainingQueue α κ) (data : α) (allowDups : Bool) :
    Outcome α × SelfDrainingQueue α κ :=
  if allowDups = false ∧ key data ∈ s.hash then (.refused, s)
  else (.accepted data allowDups,
    { s with
      hash := if allowDups then s.hash else insert (key data) s.hash
      queue := s.queue.enqueue data
      tid := true })

/-- The body of the loop, or what follows the loop. There is no result if a timer is reset that
does not exist. -/
def next (s : SelfDrainingQueue α κ) (count : Nat) : Option (Outcome α × SelfDrainingQueue α κ) :=
  match if count < s.countPerInterval then s.queue.dequeue else (none, s.queue) with
  | (some d, queue) => some (.handled d,
      { s with queue, hash := s.hash.erase (key d), count := some (count + 1) })
  | (none, _) =>
    if s.queue.length = 0 then some (.nothing, { s with tid := false, count := none })
    else if s.tid then some (.nothing, { s with count := none }) else none

def step (s : SelfDrainingQueue α κ) : Event α → Option (Outcome α × SelfDrainingQueue α κ)
  | .enqueue data allowDups => some (s.enqueue key data allowDups)
  | .timer =>
    if s.tid ∧ s.count = none then
      if s.queue.length = 0 then some (.nothing, { s with tid := false })
      else some (.nothing, { s with count := some 0 })
    else some (.nothing, s)
  | .next =>
    match s.count with
    | some count => s.next key count
    | none => some (.nothing, s)

def run (s : SelfDrainingQueue α κ) :
    List (Event α) → Option (List (Outcome α) × SelfDrainingQueue α κ)
  | [] => some ([], s)
  | event :: events => do
    let (outcome, s) ← step key s event
    let (outcomes, s) ← run s events
    return (outcome :: outcomes, s)

def Outcome.accepts : Outcome α → List (α × Bool)
  | .accepted data allowDups => [(data, allowDups)]
  | _ => []

def Outcome.handles : Outcome α → List α
  | .handled data => [data]
  | _ => []

/-- The items that wait, with the way in which they were enqueued. -/
structure Waiting (s : SelfDrainingQueue α κ) (pending : List (α × Bool)) : Prop where
  queue : s.queue.Holds (pending.map Prod.fst)
  timer : pending ≠ [] → s.tid = true
  running : s.count ≠ none → s.tid = true

/-- The hash holds the keys of the waiting items without `allow_dups`, if the key decides how an
item is enqueued. -/
structure Marked (mode : κ → Bool) (s : SelfDrainingQueue α κ) (pending : List (α × Bool)) :
    Prop where
  hash : ∀ k, k ∈ s.hash ↔ ∃ e ∈ pending, e.2 = false ∧ key e.1 = k
  mode : ∀ e ∈ pending, e.2 = mode (key e.1)
  distinct : pending.Pairwise fun a b => a.2 = false → key a.1 ≠ key b.1

variable {key} {s : SelfDrainingQueue α κ} {pending : List (α × Bool)} {mode : κ → Bool}

theorem Marked.enqueue (marked : Marked key mode s pending) {data : α} {allowDups : Bool}
    (fits : allowDups = mode (key data)) (new : ¬ (allowDups = false ∧ key data ∈ s.hash)) :
    Marked key mode (s.enqueue key data allowDups).2 (pending ++ [(data, allowDups)]) := by
  rw [SelfDrainingQueue.enqueue, if_neg new]
  refine ⟨fun k => ?_, fun e member => ?_, ?_⟩
  · cases allowDups with
    | true => simp [marked.hash, or_and_right, exists_or]
    | false => simp [marked.hash, or_and_right, exists_or, or_comm, eq_comm (a := k)]
  · rcases List.mem_append.mp member with old | added
    · exact marked.mode e old
    · rw [List.mem_singleton.mp added]
      exact fits
  · refine List.pairwise_append.mpr ⟨marked.distinct, List.pairwise_singleton _ _, ?_⟩
    intro e old f added single same
    rw [List.mem_singleton.mp added] at same
    have twin : allowDups = false := by rw [fits, ← same, ← marked.mode e old, single]
    exact new ⟨twin, (marked.hash _).mpr ⟨e, old, single, same⟩⟩

theorem Marked.handle {e : α × Bool} (marked : Marked key mode s (e :: pending)) (queue : Queue α)
    (count : Option Nat) :
    Marked key mode { s with queue, hash := s.hash.erase (key e.1), count } pending := by
  obtain ⟨hash, modes, distinct⟩ := marked
  obtain ⟨alone, distinct⟩ := List.pairwise_cons.mp distinct
  refine ⟨fun k => ?_, fun f member => modes f (List.mem_cons_of_mem _ member), distinct⟩
  rw [Finset.mem_erase, hash]
  constructor
  · rintro ⟨other, f, member, single, same⟩
    rcases List.mem_cons.mp member with rfl | member
    · exact absurd same.symm other
    · exact ⟨f, member, single, same⟩
  · rintro ⟨f, member, single, rfl⟩
    have later := List.mem_cons_of_mem e member
    refine ⟨fun same => ?_, f, later, single, rfl⟩
    -- an equal item in front would have been enqueued in the same way
    have first : e.2 = false := by
      rw [modes e List.mem_cons_self, ← same, ← modes f later, single]
    exact alone f member first same.symm

omit [DecidableEq κ] in
theorem Waiting.eq_nil (waiting : s.Waiting pending) (none : s.queue.length = 0) :
    pending = [] := by
  have length := waiting.queue.length
  rw [none, List.length_map] at length
  exact List.eq_nil_of_length_eq_zero length.symm

/-- What steps do to the waiting items: they append what they accept and take what they handle
from the front. The hash follows under a condition. -/
def Moves (key : α → κ) (fits : (κ → Bool) → Prop) (s : SelfDrainingQueue α κ)
    (pending : List (α × Bool)) (outcomes : List (Outcome α)) (s' : SelfDrainingQueue α κ) : Prop :=
  ∃ done pending', pending ++ outcomes.flatMap Outcome.accepts = done ++ pending' ∧
    done.map Prod.fst = outcomes.flatMap Outcome.handles ∧ s'.Waiting pending' ∧
    ∀ mode, fits mode → Marked key mode s pending → Marked key mode s' pending'

variable {fits : (κ → Bool) → Prop}

omit [DecidableEq κ] in
theorem Waiting.still (waiting : s.Waiting pending) {s' : SelfDrainingQueue α κ} {o : Outcome α}
    (still : o.accepts = [] ∧ o.handles = []) (queue : s'.queue = s.queue) (hash : s'.hash = s.hash)
    (timer : pending ≠ [] → s'.tid = true) (running : s'.count ≠ none → s'.tid = true) :
    Moves key fits s pending [o] s' :=
  ⟨[], pending, by simp [still.1], by simp [still.2], ⟨queue ▸ waiting.queue, timer, running⟩,
    fun _ _ marked => ⟨hash ▸ marked.hash, marked.mode, marked.distinct⟩⟩

theorem Waiting.next (waiting : s.Waiting pending) {count : Nat} (running : s.count = some count) :
    ∃ o s', s.next key count = some (o, s') ∧ Moves key fits s pending [o] s' := by
  have timer := waiting.running (by simp [running])
  rw [SelfDrainingQueue.next]
  have stop : ∃ o s', (if s.queue.length = 0 then
      some (.nothing, { s with tid := false, count := none })
      else if s.tid then some (.nothing, { s with count := none }) else none) = some (o, s') ∧
      Moves key fits s pending [o] s' := by
    split
    next empty =>
      exact ⟨_, _, rfl, waiting.still ⟨rfl, rfl⟩ rfl rfl
        (fun some => absurd (waiting.eq_nil empty) some) fun going => absurd rfl going⟩
    next =>
      exact ⟨_, _, rfl, waiting.still ⟨rfl, rfl⟩ rfl rfl (fun _ => timer) fun _ => timer⟩
  by_cases more : count < s.countPerInterval
  · rw [if_pos more]
    cases pending with
    | nil =>
      have empty : s.queue.dequeue = (none, s.queue) := if_pos waiting.queue.length
      rw [empty]
      exact stop
    | cons e pending =>
      obtain ⟨queue, taken, holds⟩ := waiting.queue.dequeue
      rw [taken]
      exact ⟨_, _, rfl, [e], pending, by simp [Outcome.accepts], by simp [Outcome.handles],
        ⟨holds, fun _ => timer, fun _ => timer⟩, fun _ _ marked => marked.handle _ _⟩
  · rw [if_neg more]
    exact stop

theorem Waiting.step (waiting : s.Waiting pending) (event : Event α) :
    ∃ o s', s.step key event = some (o, s') ∧ Moves key
      (fun mode => ∀ data allowDups, event = .enqueue data allowDups →
        allowDups = mode (key data)) s pending [o] s' := by
  cases event with
  | enqueue data allowDups =>
    by_cases twin : allowDups = false ∧ key data ∈ s.hash
    · have refused : s.enqueue key data allowDups = (.refused, s) := if_pos twin
      exact ⟨_, _, congrArg some refused,
        waiting.still ⟨rfl, rfl⟩ rfl rfl waiting.timer waiting.running⟩
    · refine ⟨.accepted data allowDups, (s.enqueue key data allowDups).2, ?_, [],
        pending ++ [(data, allowDups)], rfl, rfl, ?_, fun mode fits marked =>
          marked.enqueue (fits _ _ rfl) twin⟩
      · simp only [SelfDrainingQueue.step, SelfDrainingQueue.enqueue, if_neg twin]
      · simp only [SelfDrainingQueue.enqueue, if_neg twin]
        exact ⟨by simpa using waiting.queue.enqueue data, fun _ => rfl, fun _ => rfl⟩
  | timer =>
    rw [SelfDrainingQueue.step]
    split
    next due =>
      split
      next empty =>
        exact ⟨_, _, rfl, waiting.still ⟨rfl, rfl⟩ rfl rfl
          (fun some => absurd (waiting.eq_nil empty) some) fun going => absurd due.2 going⟩
      next => exact ⟨_, _, rfl, waiting.still ⟨rfl, rfl⟩ rfl rfl (fun _ => due.1) fun _ => due.1⟩
    next => exact ⟨_, _, rfl, waiting.still ⟨rfl, rfl⟩ rfl rfl waiting.timer waiting.running⟩
  | next =>
    rw [SelfDrainingQueue.step]
    split
    next count running => exact waiting.next running
    next => exact ⟨_, _, rfl, waiting.still ⟨rfl, rfl⟩ rfl rfl waiting.timer waiting.running⟩

theorem Waiting.run (waiting : s.Waiting pending) (events : List (Event α)) :
    ∃ outcomes s', s.run key events = some (outcomes, s') ∧ Moves key
      (fun mode => ∀ data allowDups, .enqueue data allowDups ∈ events →
        allowDups = mode (key data)) s pending outcomes s' := by
  induction events generalizing s pending with
  | nil => exact ⟨[], s, rfl, [], pending, by simp, rfl, waiting, fun _ _ marked => marked⟩
  | cons event events ih =>
    obtain ⟨o, s₁, first, done₁, pending₁, order₁, handled₁, waiting₁, marks₁⟩ :=
      waiting.step event
    obtain ⟨outcomes, s₂, rest, done₂, pending₂, order₂, handled₂, waiting₂, marks₂⟩ :=
      ih waiting₁
    refine ⟨o :: outcomes, s₂, ?_, done₁ ++ done₂, pending₂, ?_, ?_, waiting₂, ?_⟩
    · rw [SelfDrainingQueue.run, first]
      simp [rest]
    · rw [← List.singleton_append, List.flatMap_append, ← List.append_assoc, order₁,
        List.append_assoc, order₂, List.append_assoc]
    · rw [← List.singleton_append, List.flatMap_append, List.map_append, handled₁, handled₂]
    · intro mode fits marked
      refine marks₂ mode (fun data allowDups member => fits _ _ (List.mem_cons_of_mem _ member))
        (marks₁ mode ?_ marked)
      rintro data allowDups rfl
      exact fits _ _ List.mem_cons_self

variable (key)

/-- Items are handled in the order of their enqueueing, each of them once, and a timer is
registered while items wait. If equal items are always enqueued in the same way, an item without
`allow_dups` is refused exactly when an equal one waits. -/
theorem queue_delivers (countPerInterval : Nat) (events : List (Event α)) :
    ∃ outcomes s done pending, (create countPerInterval).run key events = some (outcomes, s) ∧
      outcomes.flatMap Outcome.accepts = done ++ pending ∧
      done.map Prod.fst = outcomes.flatMap Outcome.handles ∧
      s.queue.Holds (pending.map Prod.fst) ∧ (pending ≠ [] → s.tid = true) ∧
      ∀ mode : κ → Bool,
        (∀ data allowDups, .enqueue data allowDups ∈ events → allowDups = mode (key data)) →
        ∀ data allowDups, ((s.enqueue key data allowDups).1 = .refused ↔
          allowDups = false ∧ ∃ e ∈ pending, e.2 = false ∧ key e.1 = key data) := by
  have start : (create countPerInterval : SelfDrainingQueue α κ).Waiting [] :=
    ⟨⟨rfl, Nat.zero_le _, Nat.zero_lt_succ 31, rfl, fun i less => absurd less (Nat.not_lt_zero i)⟩,
      fun some => absurd rfl some, fun some => absurd rfl some⟩
  obtain ⟨outcomes, s, ran, done, pending, order, handled, waiting, marks⟩ := start.run events
  refine ⟨outcomes, s, done, pending, ran, order, handled, waiting.queue, waiting.timer, ?_⟩
  intro mode fits data allowDups
  have marked := marks mode fits ⟨by simp [create], by simp, .nil⟩
  rw [← marked.hash, SelfDrainingQueue.enqueue]
  split
  next twin => simp [twin]
  next new => simp [new]

/-- The second of two equal items still waits when a third one is accepted: the first, which
was enqueued with `allow_dups`, has taken the mark of the second with it. -/
theorem dequeue_unmarks_equal :
    ((create 1).run id [.enqueue 7 true, .enqueue 7 false, .timer, .next, .enqueue 7 false]).map
        Prod.fst =
      some [.accepted 7 true, .accepted 7 false, .nothing, .handled 7, .accepted 7 false] := by
  decide +kernel

end SelfDrainingQueue
end Condor.Utils
