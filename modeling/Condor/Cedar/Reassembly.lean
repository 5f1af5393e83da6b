import Mathlib
import Condor.Cedar.InMsg
import Condor.Lib.Machine

/-! While packets arrive, the pages hold exactly the packets delivered, and two counters tell the
last number and how many there are. The message is complete at the first moment when no number is
missing. -/
namespace Condor.Cedar
open Condor.Utils Condor.Lib

/-! ## Pages -/
/-- The pages are numbered from the head of the list. -/
def Numbered (dirs : List DirPage) : Prop :=
  ∀ (i : Nat) (page : DirPage), dirs[i]? = some page → page.dirNo = i

def entryIn (dirs : List DirPage) (seq : Nat) : DEntry :=
  (dirs[seq / safeMsgNoOfDirEntry]?.map fun page => page.dEntry (slot seq)).getD DEntry.unused

variable {dirs : List DirPage} {i first : Nat}

theorem Numbered.append (numbered : Numbered dirs) :
    Numbered (dirs ++ [DirPage.new dirs.length]) := by
  intro i page found
  rcases Nat.lt_trichotomy i dirs.length with before | here | behind
  · rw [List.getElem?_append_left before] at found
    exact numbered i page found
  · rw [here, List.getElem?_concat_length] at found
    cases found
    exact here.symm
  · rw [List.getElem?_eq_none (by rw [List.length_append, List.length_singleton]; omega)] at found
    cases found

theorem entryIn_append (dirs : List DirPage) (num seq : Nat) :
    entryIn (dirs ++ [DirPage.new num]) seq = entryIn dirs seq := by
  rw [entryIn, entryIn]
  rcases Nat.lt_trichotomy (seq / safeMsgNoOfDirEntry) dirs.length with before | here | behind
  · rw [List.getElem?_append_left before]
  · rw [here, List.getElem?_concat_length, List.getElem?_eq_none le_rfl]
    rfl
  · rw [List.getElem?_eq_none (by rw [List.length_append, List.length_singleton]; omega),
      List.getElem?_eq_none (by omega)]

theorem numbered_makeDirs (n : Nat) : (makeDirs n).length = n + 1 ∧ Numbered (makeDirs n) := by
  induction n with
  | zero =>
    refine ⟨rfl, ?_⟩
    intro i page found
    cases i with
    | zero =>
      cases found
      rfl
    | succ i => cases found
  | succ n ih =>
    obtain ⟨length, numbered⟩ := ih
    refine ⟨by rw [makeDirs, List.length_append, length, List.length_singleton], ?_⟩
    have next := numbered.append
    rwa [length] at next

theorem entryIn_makeDirs (n seq : Nat) : entryIn (makeDirs n) seq = DEntry.unused := by
  induction n with
  | zero =>
    rw [entryIn, makeDirs]
    rcases Nat.eq_zero_or_pos (seq / safeMsgNoOfDirEntry) with first | later
    · rw [first]
      rfl
    · rw [List.getElem?_eq_none (by rw [List.length_singleton]; omega)]
      rfl
  | succ n ih => rw [makeDirs, entryIn_append, ih]

structure Found (dirs : List DirPage) (dest : Nat) (result : List DirPage × Nat) : Prop where
  there : result.2 = dest
  inside : dest < result.1.length
  numbered : Numbered result.1
  entries : ∀ seq, entryIn result.1 seq = entryIn dirs seq

theorem findDir_found (fuel dest : Nat) {curDir : Nat} (numbered : Numbered dirs)
    (here : curDir < dirs.length) (enough : dest - curDir + (curDir - dest) < fuel) :
    Found dirs dest (findDir fuel dest dirs curDir) := by
  induction fuel generalizing dirs curDir with
  | zero => omega
  | succ fuel ih =>
    have page := List.getElem?_eq_getElem here
    have number := numbered curDir _ page
    rw [findDir, page]
    simp only [number]
    by_cases arrived : dest = curDir
    · rw [if_pos arrived]
      exact ⟨arrived.symm, arrived ▸ here, numbered, fun _ => rfl⟩
    · rw [if_neg arrived]
      by_cases forward : curDir < dest
      · rw [if_pos forward]
        by_cases final : curDir + 1 = dirs.length
        · rw [if_pos final, final]
          have longer : dirs.length < (dirs ++ [DirPage.new dirs.length]).length := by
            rw [List.length_append, List.length_singleton]
            omega
          have next := ih numbered.append longer (by omega)
          exact ⟨next.there, next.inside, next.numbered,
            fun seq => (next.entries seq).trans (entryIn_append dirs _ seq)⟩
        · rw [if_neg final]
          exact ih numbered (by omega) (by omega)
      · rw [if_neg forward]
        exact ih numbered (by omega) (by omega)

theorem numbered_modify (numbered : Numbered dirs) (i : Nat) (e : Fin safeMsgNoOfDirEntry)
    (entry : DEntry) :
    Numbered (dirs.modify i fun page => page.store e entry) := by
  intro j page found
  rw [List.getElem?_modify, Option.map_eq_map] at found
  obtain ⟨old, there, same⟩ := Option.map_eq_some_iff.mp found
  have number := numbered j old there
  rw [← same]
  split
  · exact number
  · exact number

theorem entryIn_modify (dirs : List DirPage) (seq : Nat) (entry : DirPage → DEntry)
    (inside : seq / safeMsgNoOfDirEntry < dirs.length) (other : Nat) :
    entryIn (dirs.modify (seq / safeMsgNoOfDirEntry) fun page => page.store (slot seq) (entry page))
        other
      = if other = seq then entry dirs[seq / safeMsgNoOfDirEntry] else entryIn dirs other := by
  rw [entryIn, entryIn, List.getElem?_modify, Option.map_eq_map]
  by_cases same : other = seq
  · rw [if_pos same, same, List.getElem?_eq_getElem inside]
    simp only [Option.map_some, if_pos, Option.getD_some, DirPage.store, Function.update_self]
  · rw [if_neg same]
    by_cases page : seq / safeMsgNoOfDirEntry = other / safeMsgNoOfDirEntry
    · have elsewhere : slot other ≠ slot seq := by
        intro equal
        have remainders : other % safeMsgNoOfDirEntry = seq % safeMsgNoOfDirEntry :=
          congrArg Fin.val equal
        have left := Nat.div_add_mod other safeMsgNoOfDirEntry
        have right := Nat.div_add_mod seq safeMsgNoOfDirEntry
        rw [remainders, ← page] at left
        omega
      rw [← page, List.getElem?_eq_getElem inside]
      simp only [Option.map_some, if_pos, Option.getD_some, DirPage.store,
        Function.update_of_ne elsewhere]
    · simp only [if_neg page, Option.map_id']

theorem entryIn_tail (dirs : List DirPage) (seq : Nat) :
    entryIn dirs.tail seq = entryIn dirs (safeMsgNoOfDirEntry + seq) := by
  have next : (safeMsgNoOfDirEntry + seq) / safeMsgNoOfDirEntry
      = seq / safeMsgNoOfDirEntry + 1 := by
    rw [Nat.add_div_left seq (by decide)]
  have same : slot (safeMsgNoOfDirEntry + seq) = slot seq := Fin.ext (Nat.add_mod_left _ _)
  rw [entryIn, entryIn, next, same, List.getElem?_tail]

/-! ## Packets that arrive -/

def piece (payloads : List Bytes) (i : Nat) : Bytes := payloads.getD i []

/-- The packets of a message as the sender splits it: several, and none of them empty. -/
structure Sent (payloads : List Bytes) : Prop where
  several : 2 ≤ payloads.length
  nonempty : ∀ payload ∈ payloads, payload ≠ []

/-- A message of which these packets have arrived. -/
structure Collecting (payloads : List Bytes) (delivered : Finset Nat) (m : InMsg) : Prop where
  known : delivered ⊆ Finset.range payloads.length
  begun : delivered.Nonempty
  numbered : Numbered m.dirs
  here : m.curDir < m.dirs.length
  entries : ∀ seq, entryIn m.dirs seq
    = if seq ∈ delivered then DEntry.holding (piece payloads seq) else DEntry.unused
  received : m.received = delivered.card
  msgLen : m.msgLen = ∑ i ∈ delivered, (piece payloads i).length
  lastNo : m.lastNo
    = if payloads.length - 1 ∈ delivered then payloads.length - 1 else 0
  passed : m.passed = 0

variable {payloads : List Bytes}

theorem new_collecting (inside : i < payloads.length) (mID : MsgId) (sec : Security) (now : Nat) :
    Collecting payloads {i}
      (InMsg.new mID (i + 1 = payloads.length) i (piece payloads i) sec now) := by
  obtain ⟨length, numbered⟩ := numbered_makeDirs (i / safeMsgNoOfDirEntry)
  refine
    { known := by simpa using inside
      begun := Finset.singleton_nonempty i
      numbered := numbered_modify numbered _ _ _
      here := ?_
      entries := ?_
      received := (Finset.card_singleton i).symm
      msgLen := (Finset.sum_singleton (fun j => (piece payloads j).length) i).symm
      lastNo := ?_
      passed := rfl }
  · change i / safeMsgNoOfDirEntry < (List.modify _ _ _).length
    rw [List.length_modify, length]
    omega
  · intro seq
    refine (entryIn_modify _ i (fun _ => _) (by rw [length]; omega) seq).trans ?_
    simp only [Finset.mem_singleton, entryIn_makeDirs]
    split
    · rename_i same
      rw [same]
    · rfl
  · change (if decide (i + 1 = payloads.length) = true then i else 0) = _
    simp only [decide_eq_true_iff, Finset.mem_singleton]
    by_cases final : i + 1 = payloads.length
    · rw [if_pos final, if_pos (by omega)]
      omega
    · rw [if_neg final, if_neg (by omega)]

section Collecting

variable {payloads : List Bytes} {delivered : Finset Nat} {m : InMsg}

theorem Collecting.complete_iff (collecting : Collecting payloads delivered m)
    (several : 2 ≤ payloads.length) :
    (m.lastNo ≠ 0 ∧ m.lastNo + 1 = m.received) ↔ delivered = Finset.range payloads.length := by
  rw [collecting.lastNo, collecting.received]
  have size := Finset.card_range payloads.length
  constructor
  · rintro ⟨known, counted⟩
    by_cases final : payloads.length - 1 ∈ delivered
    · rw [if_pos final] at counted
      exact Finset.eq_of_subset_of_card_le collecting.known (by omega)
    · rw [if_neg final] at known
      exact absurd rfl known
  · intro all
    have final : payloads.length - 1 ∈ delivered := by
      rw [all, Finset.mem_range]
      omega
    rw [if_pos final, all, size]
    omega

theorem entry_here {seq : Nat} (place : m.curDir = seq / safeMsgNoOfDirEntry)
    (inside : seq / safeMsgNoOfDirEntry < m.dirs.length) :
    m.entry (slot seq) = some (entryIn m.dirs seq) := by
  rw [InMsg.entry, entryIn, place, List.getElem?_eq_getElem inside]
  rfl

theorem Collecting.walk (collecting : Collecting payloads delivered m) (seq : Nat) :
    ∃ dirs, findDir (m.dirs.length + seq / safeMsgNoOfDirEntry + 1) (seq / safeMsgNoOfDirEntry)
          m.dirs m.curDir = (dirs, seq / safeMsgNoOfDirEntry)
      ∧ Collecting payloads delivered
          { m with dirs := dirs, curDir := seq / safeMsgNoOfDirEntry } := by
  have here := collecting.here
  have enough : ∀ dest, dest - m.curDir + (m.curDir - dest) < m.dirs.length + dest + 1 := by
    intro dest
    omega
  have found := findDir_found (m.dirs.length + seq / safeMsgNoOfDirEntry + 1)
    (seq / safeMsgNoOfDirEntry) collecting.numbered here (enough _)
  refine ⟨_, Prod.ext rfl found.there, ?_⟩
  exact
    { collecting with
      numbered := found.numbered
      here := found.inside
      entries := fun other => (found.entries other).trans (collecting.entries other) }

theorem Collecting.store (collecting : Collecting payloads delivered m)
    (known : i < payloads.length) (new' : i ∉ delivered)
    (place : m.curDir = i / safeMsgNoOfDirEntry) :
    Collecting payloads (insert i delivered)
      { m with
        dirs := m.dirs.modify m.curDir fun page =>
          page.store (slot i) (DEntry.holding (piece payloads i))
        msgLen := m.msgLen + (piece payloads i).length
        lastNo := if decide (i + 1 = payloads.length) then i else m.lastNo
        received := m.received + 1 } := by
  have here := collecting.here
  refine
    { known := ?_
      begun := Finset.insert_nonempty i delivered
      numbered := numbered_modify collecting.numbered _ _ _
      here := ?_
      entries := ?_
      received := ?_
      msgLen := ?_
      lastNo := ?_
      passed := collecting.passed }
  · rw [Finset.insert_subset_iff, Finset.mem_range]
    exact ⟨known, collecting.known⟩
  · change m.curDir < (List.modify _ _ _).length
    rwa [List.length_modify]
  · intro seq
    simp only [place]
    rw [entryIn_modify _ _ (fun _ => _) (by omega), collecting.entries]
    by_cases same : seq = i
    · rw [if_pos same, if_pos (Finset.mem_insert.mpr (Or.inl same)), same]
    · rw [if_neg same]
      simp only [Finset.mem_insert, same, false_or]
  · change m.received + 1 = _
    rw [Finset.card_insert_of_notMem new', collecting.received]
  · change m.msgLen + _ = _
    rw [Finset.sum_insert new', collecting.msgLen, Nat.add_comm]
  · change (if decide (i + 1 = payloads.length) = true then i else m.lastNo) = _
    simp only [decide_eq_true_iff, Finset.mem_insert]
    by_cases final : i + 1 = payloads.length
    · rw [if_pos final, if_pos (Or.inl (by omega))]
      omega
    · have other : ¬ payloads.length - 1 = i := by omega
      simp only [if_neg final, other, false_or, collecting.lastNo]

end Collecting

theorem sum_pieces (payloads : List Bytes) :
    ∑ i ∈ Finset.range payloads.length, (piece payloads i).length = payloads.flatten.length := by
  induction payloads with
  | nil => rfl
  | cons payload rest ih =>
    rw [List.length_cons, Finset.sum_range_succ', List.flatten_cons, List.length_append, ← ih,
      Nat.add_comm]
    rfl

/-! ## Reading -/

/-- A complete message of which `c` packets and part of the next have been read. -/
structure Reading (payloads : List Bytes) (c : Nat) (m : InMsg) : Prop where
  complete : m.lastNo ≠ 0 ∧ m.lastNo + 1 = m.received
  msgLen : m.msgLen = payloads.flatten.length
  curDir : m.curDir = 0
  curPacket : m.curPacket = c % safeMsgNoOfDirEntry
  entries : ∀ s, c % safeMsgNoOfDirEntry ≤ s →
    safeMsgNoOfDirEntry * (c / safeMsgNoOfDirEntry) + s < payloads.length →
    entryIn m.dirs s
      = DEntry.holding (piece payloads (safeMsgNoOfDirEntry * (c / safeMsgNoOfDirEntry) + s))
  beyond : ∀ s, payloads.length ≤ safeMsgNoOfDirEntry * (c / safeMsgNoOfDirEntry) + s →
    c % safeMsgNoOfDirEntry ≤ s → entryIn m.dirs s = DEntry.unused
  within : c ≤ payloads.length
  inside : c < payloads.length → m.curData < (piece payloads c).length
  atEnd : c = payloads.length → m.curData = 0
  passed : m.passed = (payloads.take c).flatten.length + m.curData

section Reading

variable {payloads : List Bytes} {c : Nat} {m : InMsg}

theorem entry_of_entryIn {s : Nat} {data : Bytes} (head : m.curDir = 0)
    (small : s < safeMsgNoOfDirEntry) (some' : data ≠ [])
    (found : entryIn m.dirs s = DEntry.holding data) :
    0 < m.dirs.length ∧ m.entry (slot s) = some (DEntry.holding data) := by
  rw [entryIn, Nat.div_eq_of_lt small] at found
  rw [InMsg.entry, head]
  cases there : m.dirs[0]? with
  | none =>
    rw [there] at found
    have length := congrArg DEntry.dLen found
    exact absurd (List.length_eq_zero_iff.mp length.symm) some'
  | some page =>
    rw [there] at found
    refine ⟨(List.getElem?_eq_some_iff.mp there).1, ?_⟩
    exact congrArg some found

theorem piece_ne_nil (sent : Sent payloads) (before : c < payloads.length) :
    piece payloads c ≠ [] := by
  rw [piece, List.getD_eq_getElem _ _ before]
  exact sent.nonempty _ (List.getElem_mem before)

theorem Reading.current (reading : Reading payloads c m) (sent : Sent payloads)
    (before : c < payloads.length) :
    0 < m.dirs.length
      ∧ m.entry (slot m.curPacket) = some (DEntry.holding (piece payloads c)) := by
  have place := Nat.div_add_mod c safeMsgNoOfDirEntry
  have found := reading.entries (c % safeMsgNoOfDirEntry) le_rfl (by omega)
  rw [place] at found
  rw [reading.curPacket]
  exact entry_of_entryIn reading.curDir (Nat.mod_lt _ (by decide)) (piece_ne_nil sent before) found

theorem Reading.rest (reading : Reading payloads c m) (before : c < payloads.length) :
    payloads.flatten.drop m.passed
      = (piece payloads c).drop m.curData ++ (payloads.drop (c + 1)).flatten := by
  have inside := reading.inside before
  have split : payloads.flatten
      = (payloads.take c).flatten ++ (piece payloads c ++ (payloads.drop (c + 1)).flatten) := by
    conv_lhs => rw [← List.take_append_drop c payloads]
    rw [List.flatten_append, List.drop_eq_getElem_cons before, List.flatten_cons, piece,
      List.getD_eq_getElem _ _ before]
  rw [reading.passed, split, List.drop_length_add_append, List.drop_append_of_le_length inside.le]

variable {n : Nat}

theorem Reading.advance (reading : Reading payloads c m) (before : c < payloads.length)
    (partial' : m.curData + n < (piece payloads c).length) :
    Reading payloads c { m with curData := m.curData + n, passed := m.passed + n } :=
  { reading with
    inside := fun _ => partial'
    atEnd := fun finished => absurd finished before.ne
    passed := by
      have passed := reading.passed
      change m.passed + n = _ + (m.curData + n)
      omega }

theorem next_page (final : c % safeMsgNoOfDirEntry + 1 = safeMsgNoOfDirEntry) :
    (c + 1) % safeMsgNoOfDirEntry = 0
      ∧ (c + 1) / safeMsgNoOfDirEntry = c / safeMsgNoOfDirEntry + 1 := by
  rw [safeMsgNoOfDirEntry] at final ⊢
  omega

theorem same_page (more : c % safeMsgNoOfDirEntry + 1 ≠ safeMsgNoOfDirEntry) :
    (c + 1) % safeMsgNoOfDirEntry = c % safeMsgNoOfDirEntry + 1
      ∧ (c + 1) / safeMsgNoOfDirEntry = c / safeMsgNoOfDirEntry := by
  rw [safeMsgNoOfDirEntry] at more ⊢
  omega

theorem Reading.free (reading : Reading payloads c m) (sent : Sent payloads)
    (before : c < payloads.length) (all : m.curData + n = (piece payloads c).length) :
    Reading payloads (c + 1)
      ({ m with curData := m.curData + n, passed := m.passed + n } : InMsg).freeEntry := by
  obtain ⟨nonempty, _⟩ := reading.current sent before
  have small : c % safeMsgNoOfDirEntry < safeMsgNoOfDirEntry := Nat.mod_lt _ (by decide)
  have zero : c % safeMsgNoOfDirEntry / safeMsgNoOfDirEntry = 0 := Nat.div_eq_of_lt small
  set freed := m.dirs.modify m.curDir fun page =>
    page.store (slot m.curPacket) { page.dEntry (slot m.curPacket) with dGram := none } with dirs
  have kept : ∀ s, c % safeMsgNoOfDirEntry < s → entryIn freed s = entryIn m.dirs s := by
    intro s later
    have modified := entryIn_modify m.dirs (c % safeMsgNoOfDirEntry)
      (fun page => { page.dEntry (slot (c % safeMsgNoOfDirEntry)) with dGram := none })
      (by rw [zero]; exact nonempty) s
    rw [if_neg later.ne', zero] at modified
    rw [dirs, reading.curDir, reading.curPacket]
    exact modified
  have passed : m.passed + n = (payloads.take (c + 1)).flatten.length + 0 := by
    rw [reading.passed, List.take_succ_eq_append_getElem before, List.flatten_append,
      List.length_append, List.flatten_singleton, Nat.add_assoc, all, piece,
      List.getD_eq_getElem _ _ before]
    rfl
  have inside : ∀ later : c + 1 < payloads.length, 0 < (piece payloads (c + 1)).length :=
    fun later => List.length_pos_iff.mpr (piece_ne_nil sent later)
  by_cases final : m.curPacket + 1 = safeMsgNoOfDirEntry
  · -- The last entry of a page: the page goes, and the next one becomes the head.
    have shape : ({ m with curData := m.curData + n, passed := m.passed + n } : InMsg).freeEntry
        = { m with
            dirs := freed.tail
            curDir := 0
            curPacket := 0
            curData := 0
            passed := m.passed + n } := if_pos final
    rw [reading.curPacket] at final
    obtain ⟨wrapped, page⟩ := next_page final
    rw [shape]
    exact
      { complete := reading.complete
        msgLen := reading.msgLen
        curDir := rfl
        curPacket := wrapped.symm
        entries := by
          intro s _ bound
          rw [page] at bound ⊢
          have place : safeMsgNoOfDirEntry * (c / safeMsgNoOfDirEntry + 1) + s
              = safeMsgNoOfDirEntry * (c / safeMsgNoOfDirEntry) + (safeMsgNoOfDirEntry + s) := by
            rw [Nat.mul_succ, Nat.add_assoc]
          rw [place] at bound ⊢
          rw [entryIn_tail, kept _ (by omega)]
          exact reading.entries _ (by omega) bound
        beyond := by
          intro s outside _
          rw [page, Nat.mul_succ, Nat.add_assoc] at outside
          rw [entryIn_tail, kept _ (by omega)]
          exact reading.beyond _ outside (by omega)
        within := before
        inside := inside
        atEnd := fun _ => rfl
        passed := passed }
  · have shape : ({ m with curData := m.curData + n, passed := m.passed + n } : InMsg).freeEntry
        = { m with
            dirs := freed
            curPacket := m.curPacket + 1
            curData := 0
            passed := m.passed + n } := if_neg final
    have packet := reading.curPacket
    obtain ⟨next, page⟩ := same_page (packet ▸ final)
    rw [shape]
    exact
      { complete := reading.complete
        msgLen := reading.msgLen
        curDir := reading.curDir
        curPacket := by rw [next, packet]
        entries := by
          intro s later bound
          rw [page] at bound ⊢
          rw [kept s (by omega)]
          exact reading.entries s (by omega) bound
        beyond := by
          intro s outside later
          rw [page] at outside
          rw [kept s (by omega)]
          exact reading.beyond s outside (by omega)
        within := before
        inside := inside
        atEnd := fun _ => rfl
        passed := passed }

theorem Reading.increment (reading : Reading payloads c m) (sent : Sent payloads)
    (before : c < payloads.length) (available : m.curData + n ≤ (piece payloads c).length) :
    ∃ c', Reading payloads c' (m.incrementCurData n)
      ∧ (m.incrementCurData n).passed = m.passed + n := by
  have found := (reading.current sent before).2
  have entry : ({ m with curData := m.curData + n, passed := m.passed + n } : InMsg).entry
      (slot m.curPacket) = some (DEntry.holding (piece payloads c)) := found
  simp only [InMsg.incrementCurData, entry]
  by_cases all : m.curData + n = (DEntry.holding (piece payloads c)).dLen
  · refine ⟨c + 1, ?_, ?_⟩
    · rw [if_pos all]
      exact reading.free sent before all
    · rw [if_pos all, InMsg.freeEntry]
      split <;> rfl
  · refine ⟨c, ?_, ?_⟩
    · rw [if_neg all]
      exact reading.advance before (lt_of_le_of_ne available all)
    · rw [if_neg all]

theorem Reading.before_of_lt (reading : Reading payloads c m)
    (more : m.passed < payloads.flatten.length) : c < payloads.length := by
  rcases Nat.lt_or_eq_of_le reading.within with less | finished
  · exact less
  · have passed := reading.passed
    rw [reading.atEnd finished, finished, List.take_length] at passed
    omega

theorem getLoop_reads (sent : Sent payloads) (fuel size : Nat) (enough : size ≤ fuel)
    (reading : Reading payloads c m) (available : m.passed + size ≤ payloads.flatten.length) :
    ∃ c' m', InMsg.getLoop fuel m size = some ((payloads.flatten.drop m.passed).take size, m')
      ∧ Reading payloads c' m' ∧ m'.passed = m.passed + size := by
  induction fuel generalizing size m c with
  | zero =>
    obtain rfl : size = 0 := Nat.le_zero.mp enough
    exact ⟨c, m, rfl, reading, rfl⟩
  | succ fuel ih =>
    cases size with
    | zero => exact ⟨c, m, rfl, reading, rfl⟩
    | succ size =>
      have before := reading.before_of_lt (by omega)
      have inside := reading.inside before
      set len := min (size + 1) ((piece payloads c).length - m.curData) with chosen
      have positive : 0 < len := by omega
      obtain ⟨c₁, reading₁, passed₁⟩ :=
        reading.increment sent before (n := len) (by omega)
      obtain ⟨c₂, m₂, rest, reading₂, passed₂⟩ :=
        ih (size + 1 - len) (by omega) reading₁ (by omega)
      have bytes : ((piece payloads c).drop m.curData).take len
          = (payloads.flatten.drop m.passed).take len := by
        rw [reading.rest before, List.take_append_of_le_length]
        rw [List.length_drop]
        omega
      refine ⟨c₂, m₂, ?_, reading₂, by omega⟩
      have split : size + 1 = len + (size + 1 - len) := by omega
      rw [InMsg.getLoop, (reading.current sent before).2]
      simp only [DEntry.holding, Option.getD_some, ← chosen, rest, Option.map_some, bytes,
        passed₁]
      conv_rhs => rw [split, List.take_add, List.drop_drop]

end Reading

/-! ## The arrival of a packet -/

def arrive (payloads : List Bytes) (m : InMsg) (i now : Nat) : Bool × InMsg :=
  m.addPacket (i + 1 = payloads.length) i (piece payloads i) now

section Arrive

variable {payloads : List Bytes} {delivered : Finset Nat} {m : InMsg}

theorem Collecting.reading (collecting : Collecting payloads (Finset.range payloads.length) m)
    (sent : Sent payloads) :
    Reading payloads 0 { m with curDir := 0, curPacket := 0, curData := 0 } where
  complete := (collecting.complete_iff sent.several).mpr rfl
  msgLen := collecting.msgLen.trans (sum_pieces payloads)
  curDir := rfl
  curPacket := rfl
  entries := by
    intro s _ known
    rw [Nat.zero_div, Nat.mul_zero, Nat.zero_add] at known ⊢
    exact (collecting.entries s).trans (if_pos (Finset.mem_range.mpr known))
  beyond := by
    intro s outside _
    rw [Nat.zero_div, Nat.mul_zero, Nat.zero_add] at outside
    exact (collecting.entries s).trans (if_neg fun known => by
      have less := Finset.mem_range.mp known
      omega)
  within := Nat.zero_le _
  inside := fun first => List.length_pos_iff.mpr (piece_ne_nil sent first)
  atEnd := fun _ => rfl
  passed := collecting.passed

theorem arrive_known (collecting : Collecting payloads delivered m) (sent : Sent payloads)
    (missing : delivered ≠ Finset.range payloads.length) (again : i ∈ delivered) (now : Nat) :
    (arrive payloads m i now).1 = false
      ∧ Collecting payloads delivered (arrive payloads m i now).2 := by
  have incomplete := mt (collecting.complete_iff sent.several).mp missing
  obtain ⟨dirs, found, walked⟩ := collecting.walk i
  have known := Finset.mem_range.mp (collecting.known again)
  have entry := entry_here rfl walked.here
  rw [walked.entries, if_pos again] at entry
  have used : ¬ (DEntry.holding (piece payloads i)).dLen = 0 :=
    fun empty => piece_ne_nil sent known (List.length_eq_zero_iff.mp empty)
  simp only [arrive, InMsg.addPacket, if_neg incomplete, found, entry, if_neg used]
  exact ⟨trivial, walked⟩

theorem arrive_new (collecting : Collecting payloads delivered m) (sent : Sent payloads)
    (known : i < payloads.length) (new' : i ∉ delivered) (now : Nat) :
    (insert i delivered = Finset.range payloads.length →
        (arrive payloads m i now).1 = true ∧ Reading payloads 0 (arrive payloads m i now).2
          ∧ (arrive payloads m i now).2.passed = 0)
      ∧ (insert i delivered ≠ Finset.range payloads.length →
        (arrive payloads m i now).1 = false
          ∧ Collecting payloads (insert i delivered) (arrive payloads m i now).2) := by
  have missing : delivered ≠ Finset.range payloads.length := by
    intro all
    exact new' (all ▸ Finset.mem_range.mpr known)
  have incomplete := mt (collecting.complete_iff sent.several).mp missing
  obtain ⟨dirs, found, walked⟩ := collecting.walk i
  have entry := entry_here rfl walked.here
  rw [walked.entries, if_neg new'] at entry
  have stored := walked.store known new' rfl
  -- With the last packet missing its number is 0, which is less than the packets counted.
  have signal : ∀ {p : InMsg}, Collecting payloads (insert i delivered) p →
      (p.lastNo + 1 = p.received ↔ insert i delivered = Finset.range payloads.length) := by
    intro p more
    rw [← more.complete_iff sent.several]
    have several : 1 < p.received := by
      rw [more.received, Finset.card_insert_of_notMem new']
      have begun := Finset.card_pos.mpr collecting.begun
      omega
    omega
  have counted := signal stored
  simp only [arrive, InMsg.addPacket, if_neg incomplete, found, entry]
  rw [if_pos (show DEntry.unused.dLen = 0 from rfl)]
  constructor
  · intro all
    rw [InMsg.storePacket, if_pos (counted.mpr all)]
    refine ⟨rfl, ?_, collecting.passed⟩
    rw [all] at stored
    exact stored.reading sent
  · intro more
    rw [InMsg.storePacket, if_neg (mt counted.mp more)]
    exact ⟨rfl, { stored with }⟩

theorem arrive_complete {c : Nat} (reading : Reading payloads c m) (i now : Nat) :
    arrive payloads m i now = (false, m) := if_pos reading.complete

/-- Either a packet is missing, or the message is ready to be read. -/
def Stage (payloads : List Bytes) (m : InMsg) (delivered : Finset Nat) : Prop :=
  (delivered ≠ Finset.range payloads.length ∧ Collecting payloads delivered m)
    ∨ (delivered = Finset.range payloads.length ∧ Reading payloads 0 m ∧ m.passed = 0)

/-- What the arrivals are for: the set of numbers grows, and the moment when it becomes
complete is signalled. -/
def gather (payloads : List Bytes) (delivered : Finset Nat) (arrival : Nat × Nat) :
    Bool × Finset Nat :=
  (delivered ≠ Finset.range payloads.length
      ∧ insert arrival.1 delivered = Finset.range payloads.length,
    insert arrival.1 delivered)

theorem arrive_gathers (sent : Sent payloads) (stage : Stage payloads m delivered)
    {arrival : Nat × Nat} (known : arrival.1 < payloads.length) :
    (arrive payloads m arrival.1 arrival.2).1 = (gather payloads delivered arrival).1
      ∧ Stage payloads (arrive payloads m arrival.1 arrival.2).2
          (gather payloads delivered arrival).2 := by
  rcases stage with ⟨missing, collecting⟩ | ⟨all, reading, unread⟩
  · by_cases again : arrival.1 ∈ delivered
    · obtain ⟨silent, next⟩ := arrive_known collecting sent missing again arrival.2
      have same : insert arrival.1 delivered = delivered := Finset.insert_eq_of_mem again
      simp only [gather, same, silent]
      refine ⟨?_, Or.inl ⟨missing, next⟩⟩
      simp only [missing, and_false, decide_false]
    · obtain ⟨ready, more⟩ := arrive_new collecting sent known again arrival.2
      by_cases all : insert arrival.1 delivered = Finset.range payloads.length
      · obtain ⟨signal, reading, unread⟩ := ready all
        refine ⟨?_, Or.inr ⟨all, reading, unread⟩⟩
        rw [signal, gather, decide_eq_true ⟨missing, all⟩]
      · obtain ⟨silent, next⟩ := more all
        refine ⟨?_, Or.inl ⟨all, next⟩⟩
        rw [silent, gather, decide_eq_false fun both => all both.2]
  · have member : arrival.1 ∈ delivered := by
      rw [all, Finset.mem_range]
      exact known
    rw [arrive_complete reading]
    simp only [gather, Finset.insert_eq_of_mem member]
    refine ⟨?_, Or.inr ⟨all, reading, unread⟩⟩
    simp only [all, ne_eq, not_true, false_and, decide_false]

theorem gather_delivered (payloads : List Bytes) (delivered : Finset Nat)
    (arrivals : List (Nat × Nat)) :
    (outputs (gather payloads) delivered arrivals).2
      = delivered ∪ (arrivals.map Prod.fst).toFinset := by
  induction arrivals generalizing delivered with
  | nil => exact (Finset.union_empty _).symm
  | cons arrival rest ih =>
    rw [outputs, ih, List.map_cons, List.toFinset_cons, gather, Finset.insert_union,
      Finset.union_insert]

end Arrive

/-! ## Uses of a complete message -/

inductive Use where
  | read (size : Nat)
  | packet (seq now : Nat)
  deriving DecidableEq, Repr

inductive Outcome where
  | bytes (read : Option Bytes)
  | signal (ready : Bool)
  deriving DecidableEq, Repr

def useMsg (payloads : List Bytes) (m : InMsg) : Use → Outcome × InMsg
  | .read size => (.bytes (m.getn size).1, (m.getn size).2)
  | .packet seq now => (.signal (arrive payloads m seq now).1, (arrive payloads m seq now).2)

/-- What a complete message is for: its content is read from the beginning to the end. -/
def useContent (content : Bytes) (read : Nat) : Use → Outcome × Nat
  | .read size =>
    if read + size ≤ content.length then
      (.bytes (some ((content.drop read).take size)), read + size)
    else (.bytes none, read)
  | .packet _ _ => (.signal false, read)

def ReadTo (payloads : List Bytes) (m : InMsg) (read : Nat) : Prop :=
  m.passed = read ∧ ∃ c, Reading payloads c m

variable {read : Nat}

theorem useMsg_reads (sent : Sent payloads) {m : InMsg} (readable : ReadTo payloads m read)
    (use : Use) :
    (useMsg payloads m use).1 = (useContent payloads.flatten read use).1
      ∧ ReadTo payloads (useMsg payloads m use).2 (useContent payloads.flatten read use).2 := by
  obtain ⟨rfl, c, reading⟩ := readable
  cases use with
  | packet seq now =>
    rw [useMsg, arrive_complete reading]
    exact ⟨rfl, rfl, c, reading⟩
  | read size =>
    rw [useMsg, useContent, InMsg.getn, reading.msgLen]
    by_cases available : m.passed + size ≤ payloads.flatten.length
    · obtain ⟨c', m', loop, reading', passed⟩ :=
        getLoop_reads sent size size le_rfl reading available
      rw [if_pos available, if_neg (by omega), loop]
      exact ⟨rfl, passed, c', reading'⟩
    · rw [if_neg available, if_pos (by omega)]
      exact ⟨rfl, rfl, c, reading⟩

theorem consumed_iff (sent : Sent payloads) {m : InMsg} (readable : ReadTo payloads m read) :
    m.consumed = true ↔ read = payloads.flatten.length := by
  obtain ⟨rfl, c, reading⟩ := readable
  have first : 0 < payloads.length := by
    have several := sent.several
    omega
  have nonempty : payloads.flatten.length ≠ 0 := by
    intro empty
    have all := List.flatten_eq_nil_iff.mp (List.length_eq_zero_iff.mp empty)
    exact sent.nonempty _ (List.getElem_mem first) (all _ (List.getElem_mem first))
  rw [InMsg.consumed, reading.msgLen, decide_eq_true_iff]
  omega

/-! ## The whole message -/

def Complete (payloads : List Bytes) (seqs : List Nat) : Prop := ∀ i < payloads.length, i ∈ seqs

instance (payloads : List Bytes) (seqs : List Nat) : Decidable (Complete payloads seqs) :=
  inferInstanceAs (Decidable (∀ i < payloads.length, i ∈ seqs))

theorem complete_iff {seqs : List Nat} (known : ∀ i ∈ seqs, i < payloads.length) :
    seqs.toFinset = Finset.range payloads.length ↔ Complete payloads seqs := by
  rw [Finset.ext_iff]
  constructor
  · intro same i inside
    exact List.mem_toFinset.mp ((same i).mpr (Finset.mem_range.mpr inside))
  · intro complete i
    rw [List.mem_toFinset, Finset.mem_range]
    exact ⟨known i, complete i⟩

def arriveAll (payloads : List Bytes) (m : InMsg) (arrivals : List (Nat × Nat)) :
    List Bool × InMsg :=
  outputs (fun m arrival => arrive payloads m arrival.1 arrival.2) m arrivals

theorem seen_succ (first : Nat) {rest : List (Nat × Nat)} {j : Nat} (inside : j < rest.length) :
    (first :: (rest.take (j + 1)).map Prod.fst).toFinset
      = insert rest[j].1 (first :: (rest.take j).map Prod.fst).toFinset := by
  ext i
  rw [List.take_succ_eq_append_getElem inside, List.map_append]
  simp only [List.mem_toFinset, List.mem_cons, List.mem_append, List.map_cons, List.map_nil,
    List.not_mem_nil, or_false, Finset.mem_insert]
  constructor
  · rintro (same | earlier | last)
    · exact Or.inr (Or.inl same)
    · exact Or.inr (Or.inr earlier)
    · exact Or.inl last
  · rintro (last | same | earlier)
    · exact Or.inr (Or.inr last)
    · exact Or.inl same
    · exact Or.inr (Or.inl earlier)

def assembled (payloads : List Bytes) (mID : MsgId) (sec : Security) (first now : Nat)
    (rest : List (Nat × Nat)) : List Bool × InMsg :=
  arriveAll payloads
    (InMsg.new mID (first + 1 = payloads.length) first (piece payloads first) sec now) rest

theorem new_stage (sent : Sent payloads) (mID : MsgId) (sec : Security) (now : Nat)
    (knownFirst : first < payloads.length) :
    Stage payloads
      (InMsg.new mID (first + 1 = payloads.length) first (piece payloads first) sec now)
      {first} := by
  have several := sent.several
  refine Or.inl ⟨?_, new_collecting knownFirst mID sec now⟩
  intro all
  have counted := congrArg Finset.card all
  rw [Finset.card_singleton, Finset.card_range] at counted
  omega

theorem assembled_gathers (sent : Sent payloads) (mID : MsgId) (sec : Security) (now : Nat)
    {rest : List (Nat × Nat)} (knownFirst : first < payloads.length)
    (knownRest : ∀ arrival ∈ rest, arrival.1 < payloads.length) :
    (assembled payloads mID sec first now rest).1 = (outputs (gather payloads) {first} rest).1
      ∧ Stage payloads (assembled payloads mID sec first now rest).2
        (first :: rest.map Prod.fst).toFinset := by
  have begun := new_stage sent mID sec now knownFirst
  obtain ⟨signals, stage⟩ := outputs_refine (gather payloads) (Stage payloads) _
    (fun m delivered arrival known stage => arrive_gathers sent stage known) knownRest begun
  rw [gather_delivered] at stage
  refine ⟨signals, ?_⟩
  rw [List.toFinset_cons]
  exact stage

theorem known_seen {rest : List (Nat × Nat)} (knownFirst : first < payloads.length)
    (knownRest : ∀ arrival ∈ rest, arrival.1 < payloads.length) :
    ∀ i ∈ first :: rest.map Prod.fst, i < payloads.length := by
  intro i member
  rcases List.mem_cons.mp member with same | later
  · exact same ▸ knownFirst
  · obtain ⟨arrival, taken, same⟩ := List.mem_map.mp later
    exact same ▸ knownRest arrival taken

theorem assembled_reading (sent : Sent payloads) (mID : MsgId) (sec : Security) (now : Nat)
    {rest : List (Nat × Nat)} (knownFirst : first < payloads.length)
    (knownRest : ∀ arrival ∈ rest, arrival.1 < payloads.length)
    (complete : Complete payloads (first :: rest.map Prod.fst)) :
    Reading payloads 0 (assembled payloads mID sec first now rest).2
      ∧ (assembled payloads mID sec first now rest).2.passed = 0 := by
  obtain ⟨_, stage⟩ := assembled_gathers sent mID sec now knownFirst knownRest
  rcases stage with ⟨missing, _⟩ | ⟨_, reading, unread⟩
  · exact absurd ((complete_iff (known_seen knownFirst knownRest)).mpr complete) missing
  · exact ⟨reading, unread⟩

/-- Packets of a message arrive in any order and any number of times. Completion is
signalled at the first moment when no number is missing and at no other, and from then
on reads return the payloads in the order of their numbers. -/
theorem reassembly (payloads : List Bytes) (sent : Sent payloads) (mID : MsgId) (sec : Security)
    (first now : Nat) (rest : List (Nat × Nat)) (knownFirst : first < payloads.length)
    (knownRest : ∀ arrival ∈ rest, arrival.1 < payloads.length) :
    let seen := fun j => first :: (rest.take j).map Prod.fst
    let message := assembled payloads mID sec first now rest
    (∀ j < rest.length, message.1[j]?
        = some (decide (Complete payloads (seen (j + 1)) ∧ ¬ Complete payloads (seen j))))
      ∧ (Complete payloads (seen rest.length) → ∀ uses : List Use,
        let used := outputs (useMsg payloads) message.2 uses
        let expected := outputs (useContent payloads.flatten) 0 uses
        used.1 = expected.1 ∧ (used.2.consumed = true ↔ expected.2 = payloads.flatten.length)) := by
  intro seen message
  have known : ∀ j, ∀ i ∈ seen j, i < payloads.length := fun j =>
    known_seen knownFirst fun arrival taken => knownRest arrival (List.mem_of_mem_take taken)
  constructor
  · intro j inside
    have signals : message.1 = _ := (assembled_gathers sent mID sec now knownFirst knownRest).1
    have delivered : (outputs (gather payloads) {first} (rest.take j)).2 = (seen j).toFinset := by
      rw [gather_delivered, List.toFinset_cons]
      rfl
    have grown : (seen (j + 1)).toFinset = insert rest[j].1 (seen j).toFinset :=
      seen_succ first inside
    rw [signals, getElem?_outputs, List.getElem?_eq_getElem inside, Option.map_some, delivered,
      gather, ← grown]
    simp only [Option.some_inj, decide_eq_decide, ne_eq, complete_iff (known _)]
    exact and_comm
  · intro complete uses
    have all : seen rest.length = first :: rest.map Prod.fst := by
      simp only [seen, List.take_length]
    rw [all] at complete
    obtain ⟨reading, unread⟩ := assembled_reading sent mID sec now knownFirst knownRest complete
    obtain ⟨same, final⟩ := outputs_refine (useContent payloads.flatten) (ReadTo payloads)
      (fun _ => True) (fun m read use _ readable => useMsg_reads sent readable use)
      (fun use _ => trivial) (show ReadTo payloads message.2 0 from ⟨unread, 0, reading⟩)
    exact ⟨same, consumed_iff sent final⟩

/-- Two packets, the second one first and then again at the end. -/
theorem reassembly_two :
    let payloads := [ascii "ab", ascii "c"]
    let message := assembled payloads ⟨1, 2, 3, 4⟩ ⟨none, none, none⟩ 1 10
      [(1, 11), (0, 12), (1, 13)]
    message.1[1]? = some true
      ∧ (outputs (useMsg payloads) message.2 [.read 2, .read 1, .read 1]).1
        = [.bytes (some (ascii "ab")), .bytes (some (ascii "c")), .bytes none] := by
  intro payloads message
  have sent : Sent payloads := ⟨by decide, by decide⟩
  obtain ⟨signals, reads⟩ := reassembly payloads sent ⟨1, 2, 3, 4⟩ ⟨none, none, none⟩ 1 10
    [(1, 11), (0, 12), (1, 13)] (by decide) (by decide)
  refine ⟨(signals 1 (by decide)).trans (by decide), ?_⟩
  exact (reads (by decide) [.read 2, .read 1, .read 1]).1.trans (by decide)

end Condor.Cedar
