import Condor.Cedar.Reassembly

/-! `getn`, `getPtr` and `peek` of a complete message follow the cursor of its content except at its
end: `peek` always reads there, and `getPtr` does when the packets filled their pages. -/
namespace Condor.Cedar
open Condor.Utils Condor.Lib

namespace InMsg

/-- What the search of `getPtr` finds. -/
inductive Search where
  | found (n : Nat) (copyNeeded : Bool)
  | notFound
  | nullAccess

def searchDelim (m : InMsg) (delim : UInt8) : Nat → Nat → Nat → Nat → Nat → Bool → Option Search
  | 0, _, _, _, _, _ => none
  | fuel + 1, tempDir, tempPkt, tempData, n, copyNeeded =>
    match m.dirs[tempDir]? with
    | none => some .nullAccess
    | some page =>
      let e := page.dEntry (slot tempPkt)
      let msgbufsize := e.dLen - tempData
      if e.dGram = none ∧ msgbufsize ≠ 0 then some .nullAccess
      else
        match ((e.dGram.getD []).drop tempData).findIdx? (· = delim) with
        | some k => some (.found (n + k) (copyNeeded || n + k = msgbufsize))
        | none =>
          if tempPkt + 1 = safeMsgNoOfDirEntry then
            if tempDir + 1 = m.dirs.length then some .notFound
            else searchDelim m delim fuel (tempDir + 1) 0 0 (n + msgbufsize) true
          else if (page.dEntry (slot (tempPkt + 1))).dGram = none then some .notFound
          else searchDelim m delim fuel tempDir (tempPkt + 1) 0 (n + msgbufsize) true

inductive Reply where
  | bytes (read : Bytes)
  | failed
  /-- `TRUE` and the byte. -/
  | next (c : UInt8)
  /-- `FALSE`. -/
  | noNext
  /-- Nothing: the call does not return. -/
  | lost
  deriving DecidableEq

def getPtr (m : InMsg) (delim : UInt8) : Reply × InMsg :=
  match m.searchDelim delim (safeMsgNoOfDirEntry * m.dirs.length + 1) m.curDir m.curPacket
    m.curData 1 false with
  | none | some .nullAccess => (.lost, m)
  | some .notFound => (.failed, m)
  | some (.found n false) =>
    let dGram := ((m.entry (slot m.curPacket)).bind DEntry.dGram).getD []
    (.bytes ((dGram.drop m.curData).take n), m.incrementCurData n)
  | some (.found n true) =>
    match m.getn n with
    | (some read, m) => (.bytes read, m)
    | (none, m) => (.failed, m)

def peek (m : InMsg) : Reply :=
  match ((m.entry (slot m.curPacket)).bind DEntry.dGram).bind fun dGram => dGram[m.curData]? with
  | some c => .next c
  | none => .lost

inductive Call where
  | getn (size : Nat)
  | getPtr (delim : UInt8)
  | peek

def call (m : InMsg) : Call → Reply × InMsg
  | .getn size =>
    match m.getn size with
    | (some read, m) => (.bytes read, m)
    | (none, m) => (.failed, m)
  | .getPtr delim => m.getPtr delim
  | .peek => (m.peek, m)

end InMsg

open InMsg

def cursorCall (content : Bytes) (c : Nat) : Call → Reply × Nat
  | .getn size =>
    if c + size ≤ content.length then (.bytes ((content.drop c).take size), c + size)
    else (.failed, c)
  | .getPtr delim =>
    match (content.drop c).findIdx? (· = delim) with
    | some k => (.bytes ((content.drop c).take (k + 1)), c + (k + 1))
    | none => (.failed, c)
  | .peek =>
    match content[c]? with
    | some byte => (.next byte, c)
    | none => (.noNext, c)

def Inside (payloads : List Bytes) (c : Nat) : Call → Prop
  | .getn _ => True
  | .getPtr _ => c < payloads.flatten.length ∨ ¬ safeMsgNoOfDirEntry ∣ payloads.length
  | .peek => c < payloads.flatten.length

def AllInside (payloads : List Bytes) : Nat → List Call → Prop
  | _, [] => True
  | c, call :: calls =>
    Inside payloads c call ∧
      AllInside payloads (cursorCall payloads.flatten c call).2 calls

/-! ## Pages that are left -/

def pageCount (payloads : List Bytes) : Nat := (payloads.length - 1) / safeMsgNoOfDirEntry + 1

/-- A message that is read, with the pages of the packets that are left and no others. -/
structure Cursor (payloads : List Bytes) (c : Nat) (m : InMsg) : Prop
    extends Reading payloads c m where
  pages : m.dirs.length + c / safeMsgNoOfDirEntry = pageCount payloads

section Pages
variable {payloads : List Bytes} {c : Nat} {m : InMsg}

theorem findDir_length (fuel dest bound : Nat) {dirs : List DirPage} {curDir : Nat}
    (numbered : Numbered dirs) (here : curDir < dirs.length) (inside : dest < bound)
    (small : dirs.length ≤ bound) : (findDir fuel dest dirs curDir).1.length ≤ bound := by
  induction fuel generalizing dirs curDir with
  | zero => exact small
  | succ fuel ih =>
    have page := List.getElem?_eq_getElem here
    have number := numbered curDir _ page
    rw [findDir, page]
    simp only [number]
    split_ifs with arrived forward final
    · exact small
    · rw [final]
      exact ih numbered.append (by simp) (by simp; omega)
    · exact ih numbered (by omega) small
    · exact ih numbered (by omega) small

theorem storePacket_length (m : InMsg) (last : Bool) (seq : Nat) (data : Bytes) (now : Nat) :
    (m.storePacket last seq data now).2.dirs.length = m.dirs.length := by
  simp only [InMsg.storePacket]
  split_ifs <;> simp

theorem arrive_pages {delivered : Finset Nat} (stage : Stage payloads m delivered) {i now : Nat}
    (known : i < payloads.length) (small : m.dirs.length ≤ pageCount payloads) :
    (arrive payloads m i now).2.dirs.length ≤ pageCount payloads := by
  unfold arrive InMsg.addPacket
  split_ifs with complete
  · exact small
  · rcases stage with ⟨-, collecting⟩ | ⟨-, reading, -⟩
    · have walked := findDir_length
        (m.dirs.length + i / safeMsgNoOfDirEntry + 1) (i / safeMsgNoOfDirEntry)
        (pageCount payloads) collecting.numbered collecting.here
        (Nat.lt_succ_of_le (Nat.div_le_div_right (by omega))) small
      simp only
      split
      · exact walked
      · split_ifs
        · rw [storePacket_length]
          exact walked
        · exact walked
    · exact absurd reading.complete complete

variable {first : Nat} {rest : List (Nat × Nat)}

theorem assembled_pages (sent : Sent payloads) (mID : MsgId) (sec : Security) (now : Nat)
    (knownFirst : first < payloads.length)
    (knownRest : ∀ arrival ∈ rest, arrival.1 < payloads.length) :
    (assembled payloads mID sec first now rest).2.dirs.length ≤ pageCount payloads := by
  have start : (InMsg.new mID (first + 1 = payloads.length) first (piece payloads first) sec
      now).dirs.length ≤ pageCount payloads := by
    change (List.modify _ _ _).length ≤ _
    rw [List.length_modify, (numbered_makeDirs _).1]
    exact Nat.succ_le_succ (Nat.div_le_div_right (by omega))
  have kept := outputs_refine (gather payloads)
    (fun m delivered => Stage payloads m delivered ∧ m.dirs.length ≤ pageCount payloads)
    (fun arrival => arrival.1 < payloads.length)
    (fun m delivered arrival known current =>
      ⟨(arrive_gathers sent current.1 known).1, (arrive_gathers sent current.1 known).2,
        arrive_pages current.1 known current.2⟩)
    knownRest ⟨new_stage sent mID sec now knownFirst, start⟩
  exact kept.2.2

theorem assembled_cursor (sent : Sent payloads) (mID : MsgId) (sec : Security) (now : Nat)
    (knownFirst : first < payloads.length)
    (knownRest : ∀ arrival ∈ rest, arrival.1 < payloads.length)
    (complete : Complete payloads (first :: rest.map Prod.fst)) :
    Cursor payloads 0 (assembled payloads mID sec first now rest).2
      ∧ (assembled payloads mID sec first now rest).2.passed = 0 := by
  obtain ⟨reading, unread⟩ := assembled_reading sent mID sec now knownFirst knownRest complete
  refine ⟨⟨reading, ?_⟩, unread⟩
  have most := assembled_pages sent mID sec now knownFirst knownRest
  have several := sent.several
  generalize (assembled payloads mID sec first now rest).2 = m at reading most
  have last := reading.entries (payloads.length - 1) (Nat.zero_le _)
    (by rw [Nat.zero_div]; omega)
  rw [Nat.zero_div, Nat.mul_zero, Nat.zero_add] at last
  have filled := piece_ne_nil sent (show payloads.length - 1 < payloads.length by omega)
  have least : (payloads.length - 1) / safeMsgNoOfDirEntry < m.dirs.length := by
    by_contra outside
    rw [entryIn, List.getElem?_eq_none (by omega)] at last
    have length := congrArg DEntry.dLen last
    exact filled (List.length_eq_zero_iff.mp length.symm)
  rw [Nat.zero_div]
  unfold pageCount at most ⊢
  omega

theorem freeEntry_length (m : InMsg) :
    m.freeEntry.dirs.length =
      if m.curPacket + 1 = safeMsgNoOfDirEntry then m.dirs.length - 1 else m.dirs.length := by
  unfold InMsg.freeEntry
  split_ifs <;> simp

theorem Cursor.increment (cursor : Cursor payloads c m) (sent : Sent payloads)
    (before : c < payloads.length) {n : Nat}
    (available : m.curData + n ≤ (piece payloads c).length) :
    ∃ c', Cursor payloads c' (m.incrementCurData n)
      ∧ (m.incrementCurData n).passed = m.passed + n := by
  obtain ⟨occupied, found⟩ := cursor.current sent before
  have entry : ({ m with curData := m.curData + n, passed := m.passed + n } : InMsg).entry
      (slot m.curPacket) = some (DEntry.holding (piece payloads c)) := found
  have pages := cursor.pages
  have packet := cursor.curPacket
  simp only [InMsg.incrementCurData, entry]
  by_cases all : m.curData + n = (DEntry.holding (piece payloads c)).dLen
  · rw [if_pos all]
    refine ⟨c + 1, ⟨cursor.free sent before all, ?_⟩, ?_⟩
    · rw [freeEntry_length]
      change (if m.curPacket + 1 = _ then m.dirs.length - 1 else m.dirs.length) + _ = _
      split_ifs with final
      · rw [(next_page (packet ▸ final)).2]
        omega
      · rw [(same_page (packet ▸ final)).2]
        exact pages
    · rw [InMsg.freeEntry]
      split <;> rfl
  · rw [if_neg all]
    exact ⟨c, ⟨cursor.advance before (lt_of_le_of_ne available all), pages⟩, rfl⟩

theorem getLoop_cursor (sent : Sent payloads) (fuel size : Nat) (cursor : Cursor payloads c m)
    (available : m.passed + size ≤ payloads.flatten.length) {bytes : Bytes} {m' : InMsg}
    (done : InMsg.getLoop fuel m size = some (bytes, m')) : ∃ c', Cursor payloads c' m' := by
  induction fuel generalizing size m c bytes with
  | zero =>
    cases size with
    | zero =>
      cases done
      exact ⟨c, cursor⟩
    | succ size => cases done
  | succ fuel ih =>
    cases size with
    | zero =>
      cases done
      exact ⟨c, cursor⟩
    | succ size =>
      have before := cursor.before_of_lt (by omega)
      have inside := cursor.inside before
      rw [InMsg.getLoop, (cursor.current sent before).2] at done
      simp only [DEntry.holding] at done
      obtain ⟨⟨later, m₁⟩, loop, same⟩ := Option.map_eq_some_iff.mp done
      obtain ⟨rfl, rfl⟩ := Prod.mk.inj same
      obtain ⟨c₁, cursor₁, passed₁⟩ := cursor.increment sent before
        (n := min (size + 1) ((piece payloads c).length - m.curData)) (by omega)
      exact ih _ cursor₁ (by omega) loop

theorem Cursor.getn (cursor : Cursor payloads c m) (sent : Sent payloads) {size : Nat}
    (available : m.passed + size ≤ payloads.flatten.length) :
    ∃ m', m.getn size = (some ((payloads.flatten.drop m.passed).take size), m')
      ∧ m'.passed = m.passed + size ∧ ∃ c', Cursor payloads c' m' := by
  obtain ⟨c', m', loop, -, passed⟩ :=
    getLoop_reads sent size size le_rfl cursor.toReading available
  rw [InMsg.getn, cursor.msgLen, if_neg (by omega), loop]
  exact ⟨m', rfl, passed, getLoop_cursor sent size size cursor available loop⟩

end Pages

/-! ## The search for a delimiter -/

section Search
variable {payloads : List Bytes} {c : Nat} {m : InMsg} {delim : UInt8}
variable {dir pkt q : Nat}

theorem entryIn_place (m : InMsg) (small : pkt < safeMsgNoOfDirEntry) :
    entryIn m.dirs (safeMsgNoOfDirEntry * dir + pkt) =
      (m.dirs[dir]?.map fun page => page.dEntry (slot pkt)).getD DEntry.unused := by
  have page : (safeMsgNoOfDirEntry * dir + pkt) / safeMsgNoOfDirEntry = dir := by
    rw [Nat.mul_add_div (by decide), Nat.div_eq_of_lt small, Nat.add_zero]
  have entry : slot (safeMsgNoOfDirEntry * dir + pkt) = slot pkt :=
    Fin.ext (Nat.mul_add_mod _ _ _)
  rw [entryIn, page, entry]

theorem Cursor.page (cursor : Cursor payloads c m) (sent : Sent payloads)
    (small : pkt < safeMsgNoOfDirEntry) (ahead : c ≤ q) (inside : q < payloads.length)
    (place : safeMsgNoOfDirEntry * (c / safeMsgNoOfDirEntry + dir) + pkt = q) :
    ∃ page, m.dirs[dir]? = some page
      ∧ page.dEntry (slot pkt) = DEntry.holding (piece payloads q) := by
  have split := Nat.div_add_mod c safeMsgNoOfDirEntry
  rw [Nat.mul_add, Nat.add_assoc] at place
  have found := cursor.entries (safeMsgNoOfDirEntry * dir + pkt) (by omega) (by omega)
  rw [place, entryIn_place m small] at found
  cases there : m.dirs[dir]? with
  | none =>
    rw [there] at found
    have length := congrArg DEntry.dLen found
    exact absurd (List.length_eq_zero_iff.mp length.symm) (piece_ne_nil sent inside)
  | some page =>
    rw [there] at found
    exact ⟨page, rfl, found⟩

theorem Cursor.page_end (cursor : Cursor payloads c m) {page : DirPage}
    (small : pkt < safeMsgNoOfDirEntry) (ahead : c ≤ q) (outside : payloads.length ≤ q)
    (place : safeMsgNoOfDirEntry * (c / safeMsgNoOfDirEntry + dir) + pkt = q)
    (there : m.dirs[dir]? = some page) : page.dEntry (slot pkt) = DEntry.unused := by
  have split := Nat.div_add_mod c safeMsgNoOfDirEntry
  rw [Nat.mul_add, Nat.add_assoc] at place
  have found := cursor.beyond (safeMsgNoOfDirEntry * dir + pkt) (by omega) (by omega)
  rwa [entryIn_place m small, there] at found

/-- Whether the packet is the last of the message, as the search can tell. -/
theorem Cursor.last_page (cursor : Cursor payloads c m) (inside : q < payloads.length)
    (place : safeMsgNoOfDirEntry * (c / safeMsgNoOfDirEntry + dir + 1) = q + 1) :
    dir + 1 = m.dirs.length ↔ q + 1 = payloads.length := by
  have pages := cursor.pages
  unfold pageCount at pages
  rw [safeMsgNoOfDirEntry] at *
  omega

/-- One pass of the search: the delimiter is in the packet, or the search goes on with the next. -/
theorem Cursor.search_step (cursor : Cursor payloads c m) (sent : Sent payloads) (delim : UInt8)
    (data n fuel : Nat) (copy : Bool) (small : pkt < safeMsgNoOfDirEntry) (ahead : c ≤ q)
    (inside : q < payloads.length)
    (place : safeMsgNoOfDirEntry * (c / safeMsgNoOfDirEntry + dir) + pkt = q) :
    ∃ dir' pkt', pkt' < safeMsgNoOfDirEntry
      ∧ safeMsgNoOfDirEntry * (c / safeMsgNoOfDirEntry + dir') + pkt' = q + 1
      ∧ m.searchDelim delim (fuel + 1) dir pkt data n copy =
        match ((piece payloads q).drop data).findIdx? (· = delim) with
        | some k => some (.found (n + k) (copy || n + k = (piece payloads q).length - data))
        | none =>
          if q + 1 = payloads.length then some .notFound
          else
            m.searchDelim delim fuel dir' pkt' 0 (n + ((piece payloads q).length - data))
              true := by
  obtain ⟨page, there, entry⟩ := cursor.page sent small ahead inside place
  by_cases final : pkt + 1 = safeMsgNoOfDirEntry
  · have next : safeMsgNoOfDirEntry * (c / safeMsgNoOfDirEntry + dir + 1) = q + 1 := by
      rw [Nat.mul_add_one]
      omega
    refine ⟨dir + 1, 0, by decide, next, ?_⟩
    have last := cursor.last_page inside next
    simp [InMsg.searchDelim, there, entry, DEntry.holding, final, last]
  · have next : safeMsgNoOfDirEntry * (c / safeMsgNoOfDirEntry + dir) + (pkt + 1) = q + 1 := by
      omega
    refine ⟨dir, pkt + 1, by omega, next, ?_⟩
    have last : (page.dEntry (slot (pkt + 1))).dGram = none ↔ q + 1 = payloads.length := by
      by_cases finished : q + 1 = payloads.length
      · rw [cursor.page_end (by omega) (by omega) finished.ge next there]
        simp [DEntry.unused, finished]
      · obtain ⟨page', there', entry'⟩ :=
          cursor.page sent (show pkt + 1 < safeMsgNoOfDirEntry by omega) (by omega)
            (show q + 1 < payloads.length by omega) next
        obtain rfl : page = page' := Option.some.inj (there.symm.trans there')
        rw [entry']
        simp [DEntry.holding, finished]
    simp [InMsg.searchDelim, there, entry, DEntry.holding, final, last]

theorem drop_flatten (inside : q < payloads.length) :
    (payloads.drop q).flatten = piece payloads q ++ (payloads.drop (q + 1)).flatten := by
  rw [List.drop_eq_getElem_cons inside, List.flatten_cons, piece, List.getD_eq_getElem _ _ inside]

theorem Cursor.search_from (cursor : Cursor payloads c m) (sent : Sent payloads) (delim : UInt8)
    (fuel : Nat) :
    ∀ {dir pkt q n : Nat}, pkt < safeMsgNoOfDirEntry → c ≤ q → q < payloads.length →
    safeMsgNoOfDirEntry * (c / safeMsgNoOfDirEntry + dir) + pkt = q → payloads.length - q ≤ fuel →
    m.searchDelim delim fuel dir pkt 0 n true =
      match (payloads.drop q).flatten.findIdx? (· = delim) with
      | some k => some (.found (n + k) true)
      | none => some .notFound := by
  induction fuel with
  | zero =>
    intro dir pkt q n small ahead inside place enough
    omega
  | succ fuel ih =>
    intro dir pkt q n small ahead inside place enough
    obtain ⟨dir', pkt', small', place', step⟩ :=
      cursor.search_step sent delim 0 n fuel true small ahead inside place
    rw [step, drop_flatten inside, List.findIdx?_append, List.drop_zero]
    cases (piece payloads q).findIdx? (· = delim) with
    | some k => simp
    | none =>
      by_cases finished : q + 1 = payloads.length
      · simp [finished]
      · have later := ih (n := n + (piece payloads q).length) small' (by omega) (by omega)
          place' (by omega)
        simp only [finished, if_false, Nat.sub_zero, later, Option.none_or]
        cases (payloads.drop (q + 1)).flatten.findIdx? (· = delim) with
        | none => rfl
        | some k =>
          simp
          omega

theorem Cursor.search (cursor : Cursor payloads c m) (sent : Sent payloads) (delim : UInt8)
    (before : c < payloads.length) :
    m.searchDelim delim (safeMsgNoOfDirEntry * m.dirs.length + 1) m.curDir m.curPacket m.curData 1
      false =
      match (payloads.flatten.drop m.passed).findIdx? (· = delim) with
      | some k => some (.found (1 + k) ((piece payloads c).length - m.curData ≤ 1 + k))
      | none => some .notFound := by
  have pages := cursor.pages
  have split := Nat.div_add_mod c safeMsgNoOfDirEntry
  obtain ⟨dir', pkt', small', place', step⟩ :=
    cursor.search_step sent delim m.curData 1 (safeMsgNoOfDirEntry * m.dirs.length) false
      (Nat.mod_lt c (by decide)) le_rfl before (show _ * (_ + 0) + _ = c from split)
  rw [cursor.curDir, cursor.curPacket, step, cursor.rest before, List.findIdx?_append]
  cases found : ((piece payloads c).drop m.curData).findIdx? (· = delim) with
  | some k =>
    have bound := (List.findIdx?_eq_some_iff_getElem.mp found).1
    rw [List.length_drop] at bound
    simp
    omega
  | none =>
    by_cases finished : c + 1 = payloads.length
    · simp [finished]
    · have fuel : payloads.length - (c + 1) ≤ safeMsgNoOfDirEntry * m.dirs.length := by
        unfold pageCount at pages
        rw [safeMsgNoOfDirEntry] at *
        omega
      have later := cursor.search_from sent delim _
        (n := 1 + ((piece payloads c).length - m.curData)) small' (by omega)
        (show c + 1 < payloads.length by omega) place' fuel
      simp only [finished, if_false, later, Option.none_or]
      cases (payloads.drop (c + 1)).flatten.findIdx? (· = delim) with
      | none => rfl
      | some k =>
        simp
        omega

theorem Cursor.getPtr_found (cursor : Cursor payloads c m) (sent : Sent payloads) {k : Nat}
    (found : (payloads.flatten.drop m.passed).findIdx? (· = delim) = some k) :
    ∃ m', m.getPtr delim = (.bytes ((payloads.flatten.drop m.passed).take (k + 1)), m')
      ∧ m'.passed = m.passed + (k + 1) ∧ ∃ c', Cursor payloads c' m' := by
  have bound := (List.findIdx?_eq_some_iff_getElem.mp found).1
  rw [List.length_drop] at bound
  have before := cursor.before_of_lt (by omega)
  have inside := cursor.inside before
  have searched := cursor.search sent delim before
  rw [found] at searched
  simp only [Nat.add_comm 1 k] at searched
  by_cases copied : (piece payloads c).length - m.curData ≤ k + 1
  · obtain ⟨m', read, passed, kept⟩ := cursor.getn sent
      (show m.passed + (k + 1) ≤ payloads.flatten.length by omega)
    refine ⟨m', ?_, passed, kept⟩
    simp only [InMsg.getPtr, searched, copied, decide_true, read]
  · obtain ⟨c', kept, passed⟩ := cursor.increment sent before (n := k + 1) (by omega)
    refine ⟨m.incrementCurData (k + 1), ?_, passed, c', kept⟩
    have bytes : ((piece payloads c).drop m.curData).take (k + 1) =
        (payloads.flatten.drop m.passed).take (k + 1) := by
      rw [cursor.rest before, List.take_append_of_le_length (by rw [List.length_drop]; omega)]
    simp only [InMsg.getPtr, searched, copied, decide_false, (cursor.current sent before).2,
      Option.bind_some, DEntry.holding, Option.getD_some, bytes]

theorem Cursor.getPtr_notFound (cursor : Cursor payloads c m) (sent : Sent payloads)
    (before : c < payloads.length)
    (absent : (payloads.flatten.drop m.passed).findIdx? (· = delim) = none) :
    m.getPtr delim = (.failed, m) := by
  have searched := cursor.search sent delim before
  rw [absent] at searched
  simp only [InMsg.getPtr, searched]

/-- Behind the last packet there is a page only if that packet was not the last of its page. -/
theorem Cursor.end_pages (cursor : Cursor payloads c m) (sent : Sent payloads)
    (finished : c = payloads.length) :
    m.dirs.length = if safeMsgNoOfDirEntry ∣ payloads.length then 0 else 1 := by
  have pages := cursor.pages
  have several := sent.several
  unfold pageCount at pages
  rw [safeMsgNoOfDirEntry] at *
  split_ifs <;> omega

theorem Cursor.getPtr_end (cursor : Cursor payloads c m) (sent : Sent payloads)
    (finished : c = payloads.length) :
    m.getPtr delim = (if safeMsgNoOfDirEntry ∣ payloads.length then .lost else .failed, m) := by
  have pages := cursor.end_pages sent finished
  have packet := cursor.curPacket
  split_ifs at pages ⊢ with filled
  · have none : m.dirs[m.curDir]? = none := List.getElem?_eq_none (by omega)
    simp [InMsg.getPtr, InMsg.searchDelim, none]
  · obtain ⟨page, there⟩ : ∃ page, m.dirs[0]? = some page :=
      ⟨_, List.getElem?_eq_getElem (by omega)⟩
    have split := Nat.div_add_mod c safeMsgNoOfDirEntry
    have small : c % safeMsgNoOfDirEntry < safeMsgNoOfDirEntry := Nat.mod_lt _ (by decide)
    have unused := cursor.page_end small le_rfl finished.ge split there
    have place : safeMsgNoOfDirEntry * (c / safeMsgNoOfDirEntry + 0) +
        (c % safeMsgNoOfDirEntry + 1) = c + 1 := by
      rw [Nat.add_zero]
      omega
    have next : c % safeMsgNoOfDirEntry + 1 ≠ safeMsgNoOfDirEntry →
        page.dEntry (slot (c % safeMsgNoOfDirEntry + 1)) = DEntry.unused := fun more =>
      cursor.page_end (by omega) (by omega) (by omega) place there
    have searched : m.searchDelim delim (safeMsgNoOfDirEntry * m.dirs.length + 1) m.curDir
        m.curPacket m.curData 1 false = some .notFound := by
      rw [cursor.curDir, packet, InMsg.searchDelim, there]
      simp only [unused, DEntry.unused, Nat.zero_sub, ne_eq, not_true, and_false, if_false,
        Option.getD_none, List.drop_nil, List.findIdx?_nil]
      by_cases final : c % safeMsgNoOfDirEntry + 1 = safeMsgNoOfDirEntry
      · rw [if_pos final, if_pos (by omega)]
      · rw [if_neg final, if_pos (by rw [next final]; rfl)]
    simp only [InMsg.getPtr, searched]

end Search

/-! ## Runs -/

section Runs
variable {payloads : List Bytes} {m : InMsg} {read : Nat}

def AtCursor (payloads : List Bytes) (m : InMsg) (read : Nat) : Prop :=
  m.passed = read ∧ ∃ c, Cursor payloads c m

theorem Cursor.finished_iff {c : Nat} (cursor : Cursor payloads c m) :
    c = payloads.length ↔ payloads.flatten.length ≤ m.passed := by
  constructor
  · intro finished
    rw [cursor.passed, finished, List.take_length]
    omega
  · intro all
    by_contra more
    have before : c < payloads.length := lt_of_le_of_ne cursor.within more
    have rest := congrArg List.length (cursor.rest before)
    have inside := cursor.inside before
    rw [List.length_drop, List.length_append, List.length_drop] at rest
    omega

theorem Cursor.peek {c : Nat} (cursor : Cursor payloads c m) (sent : Sent payloads) :
    m.peek = match payloads.flatten[m.passed]? with
      | some byte => .next byte
      | none => .lost := by
  by_cases finished : c = payloads.length
  · have all := cursor.finished_iff.mp finished
    rw [List.getElem?_eq_none all]
    have nothing : (m.entry (slot m.curPacket)).bind DEntry.dGram = none := by
      rw [InMsg.entry, cursor.curDir, cursor.curPacket]
      cases there : m.dirs[0]? with
      | none => rfl
      | some page =>
        have unused := cursor.page_end (Nat.mod_lt c (by decide)) le_rfl finished.ge
          (Nat.div_add_mod c safeMsgNoOfDirEntry) there
        simp [unused, DEntry.unused]
    simp [InMsg.peek, nothing]
  · have before : c < payloads.length := lt_of_le_of_ne cursor.within finished
    have inside := cursor.inside before
    have byte : payloads.flatten[m.passed]? = (piece payloads c)[m.curData]? := by
      have head := congrArg (fun bytes => bytes[0]?) (cursor.rest before)
      simp only [List.getElem?_drop, Nat.add_zero] at head
      rw [head, List.getElem?_append_left (by rw [List.length_drop]; omega), List.getElem?_drop]
      rfl
    rw [byte, List.getElem?_eq_getElem inside]
    simp [InMsg.peek, (cursor.current sent before).2, DEntry.holding,
      List.getElem?_eq_getElem inside]

/-- One call: it follows the cursor exactly when it stays inside the pages. -/
theorem call_follows_iff (sent : Sent payloads) (at' : AtCursor payloads m read) (call : Call) :
    ((m.call call).1 = (cursorCall payloads.flatten read call).1 ↔ Inside payloads read call)
      ∧ (Inside payloads read call →
        AtCursor payloads (m.call call).2 (cursorCall payloads.flatten read call).2) := by
  obtain ⟨rfl, c, cursor⟩ := at'
  cases call with
  | getn size =>
    simp only [InMsg.call, cursorCall, Inside]
    by_cases available : m.passed + size ≤ payloads.flatten.length
    · obtain ⟨m', bytes, passed, kept⟩ := cursor.getn sent available
      rw [bytes, if_pos available]
      exact ⟨by simp, fun _ => ⟨passed, kept⟩⟩
    · have beyond : m.getn size = (none, m) := by
        rw [InMsg.getn, cursor.msgLen, if_pos (by omega)]
      rw [beyond, if_neg available]
      exact ⟨by simp, fun _ => ⟨rfl, c, cursor⟩⟩
  | getPtr delim =>
    simp only [InMsg.call, cursorCall, Inside]
    cases found : (payloads.flatten.drop m.passed).findIdx? (· = delim) with
    | some k =>
      have bound := (List.findIdx?_eq_some_iff_getElem.mp found).1
      rw [List.length_drop] at bound
      obtain ⟨m', bytes, passed, kept⟩ := cursor.getPtr_found sent found
      rw [bytes]
      exact ⟨iff_of_true rfl (.inl (by omega)), fun _ => ⟨passed, kept⟩⟩
    | none =>
      by_cases finished : c = payloads.length
      · have all := cursor.finished_iff.mp finished
        rw [cursor.getPtr_end sent finished]
        refine ⟨?_, fun _ => ⟨rfl, c, cursor⟩⟩
        by_cases filled : safeMsgNoOfDirEntry ∣ payloads.length
        · rw [if_pos filled]
          refine iff_of_false (by simp) ?_
          rintro (more | unfilled)
          · omega
          · exact unfilled filled
        · rw [if_neg filled]
          exact iff_of_true rfl (.inr filled)
      · have before : c < payloads.length := lt_of_le_of_ne cursor.within finished
        have more := mt cursor.finished_iff.mpr finished
        rw [cursor.getPtr_notFound sent before found]
        exact ⟨iff_of_true rfl (.inl (by omega)), fun _ => ⟨rfl, c, cursor⟩⟩
  | peek =>
    simp only [InMsg.call, cursorCall, Inside, cursor.peek sent]
    by_cases more : m.passed < payloads.flatten.length
    · rw [List.getElem?_eq_getElem more]
      exact ⟨iff_of_true rfl more, fun _ => ⟨rfl, c, cursor⟩⟩
    · rw [List.getElem?_eq_none (by omega)]
      exact ⟨iff_of_false (by simp) more, fun inside => absurd inside more⟩

theorem calls_follow_iff (sent : Sent payloads) {calls : List Call} :
    ∀ {m : InMsg} {read : Nat}, AtCursor payloads m read →
    ((outputs InMsg.call m calls).1 = (outputs (cursorCall payloads.flatten) read calls).1 ↔
      AllInside payloads read calls) := by
  induction calls with
  | nil =>
    intro m read at'
    exact iff_of_true rfl trivial
  | cons call calls ih =>
    intro m read at'
    obtain ⟨reply, next⟩ := call_follows_iff sent at' call
    rw [outputs, outputs, AllInside, List.cons.injEq, reply]
    exact and_congr_right fun inside => ih (next inside)

end Runs

end Condor.Cedar
