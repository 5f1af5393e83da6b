import Mathlib
import Condor.Cedar.ReliSock

/-! The packets carry the bytes that were put, cut where the sender's buffer was full; the receiver
reads them in any pieces. In explicit mode `put_bytes` leaves less room for the header than
`snd_packet` writes. -/
namespace Condor.Cedar
open Condor.Lib Condor.Utils

/-- The room that `put_bytes` leaves for the header. -/
def reserved (mode : MdMode) : Nat := if mode = .alwaysOn then maxHeaderSize else normalHeaderSize

def overlap (mode : MdMode) : Nat := SndMsg.headerSize mode - reserved mode

def capacity (mode : MdMode) : Nat := condorIoBufSize - reserved mode

def frame (mode : MdMode) (checker : Digest) (last : Bool) (payload : Bytes) : Bytes :=
  ((if last then 1 else 0) :: bigEndian 4 payload.length) ++
    (if mode ≠ .off then checker.compute payload else []) ++ payload

theorem headerSize_eq (mode : MdMode) : SndMsg.headerSize mode = reserved mode + overlap mode := by
  cases mode <;> rfl

/-! ### The sender -/

/-- The buffer of a message holds nothing, or some bytes after the room for the header. -/
def Holds (mode : MdMode) (b : Buf) (pending : Bytes) : Prop :=
  (b.dta = [] ∧ pending = []) ∨
    ∃ space, space.length = reserved mode ∧ b.dta = space ++ pending

namespace SndMsg

theorem headerSize_of_on {mode : MdMode} (on : mode ≠ .off) : headerSize mode = 21 := by
  rw [headerSize, if_pos on]
  rfl

theorem length_header (mode : MdMode) (checker : Digest) (data : Bytes) (c : UInt8) (n : Nat) :
    ((c :: bigEndian 4 n) ++ if mode ≠ .off then checker.compute data else []).length =
      headerSize mode := by
  by_cases on : mode ≠ .off
  · rw [if_pos on, List.length_append, List.length_cons, length_bigEndian, checker.size,
      headerSize_of_on on]
    rfl
  · rw [if_neg on, List.append_nil, List.length_cons, length_bigEndian, headerSize, if_neg on]
    rfl

variable {space : Bytes}

theorem sndPacket_of_holds {m : SndMsg} {pending : Bytes} (last : Bool)
    (room : space.length = reserved m.mode) (holds : m.buf.dta = space ++ pending)
    (long : overlap m.mode ≤ pending.length) :
    m.sndPacket last =
      some (frame m.mode m.mdChecker last (pending.drop (overlap m.mode)),
        { m with buf := Buf.reset }) := by
  have header := headerSize_eq m.mode
  have used : m.buf.dta.length = headerSize m.mode + (pending.drop (overlap m.mode)).length := by
    rw [holds, List.length_append, List.length_drop]
    omega
  have small := m.buf.fits
  have payload : m.buf.dta.drop (headerSize m.mode) = pending.drop (overlap m.mode) := by
    rw [holds, header, ← room, List.drop_length_add_append]
  have mac : m.mac =
      some (if m.mode ≠ .off then m.mdChecker.compute (pending.drop (overlap m.mode)) else []) := by
    rw [SndMsg.mac]
    by_cases on : m.mode ≠ .off
    · have size := headerSize_of_on on
      rw [if_pos on, if_pos on, Buf.computeMD, if_pos (by omega), ← payload, size]
    · rw [if_neg on, if_neg on]
  have ns : ((m.buf.dta.length : Int) - headerSize m.mode) =
      (pending.drop (overlap m.mode)).length := by omega
  have len : (((pending.drop (overlap m.mode)).length : Int) % 2 ^ 32).toNat =
      (pending.drop (overlap m.mode)).length := by
    rw [condorIoBufSize] at small
    omega
  have size := length_header m.mode m.mdChecker (pending.drop (overlap m.mode))
    (if last then 1 else 0) (pending.drop (overlap m.mode)).length
  have packet : m.buf.flush (((if last then 1 else 0) ::
        bigEndian 4 (pending.drop (overlap m.mode)).length) ++
        if m.mode ≠ .off then m.mdChecker.compute (pending.drop (overlap m.mode)) else []) =
      (frame m.mode m.mdChecker last (pending.drop (overlap m.mode)), Buf.reset) := by
    rw [Buf.flush, size, payload, List.take_of_length_le]
    · rfl
    · rw [List.length_append, size]
      exact Nat.le_of_eq used.symm
  have sent : ((frame m.mode m.mdChecker last (pending.drop (overlap m.mode))).length : Int) =
      (pending.drop (overlap m.mode)).length + headerSize m.mode := by
    rw [frame, List.length_append, size]
    omega
  rw [sndPacket, ns, len, mac]
  rw [Option.bind_eq_bind, Option.bind_some, packet]
  exact if_pos sent

/-- A header that is larger than what the buffer holds is not sent. -/
theorem sndPacket_of_short {m : SndMsg} {pending : Bytes} (last : Bool)
    (room : space.length = reserved m.mode) (holds : m.buf.dta = space ++ pending)
    (short : pending.length < overlap m.mode) : m.sndPacket last = none := by
  have header := headerSize_eq m.mode
  have on : m.mode ≠ .off := by
    intro off
    rw [off] at short
    exact absurd short (Nat.not_lt_zero _)
  have size := headerSize_of_on on
  have used : m.buf.dta.length < 21 := by
    rw [holds, List.length_append]
    omega
  rw [sndPacket, mac, if_pos on, Buf.computeMD, if_neg (by omega)]
  rfl

end SndMsg

theorem reserved_lt (mode : MdMode) : reserved mode + overlap mode < condorIoBufSize := by
  cases mode <;> decide

theorem reserved_pos (mode : MdMode) : 0 < reserved mode := by
  cases mode <;> decide

def sentFull (mode : MdMode) (checker : Digest) (chunks : List Bytes) : Bytes :=
  chunks.flatMap fun c => frame mode checker false (c.drop (overlap mode))

namespace ReliSock

variable {m : SndMsg} {pending data : Bytes}

/-- After a full buffer was sent there is room for at least one byte. -/
theorem makeRoom_spec (holds : Holds m.mode m.buf pending) (written : Bytes) :
    ∃ chunks rest b,
      makeRoom m written =
        some ({ m with buf := b }, written ++ sentFull m.mode m.mdChecker chunks) ∧
      Holds m.mode b rest ∧ pending = chunks.flatten ++ rest ∧ rest.length < capacity m.mode ∧
      ∀ c ∈ chunks, c.length = capacity m.mode := by
  have small := reserved_lt m.mode
  have bound := m.buf.fits
  rw [makeRoom]
  by_cases full : m.buf.full = true
  · have used : m.buf.dta.length = condorIoBufSize := of_decide_eq_true full
    rcases holds with ⟨none, -⟩ | ⟨space, room, holds⟩
    · rw [none] at used
      cases used
    · have size : pending.length = capacity m.mode := by
        rw [holds, List.length_append] at used
        rw [capacity]
        omega
      have long : overlap m.mode ≤ pending.length := by
        rw [size, capacity]
        omega
      refine ⟨[pending], [], Buf.reset, ?_, .inl ⟨rfl, rfl⟩, by simp, ?_, ?_⟩
      · rw [if_pos full, SndMsg.sndPacket_of_holds false room holds long, sentFull,
          List.flatMap_singleton]
        rfl
      · rw [List.length_nil, capacity]
        omega
      · intro c inside
        rw [List.mem_singleton.mp inside, size]
  · have used : m.buf.dta.length ≠ condorIoBufSize := fun same => full (decide_eq_true same)
    refine ⟨[], pending, m.buf, ?_, holds, rfl, ?_, ?_⟩
    · rw [if_neg full, sentFull, List.flatMap_nil, List.append_nil]
    · rcases holds with ⟨-, rfl⟩ | ⟨space, room, holds⟩
      · rw [List.length_nil, capacity]
        omega
      · rw [holds, List.length_append] at used bound
        rw [capacity]
        omega
    · intro c inside
      cases inside

theorem seek_spec {mode : MdMode} {b : Buf} (holds : Holds mode b pending) :
    ∃ space, space.length = reserved mode ∧
      (if b.empty then b.seek (reserved mode) else b).dta = space ++ pending := by
  have small := reserved_lt mode
  have first := reserved_pos mode
  rcases holds with ⟨none, rfl⟩ | ⟨space, room, holds⟩
  · refine ⟨List.replicate (reserved mode) 0, List.length_replicate, ?_⟩
    have empty : b.empty = true := decide_eq_true (by rw [none]; rfl)
    have here : reserved mode < condorIoBufSize := by omega
    rw [if_pos empty, Buf.dta_seek _ here, none, List.nil_append, List.append_nil]
    rfl
  · refine ⟨space, room, ?_⟩
    have some : ¬ b.empty = true := by
      intro empty
      have used : b.dta.length = 0 := of_decide_eq_true empty
      rw [holds, List.length_append] at used
      omega
    rw [if_neg some, holds]

/-- One pass stores a byte at least, and the next one goes on with the others. -/
theorem putLoop_succ (fuel : Nat) (holds : Holds m.mode m.buf pending) (written data : Bytes) :
    ∃ chunks rest b,
      pending = chunks.flatten ++ rest ∧ rest.length < capacity m.mode ∧
      (∀ c ∈ chunks, c.length = capacity m.mode) ∧
      Holds m.mode b (rest ++ data.take (capacity m.mode - rest.length)) ∧
      putLoop (reserved m.mode) (fuel + 1) m written data =
        if data.length ≤ capacity m.mode - rest.length then
          some ({ m with buf := b }, written ++ sentFull m.mode m.mdChecker chunks)
        else
          putLoop (reserved m.mode) fuel { m with buf := b }
            (written ++ sentFull m.mode m.mdChecker chunks)
            (data.drop (capacity m.mode - rest.length)) := by
  obtain ⟨chunks, rest, b, made, held, split, less, filled⟩ := makeRoom_spec holds written
  obtain ⟨space, room, ready⟩ := seek_spec held
  generalize buffer : (if b.empty then b.seek (reserved m.mode) else b) = b' at ready
  have free : b'.numFree = capacity m.mode - rest.length := by
    rw [Buf.numFree, ready, List.length_append, capacity]
    omega
  refine ⟨chunks, rest, (b'.putMax data).1, split, less, filled, .inr ⟨space, room, ?_⟩, ?_⟩
  · change b'.dta ++ data.take b'.numFree = _
    rw [ready, free, List.append_assoc]
  · rw [putLoop, made]
    change (if data.length ≤ ((if b.empty then b.seek (reserved m.mode) else b).putMax data).2
      then _ else _) = _
    rw [buffer]
    have tw : (b'.putMax data).2 = min data.length (capacity m.mode - rest.length) := by
      rw [← free]
      rfl
    by_cases all : data.length ≤ capacity m.mode - rest.length
    · rw [if_pos all, if_pos (by omega)]
      rfl
    · have some : min data.length b'.numFree = capacity m.mode - rest.length := by omega
      rw [if_neg all, if_neg (by omega), some]
      rfl

theorem putLoop_spec {fuel : Nat} (holds : Holds m.mode m.buf pending) (written data : Bytes)
    (enough : data.length < fuel) :
    ∃ chunks rest b,
      putLoop (reserved m.mode) fuel m written data =
        some ({ m with buf := b }, written ++ sentFull m.mode m.mdChecker chunks) ∧
      Holds m.mode b rest ∧ pending ++ data = chunks.flatten ++ rest ∧
      (∀ c ∈ chunks, c.length = capacity m.mode) ∧ (data ≠ [] → rest ≠ []) := by
  induction fuel generalizing m pending written data with
  | zero => exact absurd enough (Nat.not_lt_zero _)
  | succ fuel ih =>
    obtain ⟨chunks, rest, b, split, less, filled, held, step⟩ :=
      putLoop_succ fuel holds written data
    rw [step]
    by_cases all : data.length ≤ capacity m.mode - rest.length
    · rw [List.take_of_length_le all] at held
      refine ⟨chunks, rest ++ data, b, if_pos all, held, ?_, filled, ?_⟩
      · rw [split, List.append_assoc]
      · intro some none
        exact some (List.append_eq_nil_iff.mp none).2
    · have shorter : (data.drop (capacity m.mode - rest.length)).length < fuel := by
        rw [List.length_drop]
        omega
      have left : data.drop (capacity m.mode - rest.length) ≠ [] := by
        rw [Ne, List.drop_eq_nil_iff]
        omega
      obtain ⟨more, last, b', run, held', split', filled', nonempty⟩ :=
        ih (m := { m with buf := b }) held
          (written ++ sentFull m.mode m.mdChecker chunks) _ shorter
      refine ⟨chunks ++ more, last, b', ?_, held', ?_, ?_, fun _ => nonempty left⟩
      · rw [if_neg all]
        refine run.trans ?_
        rw [sentFull, sentFull, sentFull, List.flatMap_append, List.append_assoc]
      · rw [List.append_assoc, List.take_append_drop] at split'
        rw [split, List.append_assoc, split', List.flatten_append, List.append_assoc]
      · intro c inside
        rcases List.mem_append.mp inside with old | new
        · exact filled c old
        · exact filled' c new

variable {C : Cipher}

theorem putBytes_of_putLoop {s : ReliSock C} {written : Bytes} {mode : MdMode}
    (sock : s.mdMode = mode)
    (run : putLoop (reserved mode) ((C.wrap s.crypto data).1.length + 1) s.sndMsg s.written
      (C.wrap s.crypto data).1 = some (m, written)) :
    s.putBytes data =
      (true, { s with
        crypto := (C.wrap s.crypto data).2
        ignoreNextEncodeEom := false
        sndMsg := m
        written := written }) := by
  have header : (if s.isOutgoingMD5On then maxHeaderSize else normalHeaderSize) =
      reserved mode := by
    rw [isOutgoingMD5On, reserved, ← sock]
    simp only [decide_eq_true_eq]
  rw [putBytes, header]
  generalize C.wrap s.crypto data = wrapped at run ⊢
  obtain ⟨dta, crypto⟩ := wrapped
  dsimp only at run ⊢
  rw [run]

structure Paired (tx rx : ReliSock C) (mode : MdMode) : Prop where
  sock : tx.mdMode = mode
  snd : tx.sndMsg.mode = mode
  rcv : rx.rcvMsg.mode = mode
  checker : rx.rcvMsg.mdChecker = tx.sndMsg.mdChecker
  key : rx.crypto = tx.crypto
  empty : tx.sndMsg.buf.dta = []
  chain : rx.rcvMsg.buf = ChainBuf.reset
  waiting : rx.rcvMsg.ready = false
  encodes : tx.ignoreNextEncodeEom = false
  decodes : rx.ignoreNextDecodeEom = false
  sends : tx.allowEmptyMessageFlag = false
  receives : rx.allowEmptyMessageFlag = false

def midway (start : ReliSock C) (data : Bytes) (chunks : List Bytes) (b : Buf) : ReliSock C :=
  { start with
    sndMsg := { start.sndMsg with buf := b }
    crypto := (C.wrap start.crypto data).2
    written := start.written ++ sentFull start.sndMsg.mode start.sndMsg.mdChecker chunks }

/-- Full packets have left, and the rest is pending. -/
structure Sending (start s : ReliSock C) (data : Bytes) (chunks : List Bytes) (rest : Bytes) :
    Prop where
  same : ∃ b, Holds start.sndMsg.mode b rest ∧ s = start.midway data chunks b
  split : (C.wrap start.crypto data).1 = chunks.flatten ++ rest
  filled : ∀ c ∈ chunks, c.length = capacity start.sndMsg.mode
  pending : data ≠ [] → rest ≠ []

section Send
variable {start s : ReliSock C} (sock : start.mdMode = start.sndMsg.mode)
  (encodes : start.ignoreNextEncodeEom = false)
include sock encodes

variable {rest : Bytes}

theorem Sending.putBytes {chunks : List Bytes} (sending : Sending start s data chunks rest)
    {more : Bytes} (some : more ≠ []) :
    (s.putBytes more).1 = true ∧
      ∃ chunks rest, Sending start (s.putBytes more).2 (data ++ more) chunks rest := by
  obtain ⟨b, holds, rfl⟩ := sending.same
  have wrapped := C.wrap_append start.crypto data more
  have nonempty : (C.wrap (C.wrap start.crypto data).2 more).1 ≠ [] := by
    intro none
    have size := C.length_wrap (C.wrap start.crypto data).2 more
    rw [none] at size
    exact some (List.eq_nil_of_length_eq_zero size.symm)
  obtain ⟨more', rest', b', run, holds', split', filled', pending'⟩ :=
    putLoop_spec (m := { start.sndMsg with buf := b }) holds
      (start.written ++ sentFull start.sndMsg.mode start.sndMsg.mdChecker chunks)
      (C.wrap (C.wrap start.crypto data).2 more).1 (Nat.lt_succ_self _)
  have done := putBytes_of_putLoop (s := start.midway data chunks b) sock run
  rw [done]
  refine ⟨rfl, chunks ++ more', rest', ?_, ?_, ?_, fun _ => pending' nonempty⟩
  · refine ⟨b', holds', ?_⟩
    simp only [midway, wrapped, sentFull, List.flatMap_append, List.append_assoc, encodes]
  · rw [wrapped, sending.split, List.append_assoc, split', List.flatten_append, List.append_assoc]
  · intro c inside
    rcases List.mem_append.mp inside with old | new
    · exact sending.filled c old
    · exact filled' c new

theorem Sending.putAll {chunks : List Bytes} (sending : Sending start s data chunks rest)
    {puts : List Bytes} (some : ∀ p ∈ puts, p ≠ []) :
    ∃ chunks rest, Sending start (s.putAll puts) (data ++ puts.flatten) chunks rest := by
  induction puts generalizing s data chunks rest with
  | nil =>
    rw [List.flatten_nil, List.append_nil]
    exact ⟨chunks, rest, sending⟩
  | cons p puts ih =>
    obtain ⟨-, chunks', rest', next⟩ :=
      sending.putBytes sock encodes (some p List.mem_cons_self)
    rw [ReliSock.putAll, List.flatten_cons, ← List.append_assoc]
    exact ih next fun q inside => some q (List.mem_cons_of_mem p inside)

end Send

theorem sending_start {start : ReliSock C} (empty : start.sndMsg.buf.dta = []) :
    Sending start start [] [] [] := by
  obtain ⟨mdMode, sndMsg, rcvMsg, encode, decode, allow, crypto, key, written, sock⟩ := start
  refine ⟨⟨sndMsg.buf, .inl ⟨empty, rfl⟩, ?_⟩, ?_, nofun, fun some => absurd rfl some⟩
  · cases crypto <;> simp [midway, sentFull, Cipher.wrap]
  · cases crypto <;> rfl

theorem Sending.endOfMessage {start s : ReliSock C} {chunks : List Bytes} {rest : Bytes}
    (sending : Sending start s data chunks rest) (encodes : start.ignoreNextEncodeEom = false)
    (nonempty : data ≠ []) :
    if overlap start.sndMsg.mode ≤ rest.length then
      s.endOfMessageEncode.1 = true ∧
        s.endOfMessageEncode.2.written =
          start.written ++ sentFull start.sndMsg.mode start.sndMsg.mdChecker chunks ++
            frame start.sndMsg.mode start.sndMsg.mdChecker true
              (rest.drop (overlap start.sndMsg.mode))
    else s.endOfMessageEncode.1 = false := by
  obtain ⟨b, holds, rfl⟩ := sending.same
  have pending := sending.pending nonempty
  rcases holds with ⟨-, none⟩ | ⟨space, room, holds⟩
  · exact absurd none pending
  · have full : ¬ b.empty = true := by
      intro empty
      have used : b.dta.length = 0 := of_decide_eq_true empty
      have first := reserved_pos start.sndMsg.mode
      rw [holds, List.length_append] at used
      omega
    rw [endOfMessageEncode]
    simp only [midway, encodes, full, Bool.false_eq_true, if_false, Bool.not_false, if_true]
    by_cases long : overlap start.sndMsg.mode ≤ rest.length
    · rw [if_pos long,
        SndMsg.sndPacket_of_holds (m := { start.sndMsg with buf := b }) true room holds long]
      exact ⟨rfl, rfl⟩
    · rw [if_neg long, SndMsg.sndPacket_of_short (m := { start.sndMsg with buf := b }) true room
        holds (Nat.lt_of_not_le long)]

end ReliSock

/-! ### The receiver -/

namespace RcvMsg

theorem frame_header (mode : MdMode) (checker : Digest) (last : Bool) (payload rest : Bytes) :
    ∃ hdr, hdr.length = SndMsg.headerSize mode ∧
      frame mode checker last payload ++ rest = hdr ++ (payload ++ rest) ∧
      hdr.headD 0 = (if last then 1 else 0) ∧
      (hdr.drop 1).take 4 = bigEndian 4 payload.length ∧
      hdr.drop 5 = if mode ≠ .off then checker.compute payload else [] := by
  have size := length_bigEndian 4 payload.length
  refine ⟨((if last then 1 else 0) :: bigEndian 4 payload.length) ++
    if mode ≠ .off then checker.compute payload else [],
    SndMsg.length_header mode checker payload _ _, ?_, rfl, ?_, ?_⟩
  · rw [frame, List.append_assoc]
  · rw [List.cons_append, List.drop_one, List.tail_cons, List.take_left' size]
  · rw [List.drop_left']
    rw [List.length_cons, size]

theorem len_toInt {n : Nat} (small : n ≤ condorIoBufSize) :
    (BitVec.ofNat 32 (ofBigEndian (bigEndian 4 n))).toInt = n := by
  rw [condorIoBufSize] at small
  rw [ofBigEndian_bigEndian, BitVec.toInt_eq_toNat_cond, BitVec.toNat_ofNat]
  split <;> omega

theorem rcvPacket_frame (m : RcvMsg) (last : Bool) {payload : Bytes}
    (nonempty : payload ≠ []) (small : payload.length ≤ condorIoBufSize) (rest : Bytes) :
    m.rcvPacket (frame m.mode m.mdChecker last payload ++ rest) =
      (true, { m with buf := m.buf.put (Buf.fresh payload), ready := m.ready || last },
        rest) := by
  obtain ⟨hdr, size, shape, flag, length, mac⟩ :=
    frame_header m.mode m.mdChecker last payload rest
  have some : 0 < payload.length := List.length_pos_iff.mpr nonempty
  have len := len_toInt small
  have enough : ¬ (hdr ++ (payload ++ rest)).length < SndMsg.headerSize m.mode := by
    rw [List.length_append]
    omega
  have known : ¬ 10 < (if last then 1 else 0 : UInt8).toNat := by cases last <;> decide
  have ended : decide ((if last then 1 else 0 : UInt8).toNat ≠ 0) = last := by
    cases last <;> rfl
  have read : Buf.read (payload.length : Int).toNat (payload ++ rest) =
      Option.some (Buf.fresh payload, rest) := Buf.read_append small rest
  have verified : ¬ (m.mode ≠ .off && !(Buf.fresh payload).verifyMD
      (if m.mode ≠ .off then m.mdChecker.compute payload else []) m.mdChecker) = true := by
    have whole : (Buf.fresh payload).dta = payload := List.take_of_length_le small
    by_cases on : m.mode ≠ .off
    · rw [if_pos on, Buf.verifyMD, whole]
      simp
    · rw [decide_eq_false on]
      exact Bool.false_ne_true
  rw [shape, rcvPacket, if_neg enough, List.take_left' size, List.drop_left' size]
  simp only [flag, length, mac, len]
  rw [if_neg known, if_neg (by omega), if_neg (by omega), read]
  change (if (_ && _) = true then _ else _) = _
  rw [if_neg verified, ended]

theorem rcvPacket_empty (m : RcvMsg) (last : Bool) (rest : Bytes) :
    (m.rcvPacket (frame m.mode m.mdChecker last [] ++ rest)).1 = false := by
  obtain ⟨hdr, size, shape, flag, length, mac⟩ := frame_header m.mode m.mdChecker last [] rest
  have len := len_toInt (Nat.zero_le condorIoBufSize)
  have enough : ¬ (hdr ++ ([] ++ rest)).length < SndMsg.headerSize m.mode := by
    rw [List.length_append]
    omega
  rw [shape, rcvPacket, if_neg enough, List.take_left' size, List.drop_left' size]
  simp only [flag, length, List.length_nil, len]
  split
  · rfl
  · split
    · rfl
    · rfl

end RcvMsg

namespace ReliSock
variable {C : Cipher}

def frames (m : RcvMsg) (payloads : List Bytes) (last : Bytes) : Bytes :=
  payloads.flatMap (frame m.mode m.mdChecker false) ++ frame m.mode m.mdChecker true last

theorem frame_ne_nil (mode : MdMode) (checker : Digest) (last : Bool) (payload : Bytes) :
    frame mode checker last payload ≠ [] := by
  rw [frame, List.append_assoc, List.cons_append]
  exact List.cons_ne_nil _ _

variable {m : RcvMsg}

theorem awaitMessage_of_ready (ready : m.ready = true) (fuel : Nat) (sock : Bytes) :
    awaitMessage fuel m sock = (true, m, sock) := by
  cases fuel with
  | zero => rw [awaitMessage, ready]
  | succ fuel => rw [awaitMessage, if_pos ready]

variable {fuel : Nat} {last : Bytes} {gets : List Nat}

/-- A message is ready when the packet with the end flag has come. -/
theorem awaitMessage_frames {payloads : List Bytes} (waiting : m.ready = false)
    (first : m.buf.before = []) (nonempty : ∀ p ∈ payloads ++ [last], p ≠ [])
    (small : ∀ p ∈ payloads ++ [last], p.length ≤ condorIoBufSize) (enough : payloads.length < fuel)
    (rest : Bytes) :
    awaitMessage fuel m (frames m payloads last ++ rest) =
      (true, { m with
        buf := ⟨[], m.buf.current ++ (payloads ++ [last]).map Buf.fresh⟩
        ready := true }, rest) := by
  induction payloads generalizing fuel m with
  | nil =>
    obtain ⟨fuel, rfl⟩ : ∃ n, fuel = n + 1 := Nat.exists_eq_succ_of_ne_zero (by omega)
    have here : last ∈ [] ++ [last] := List.mem_singleton_self last
    have next := RcvMsg.rcvPacket_frame m true (nonempty last here) (small last here) rest
    rw [ChainBuf.put_of_current _ first, Bool.or_true] at next
    rw [awaitMessage, waiting, frames, List.flatMap_nil, List.nil_append, next]
    exact awaitMessage_of_ready
      (m := { m with buf := ⟨[], m.buf.current ++ [Buf.fresh last]⟩, ready := true })
      rfl fuel rest
  | cons p payloads ih =>
    obtain ⟨fuel, rfl⟩ : ∃ n, fuel = n + 1 := Nat.exists_eq_succ_of_ne_zero (by omega)
    have here : p ∈ p :: payloads ++ [last] := List.mem_cons_self
    have shape : frames m (p :: payloads) last ++ rest =
        frame m.mode m.mdChecker false p ++ (frames m payloads last ++ rest) := by
      rw [frames, frames, List.flatMap_cons]
      simp only [List.append_assoc]
    have next := RcvMsg.rcvPacket_frame m false (nonempty p here) (small p here)
      (frames m payloads last ++ rest)
    rw [ChainBuf.put_of_current _ first, waiting, Bool.or_self] at next
    rw [awaitMessage, waiting, shape, next]
    refine (ih (m := { m with buf := ⟨[], m.buf.current ++ [Buf.fresh p]⟩, ready := false })
      rfl rfl (fun q inside => nonempty q (List.mem_cons_of_mem p inside))
      (fun q inside => small q (List.mem_cons_of_mem p inside)) (by simpa using enough)).trans ?_
    simp only [List.append_assoc, List.cons_append, List.map_cons, List.nil_append]

theorem awaitMessage_empty {payloads : List Bytes} (waiting : m.ready = false)
    (first : m.buf.before = []) (nonempty : ∀ p ∈ payloads, p ≠ [])
    (small : ∀ p ∈ payloads, p.length ≤ condorIoBufSize) (rest : Bytes) :
    (awaitMessage fuel m (frames m payloads [] ++ rest)).1 = false := by
  induction payloads generalizing fuel m with
  | nil =>
    cases fuel with
    | zero => exact waiting
    | succ fuel =>
      have refused := RcvMsg.rcvPacket_empty m true rest
      rw [awaitMessage, waiting, frames, List.flatMap_nil, List.nil_append]
      generalize m.rcvPacket (frame m.mode m.mdChecker true [] ++ rest) = answer at refused
      obtain ⟨ok, m', sock⟩ := answer
      cases refused
      rfl
  | cons p payloads ih =>
    cases fuel with
    | zero => exact waiting
    | succ fuel =>
      have shape : frames m (p :: payloads) [] ++ rest =
          frame m.mode m.mdChecker false p ++ (frames m payloads [] ++ rest) := by
        rw [frames, frames, List.flatMap_cons]
        simp only [List.append_assoc]
      have next := RcvMsg.rcvPacket_frame m false (nonempty p List.mem_cons_self)
        (small p List.mem_cons_self) (frames m payloads [] ++ rest)
      rw [ChainBuf.put_of_current _ first, waiting, Bool.or_self] at next
      rw [awaitMessage, waiting, shape, next]
      exact ih (m := { m with buf := ⟨[], m.buf.current ++ [Buf.fresh p]⟩, ready := false })
        rfl rfl (fun q inside => nonempty q (List.mem_cons_of_mem p inside))
        (fun q inside => small q (List.mem_cons_of_mem p inside))

/-- Reading a message: these bytes are still to be read, and the key is at the first of
them. -/
structure Reading (s : ReliSock C) (data : Bytes) : Prop where
  ready : s.rcvMsg.ready = true
  ordered : s.rcvMsg.buf.Ordered
  unread : s.rcvMsg.buf.unread = (C.wrap s.crypto data).1

variable {s : ReliSock C}
variable {sock data : Bytes} {chunks : List Bytes}

theorem getBytes_of_await (awaited : awaitMessage s.sock.length s.rcvMsg s.sock = (true, m, sock))
    (n : Nat) :
    s.getBytes n =
      ((C.unwrap s.crypto (m.buf.get n).1).1,
        { s with
          ignoreNextDecodeEom := false
          rcvMsg := { m with buf := (m.buf.get n).2 }
          sock := sock
          crypto := (C.unwrap s.crypto (m.buf.get n).1).2 }) := by
  rw [getBytes]
  simp only [awaited]

theorem Reading.getBytes (reading : s.Reading data) {n : Nat} (short : n ≤ data.length) :
    (s.getBytes n).1 = data.take n ∧ (s.getBytes n).2.Reading (data.drop n) ∧
      (s.getBytes n).2.allowEmptyMessageFlag = s.allowEmptyMessageFlag ∧
      (s.getBytes n).2.ignoreNextDecodeEom = false := by
  have whole := C.wrap_append s.crypto (data.take n) (data.drop n)
  rw [List.take_append_drop] at whole
  have size : (C.wrap s.crypto (data.take n)).1.length = n := by
    rw [C.length_wrap, List.length_take]
    omega
  have taken : (s.rcvMsg.buf.get n).1 = (C.wrap s.crypto (data.take n)).1 := by
    rw [ChainBuf.get_data, reading.unread, whole, List.take_left' size]
  rw [getBytes_of_await (awaitMessage_of_ready reading.ready _ _), taken, C.unwrap_wrap]
  refine ⟨rfl, ⟨reading.ready, reading.ordered.get n, ?_⟩, rfl, rfl⟩
  change (s.rcvMsg.buf.get n).2.unread = _
  rw [ChainBuf.unread_get, reading.unread, whole, List.drop_left' size]

theorem Reading.getAll (reading : s.Reading data) (short : gets.sum ≤ data.length)
    (decodes : s.ignoreNextDecodeEom = false) :
    (s.getAll gets).1 = gets.splitLengths data ∧
      (s.getAll gets).2.Reading (data.drop gets.sum) ∧
      (s.getAll gets).2.allowEmptyMessageFlag = s.allowEmptyMessageFlag ∧
      (s.getAll gets).2.ignoreNextDecodeEom = false := by
  induction gets generalizing s data with
  | nil => exact ⟨rfl, reading, rfl, decodes⟩
  | cons n gets ih =>
    rw [List.sum_cons] at short
    obtain ⟨got, next, allows, decodes'⟩ := reading.getBytes (n := n) (by omega)
    have less : gets.sum ≤ (data.drop n).length := by
      rw [List.length_drop]
      omega
    obtain ⟨more, last, allows', done⟩ := ih next less decodes'
    refine ⟨?_, ?_, ?_, ?_⟩
    · change (s.getBytes n).1 :: ((s.getBytes n).2.getAll gets).1 = _
      rw [got, more, List.splitLengths_cons]
    · change ((s.getBytes n).2.getAll gets).2.Reading _
      rw [List.sum_cons, ← List.drop_drop]
      exact last
    · exact allows'.trans allows
    · exact done

/-- The end of a message is recognised when everything has been read. -/
theorem Reading.endOfMessage (reading : s.Reading data) (decodes : s.ignoreNextDecodeEom = false)
    (full : s.allowEmptyMessageFlag = false) :
    s.endOfMessageDecode.1 = true ↔ data = [] := by
  rw [endOfMessageDecode]
  simp only [decodes, full, reading.ready, Bool.false_eq_true, if_false, if_true]
  rw [reading.ordered.consumed_iff, reading.unread, ← List.length_eq_zero_iff, C.length_wrap,
    List.length_eq_zero_iff]

/-! ### From one end to the other -/

def message (tx : ReliSock C) (puts : List Bytes) : Bool × Bytes :=
  let (sent, s) := (({ tx with written := [] } : ReliSock C).putAll puts).endOfMessageEncode
  (sent, s.written)

def readMessage (rx : ReliSock C) (wire : Bytes) (gets : List Nat) : List Bytes × Bool :=
  let (got, s) := ({ rx with sock := wire } : ReliSock C).getAll gets
  (got, s.endOfMessageDecode.1)

/-- The other end can read the message in any pieces, gets the bytes that were put in
their order, and sees the end of the message when it has read all of it. Without a put
there is no message. -/
def Delivers (tx rx : ReliSock C) (puts : List Bytes) : Prop :=
  ((tx.message puts).1 = true ↔ puts ≠ []) ∧
    ∀ (gets : List Nat) (rest : Bytes), (∀ n ∈ gets, 0 < n) → gets.sum ≤ puts.flatten.length →
      (rx.readMessage ((tx.message puts).2 ++ rest) gets).1 = gets.splitLengths puts.flatten ∧
      ((rx.readMessage ((tx.message puts).2 ++ rest) gets).2 = true ↔
        puts ≠ [] ∧ gets.sum = puts.flatten.length)

theorem getBytes_fetched (awaited : awaitMessage s.sock.length s.rcvMsg s.sock = (true, m, sock))
    (ready : m.ready = true) (n : Nat) :
    s.getBytes n = ({ s with rcvMsg := m, sock := sock } : ReliSock C).getBytes n := by
  rw [getBytes_of_await awaited, getBytes_of_await (awaitMessage_of_ready ready _ _)]

theorem getAll_fetched (awaited : awaitMessage s.sock.length s.rcvMsg s.sock = (true, m, sock))
    (ready : m.ready = true) (nonempty : gets ≠ []) :
    s.getAll gets = ({ s with rcvMsg := m, sock := sock } : ReliSock C).getAll gets := by
  cases gets with
  | nil => exact absurd rfl nonempty
  | cons n gets => rw [getAll, getAll, getBytes_fetched awaited ready]

def payloads (mode : MdMode) (chunks : List Bytes) : List Bytes :=
  chunks.map (List.drop (overlap mode))

theorem payload_sizes {mode : MdMode}
    (sizes : ∀ c ∈ chunks, overlap mode < c.length ∧ c.length ≤ capacity mode) :
    ∀ p ∈ payloads mode chunks, p ≠ [] ∧ p.length ≤ condorIoBufSize := by
  intro p inside
  obtain ⟨c, here, rfl⟩ := List.mem_map.mp inside
  have size := sizes c here
  rw [Ne, List.drop_eq_nil_iff, List.length_drop]
  rw [capacity] at size
  omega

theorem filled_sizes {mode : MdMode} (filled : ∀ c ∈ chunks, c.length = capacity mode) :
    ∀ c ∈ chunks, overlap mode < c.length ∧ c.length ≤ capacity mode := by
  intro c inside
  have bounds := reserved_lt mode
  rw [filled c inside, capacity]
  omega

theorem length_payloads (mode : MdMode) (chunks : List Bytes) :
    (payloads mode chunks).flatten.length ≤ chunks.flatten.length := by
  induction chunks with
  | nil => exact Nat.le_refl 0
  | cons c chunks ih =>
    rw [payloads, List.map_cons, List.flatten_cons, List.flatten_cons, List.length_append,
      List.length_append, List.length_drop]
    rw [payloads] at ih
    omega

theorem length_getBytes (awaited : awaitMessage s.sock.length s.rcvMsg s.sock = (true, m, sock))
    (n : Nat) :
    (s.getBytes n).1.length ≤ m.buf.unread.length := by
  rw [getBytes_of_await awaited, C.length_unwrap, ChainBuf.get_data]
  exact List.length_take_le' n _

theorem getBytes_of_refused
    (refused : (awaitMessage s.sock.length s.rcvMsg s.sock).1 = false) (n : Nat) :
    (s.getBytes n).1 = [] := by
  rw [getBytes]
  generalize awaitMessage s.sock.length s.rcvMsg s.sock = answer at refused
  obtain ⟨ok, m, sock⟩ := answer
  cases refused
  rfl

theorem not_ready_endOfMessage (waiting : s.rcvMsg.ready = false)
    (decodes : s.ignoreNextDecodeEom = false) (full : s.allowEmptyMessageFlag = false) :
    s.endOfMessageDecode.1 = false := by
  rw [endOfMessageDecode]
  simp only [decodes, full, waiting, Bool.false_eq_true, if_false]

section Paired
variable {tx rx : ReliSock C} {mode : MdMode} (paired : Paired tx rx mode)
include paired

theorem readMessage_nil (wire : Bytes) : rx.readMessage wire [] = ([], false) :=
  congrArg (Prod.mk []) (not_ready_endOfMessage (s := { rx with sock := wire })
    paired.waiting paired.decodes paired.receives)

theorem nothing_delivered : Delivers tx rx [] := by
  have empty : tx.sndMsg.buf.empty = true := decide_eq_true (by rw [paired.empty]; rfl)
  have unsent : (tx.message []).1 = false := by
    rw [message, putAll, endOfMessageEncode]
    simp only [paired.encodes, paired.sends, empty, Bool.not_true, Bool.false_eq_true, if_false]
  refine ⟨by rw [unsent]; simp, fun gets rest positive short => ?_⟩
  have none : gets = [] := by
    cases gets with
    | nil => rfl
    | cons n gets =>
      have some := positive n List.mem_cons_self
      rw [List.sum_cons, List.flatten_nil, List.length_nil] at short
      omega
  rw [none, readMessage_nil paired]
  exact ⟨rfl, by simp⟩

variable {puts : List Bytes}

theorem message_eq (positive : ∀ p ∈ puts, p ≠ []) (some : puts ≠ []) :
    ∃ chunks last, (C.wrap tx.crypto puts.flatten).1 = chunks.flatten ++ last ∧
      (∀ c ∈ chunks, c.length = capacity mode) ∧ last ≠ [] ∧ last.length ≤ capacity mode ∧
      (last.length < overlap mode → (tx.message puts).1 = false) ∧
      (overlap mode ≤ last.length → (tx.message puts).1 = true ∧
        (tx.message puts).2 =
          frames rx.rcvMsg (payloads mode chunks) (last.drop (overlap mode))) := by
  have nonempty : puts.flatten ≠ [] := by
    obtain ⟨p, more, rfl⟩ := List.exists_cons_of_ne_nil some
    rw [List.flatten_cons]
    intro none
    exact positive p List.mem_cons_self (List.append_eq_nil_iff.mp none).1
  have begun : Sending { tx with written := [] } { tx with written := [] } [] [] [] :=
    sending_start paired.empty
  obtain ⟨chunks, last, sending⟩ :=
    begun.putAll (by exact paired.sock.trans paired.snd.symm) (by exact paired.encodes) positive
  rw [List.nil_append] at sending
  have ended := sending.endOfMessage paired.encodes nonempty
  have pending := sending.pending nonempty
  have filled := sending.filled
  obtain ⟨b, holds, -⟩ := sending.same
  change Holds tx.sndMsg.mode b last at holds
  rw [paired.snd] at holds
  refine ⟨chunks, last, sending.split, ?_, pending, ?_, ?_, ?_⟩
  · rw [← paired.snd]
    exact filled
  · rcases holds with ⟨-, none⟩ | ⟨space, room, holds⟩
    · exact absurd none pending
    · have bound := b.fits
      rw [holds, List.length_append] at bound
      rw [capacity]
      omega
  · intro short
    rw [if_neg (by rw [paired.snd]; omega)] at ended
    exact ended
  · intro long
    rw [if_pos (by rw [paired.snd]; exact long)] at ended
    refine ⟨ended.1, ended.2.trans ?_⟩
    rw [frames, payloads, List.flatMap_map, paired.rcv, paired.checker, paired.snd,
      List.nil_append]
    rfl

theorem awaited (filled : ∀ c ∈ chunks, c.length = capacity mode)
    (room : last.length ≤ capacity mode) (long : overlap mode < last.length) (rest : Bytes) :
    ∃ m, awaitMessage
        (frames rx.rcvMsg (payloads mode chunks) (last.drop (overlap mode)) ++ rest).length
        rx.rcvMsg (frames rx.rcvMsg (payloads mode chunks) (last.drop (overlap mode)) ++ rest) =
          (true, m, rest) ∧
      m.ready = true ∧ m.buf.Ordered ∧
      m.buf.unread = (payloads mode (chunks ++ [last])).flatten := by
  have all : payloads mode chunks ++ [last.drop (overlap mode)] =
      payloads mode (chunks ++ [last]) := by
    rw [payloads, payloads, List.map_append]
    rfl
  have fits : ∀ c ∈ chunks ++ [last], overlap mode < c.length ∧ c.length ≤ capacity mode := by
    intro c inside
    rcases List.mem_append.mp inside with full | ended
    · exact filled_sizes filled c full
    · rw [List.mem_singleton.mp ended]
      exact ⟨long, room⟩
  have sizes := payload_sizes fits
  have enough : (payloads mode chunks).length <
      (frames rx.rcvMsg (payloads mode chunks) (last.drop (overlap mode)) ++ rest).length := by
    have each := length_le_flatMap (frame_ne_nil rx.rcvMsg.mode rx.rcvMsg.mdChecker false)
      (payloads mode chunks)
    have ended := List.length_pos_of_ne_nil
      (frame_ne_nil rx.rcvMsg.mode rx.rcvMsg.mdChecker true (last.drop (overlap mode)))
    rw [frames, List.length_append, List.length_append]
    omega
  have fresh : rx.rcvMsg.buf.current = [] := by rw [paired.chain]; rfl
  have got := awaitMessage_frames paired.waiting (by rw [paired.chain]; rfl)
    (fun p inside => (sizes p (all ▸ inside)).1) (fun p inside => (sizes p (all ▸ inside)).2)
    enough rest
  rw [all, fresh, List.nil_append] at got
  refine ⟨_, got, rfl, ⟨nofun, ?_⟩, ?_⟩
  · intro b inside
    obtain ⟨p, here, rfl⟩ := List.mem_map.mp (List.mem_of_mem_tail inside)
    obtain ⟨some, small⟩ := sizes p here
    rw [← Bool.not_eq_true, Buf.consumed_iff, Buf.untouched_fresh small]
    exact some
  · change (List.map Buf.fresh _).flatMap Buf.untouched = _
    rw [List.flatMap_map, ← List.flatMap_id]
    exact List.flatMap_congr fun p here => Buf.untouched_fresh (sizes p here).2

theorem delivered (positive : ∀ p ∈ puts, p ≠ []) (some : puts ≠ []) (implicit : mode ≠ .explicit) :
    Delivers tx rx puts := by
  obtain ⟨chunks, last, split, filled, pending, room, -, sent⟩ := message_eq paired positive some
  have none : overlap mode = 0 := by
    cases mode with
    | off => rfl
    | alwaysOn => rfl
    | explicit => exact absurd rfl implicit
  have first : 0 < last.length := List.length_pos_iff.mpr pending
  have size : chunks.flatten.length + last.length = puts.flatten.length := by
    rw [← List.length_append, ← split, C.length_wrap]
  obtain ⟨ok, wire⟩ := sent (by omega)
  refine ⟨iff_of_true ok some, fun gets rest each short => ?_⟩
  obtain ⟨m, got, ready, ordered, unread⟩ := awaited paired filled room (by omega) rest
  rw [← wire] at got
  by_cases idle : gets = []
  · rw [idle, readMessage_nil paired]
    refine ⟨rfl, iff_of_false Bool.false_ne_true ?_⟩
    rintro ⟨-, all⟩
    rw [List.sum_nil] at all
    omega
  · have whole : (payloads mode (chunks ++ [last])).flatten =
        (C.wrap rx.crypto puts.flatten).1 := by
      have same : payloads mode (chunks ++ [last]) = chunks ++ [last] := by
        rw [payloads, none]
        exact List.map_id'' (fun _ => rfl) _
      rw [paired.key, split, same, List.flatten_append, List.flatten_singleton]
    have fetched := getAll_fetched (s := { rx with sock := (tx.message puts).2 ++ rest }) got ready
      idle
    have reading : ({ rx with rcvMsg := m, sock := rest } : ReliSock C).Reading puts.flatten :=
      ⟨ready, ordered, unread.trans whole⟩
    obtain ⟨read, left, allows, decodes⟩ := reading.getAll short paired.decodes
    have ended := left.endOfMessage decodes (allows.trans paired.receives)
    rw [readMessage, fetched]
    refine ⟨read, ended.trans ?_⟩
    rw [List.drop_eq_nil_iff]
    constructor
    · exact fun all => ⟨some, Nat.le_antisymm short all⟩
    · exact fun all => Nat.le_of_eq all.2.symm

/-- In explicit mode the header of every packet covers bytes of the payload. -/
theorem not_delivered (positive : ∀ p ∈ puts, p ≠ []) (some : puts ≠ [])
    (explicit : mode = .explicit) : ¬ Delivers tx rx puts := by
  rintro ⟨sent, delivers⟩
  obtain ⟨chunks, last, split, filled, pending, room, short, long⟩ :=
    message_eq paired positive some
  have covered : overlap mode = 16 := by rw [explicit]; rfl
  have first : 0 < last.length := List.length_pos_iff.mpr pending
  have size : chunks.flatten.length + last.length = puts.flatten.length := by
    rw [← List.length_append, ← split, C.length_wrap]
  by_cases ok : overlap mode ≤ last.length
  · obtain ⟨-, wire⟩ := long ok
    have every : ∀ n ∈ [puts.flatten.length], 0 < n := by
      intro n inside
      rw [List.mem_singleton.mp inside]
      omega
    have read := (delivers [puts.flatten.length] [] every (by simp)).1
    have single : (({ rx with sock := (tx.message puts).2 ++ [] } : ReliSock C).getBytes
        puts.flatten.length).1 = puts.flatten := by
      rw [List.splitLengths_cons, List.take_length] at read
      exact (List.cons.inj read).1
    rcases Nat.lt_or_eq_of_le ok with more | exactly
    · obtain ⟨m, got, -, -, unread⟩ := awaited paired filled room more []
      rw [← wire] at got
      have less := length_getBytes (s := { rx with sock := (tx.message puts).2 ++ [] }) got
        puts.flatten.length
      have lost := length_payloads mode chunks
      rw [single, unread, payloads, List.map_append, List.flatten_append, List.length_append,
        List.map_singleton, List.flatten_singleton, List.length_drop] at less
      rw [payloads] at lost
      omega
    · have empty : last.drop (overlap mode) = [] := List.drop_eq_nil_of_le (by omega)
      have sizes := payload_sizes (filled_sizes filled)
      have stuck : (awaitMessage ((tx.message puts).2 ++ []).length rx.rcvMsg
          ((tx.message puts).2 ++ [])).1 = false := by
        rw [wire, empty]
        exact awaitMessage_empty paired.waiting (by rw [paired.chain]; rfl)
          (fun p inside => (sizes p inside).1) (fun p inside => (sizes p inside).2) []
      have refused := getBytes_of_refused (s := { rx with sock := (tx.message puts).2 ++ [] }) stuck
        puts.flatten.length
      rw [single] at refused
      rw [refused, List.length_nil] at size
      omega
  · rw [short (by omega)] at sent
    exact absurd (sent.mpr some) Bool.false_ne_true

end Paired

/-- A message that was put arrives as a byte stream, except in explicit mode. -/
theorem message_delivered_iff (tx rx : ReliSock C) (mode : MdMode) (paired : Paired tx rx mode)
    (puts : List Bytes) (positive : ∀ p ∈ puts, p ≠ []) :
    Delivers tx rx puts ↔ (mode = .explicit → puts = []) := by
  by_cases none : puts = []
  · subst none
    exact iff_of_true (nothing_delivered paired) fun _ => rfl
  · by_cases explicit : mode = .explicit
    · refine iff_of_false (not_delivered paired positive none explicit) ?_
      exact fun all => none (all explicit)
    · exact iff_of_true (delivered paired positive none explicit) fun wrong =>
        absurd wrong explicit

theorem paired_connected (mode : MdMode) (checker : Digest) (key : Option C.State) :
    Paired (connected mode checker key) (connected mode checker key) mode :=
  ⟨rfl, rfl, rfl, rfl, rfl, rfl, rfl, rfl, rfl, rfl, rfl, rfl⟩

def blindDigest : Digest := ⟨fun _ => List.replicate 16 0, fun _ => rfl⟩

theorem message_delivered_two_puts :
    Delivers (connected .alwaysOn blindDigest none : ReliSock noCipher)
      (connected .alwaysOn blindDigest none) [[1, 2], [3]] :=
  (message_delivered_iff _ _ .alwaysOn (paired_connected .alwaysOn blindDigest none)
    [[1, 2], [3]] (by decide)).mpr nofun

/-- In explicit mode the first 16 of 20 bytes are lost, and the end of the message is
seen after the last four. -/
theorem explicit_mode_loses_bytes :
    let s : ReliSock noCipher := connected .explicit blindDigest none
    let sent := s.message [(List.range 20).map UInt8.ofNat]
    sent.1 = true ∧ s.readMessage sent.2 [4] = ([[16, 17, 18, 19]], true) := by
  decide +kernel

end ReliSock
end Condor.Cedar
