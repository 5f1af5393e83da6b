import Mathlib
import Condor.Cedar.Fragments
import Condor.Cedar.PacketHeader

/-! The receiver tells a fragment from a whole message, and a security header from payload, by marks
where the content starts. Content that starts with a mark, or breaks off inside one, does not arrive
as it was sent. -/
namespace Condor.Cedar
open Condor.Utils Condor.Lib

def Packet.parsed (p : Packet) (d : Bytes) : Taken := (p.receive d).2.taken (p.receive d).1

def headers (msgID : MsgId) (k : Nat) : List (Option Fragment) :=
  if k = 1 then [none] else (List.range k).map fun i => some ⟨i + 1 = k, i, msgID.received⟩

structure Arrived (msgID : MsgId) (content : Bytes) (read : List Taken) : Prop where
  order : read.map Taken.fragment = headers msgID read.length
  payloads : (read.map Taken.payload).flatten = content
  noKeys : ∀ t ∈ read, t.md5KeyId = none ∧ t.md = none ∧ t.encKeyId = none

/-- The datagrams of a message that was put together without keys, read into buffers
with any old content. -/
def Transparent (msgID : MsgId) (puts : List Bytes) : Prop :=
  ∀ buffers : Nat → Packet,
    Arrived msgID puts.flatten
      (((OutMsg.init.putAll puts).sendMsg msgID none).mapIdx fun i d => (buffers i).parsed d)

/-- No packet starts with a mark or breaks off inside one, and the sequence numbers fit. -/
def Unmistakable (content : Bytes) : Prop :=
  if content.length ≤ usablePacketSize then
    Memory.Apart safeMsgMagic content ∧ Memory.Apart cryptoTag content
  else
    content.length ≤ usablePacketSize * 65536
      ∧ ∀ i, usablePacketSize * i < content.length →
        Memory.Apart cryptoTag (content.drop (usablePacketSize * i))

/-! ## Payloads -/

variable (p : Packet)

theorem fragment_taken (fragment : Option Fragment) :
    (p.taken fragment).fragment = fragment := rfl

theorem payload_taken (fragment : Option Fragment) :
    (p.taken fragment).payload = p.payload := rfl

theorem length_payload : p.payload.length = p.length.toNat := by
  rw [Packet.payload, Packet.bytes, Memory.length_slice]

variable {d : Bytes}
variable {off : Nat} {msgID : MsgId} {piece : Bytes}
variable {len : Nat}

theorem payload_checkHeader_of_untagged {p : Packet}
    (untagged : (p.opened d off len).bytes 4 ≠ cryptoTag) (inside : off + len ≤ d.length)
    (fragment : Option Fragment) :
    (p.opened d off len).checkHeader.taken fragment
      = ⟨fragment, (d.drop off).take len, none, none, none⟩ := by
  rw [Packet.checkHeader_of_untagged untagged]
  have payload : (p.opened d off len).payload = (d.drop off).take len :=
    Memory.slice_overlay p.dataGram inside
  rw [Packet.taken, payload]
  rfl

theorem length_payload_of_tagged {p : Packet} (some' : 0 < len)
    (tagged : (p.opened d off len).bytes 4 = cryptoTag) :
    (p.opened d off len).checkHeader.payload.length < len := by
  have shorter := Packet.length_checkHeader_of_tagged tagged
  have crypto : safeMsgCryptoHeaderSize = 10 := rfl
  rw [Packet.length_opened] at shorter
  rw [length_payload]
  omega

theorem length_payload_le (d : Bytes) (off len : Nat) :
    (p.opened d off len).checkHeader.payload.length ≤ len := by
  have shorter := (p.opened d off len).length_checkHeader_le
  rw [Packet.length_opened] at shorter
  rw [length_payload]
  omega

theorem exists_tagged (len : Int) (inside : off ≤ d.length)
    (meet : ¬ Memory.Apart cryptoTag (d.drop off)) :
    ∃ p : Packet, (p.opened d off len).bytes 4 = cryptoTag := by
  obtain ⟨old, tagged⟩ := Memory.exists_mark (fun _ => 0) inside meet
  exact ⟨{ Packet.init with dataGram := old }, tagged⟩

theorem untagged_of_apart (len : Int) (inside : off ≤ d.length)
    (apart : Memory.Apart cryptoTag (d.drop off)) :
    (p.opened d off len).bytes 4 ≠ cryptoTag :=
  fun tagged => apart.1 ((Memory.slice_eq_mark_iff p.dataGram off inside apart.settled).mp tagged)

/-! ## One short datagram -/

theorem parsed_short (magic : Memory.Apart safeMsgMagic d)
    (tag : Memory.Apart cryptoTag d) (p : Packet) :
    p.parsed d = ⟨none, d, none, none, none⟩ := by
  have unmarked : (Memory.overlay d p.dataGram).slice 0 8 ≠ safeMsgMagic := fun marked =>
    magic.1 ((Memory.slice_eq_mark_iff p.dataGram 0 (Nat.zero_le _) magic.settled).mp marked)
  have whole : 0 + d.length ≤ d.length := by omega
  rw [Packet.parsed, Packet.receive_short unmarked,
    payload_checkHeader_of_untagged (untagged_of_apart p _ (Nat.zero_le _) tag) whole,
    List.drop_zero, List.take_length]

/-- A short message that is always read as it was meant has neither mark. -/
theorem apart_of_short (some' : d ≠ []) (arrived : ∀ p : Packet, Arrived msgID d [p.parsed d]) :
    Memory.Apart safeMsgMagic d ∧ Memory.Apart cryptoTag d := by
  have fragments : ∀ p : Packet, (p.receive d).1 = none := by
    intro p
    have order := (arrived p).order
    exact List.singleton_inj.mp order
  have unmarked : ∀ p : Packet, (Memory.overlay d p.dataGram).slice 0 8 ≠ safeMsgMagic := by
    intro p marked
    have whole := fragments p
    rw [Packet.receive_fragment marked] at whole
    cases whole
  constructor
  · by_contra meet
    obtain ⟨old, marked⟩ := Memory.exists_mark (fun _ => 0) (Nat.zero_le _)
      (show ¬ Memory.Apart safeMsgMagic (d.drop 0) from meet)
    exact unmarked { Packet.init with dataGram := old } marked
  · by_contra meet
    obtain ⟨p, tagged⟩ := exists_tagged d.length (Nat.zero_le _)
      (show ¬ Memory.Apart cryptoTag (d.drop 0) from meet)
    have payload := (arrived p).payloads
    rw [List.map_singleton, List.flatten_singleton, Packet.parsed,
      Packet.receive_short (unmarked p)] at payload
    have shorter := length_payload_of_tagged (List.length_pos_iff.mpr some') tagged
    exact absurd (congrArg List.length payload) shorter.ne

/-! ## Fragments -/

variable (n : Nat)

theorem field_fragment (v : Nat) (m : Memory UInt8) (written : (d.drop off).take n = bigEndian n v)
    (inside : off + n ≤ d.length) :
    field (Memory.overlay d m) off n = v % 256 ^ n := by
  rw [field, Memory.slice_overlay m inside, written, ofBigEndian_bigEndian]

theorem truncated_mod (v : Int) : truncated n v % 256 ^ n = truncated n v := by
  apply Nat.mod_eq_of_lt
  have positive : (0 : Int) < 256 ^ n := by positivity
  have bound := Int.emod_lt_of_pos v positive
  rw [truncated]
  zify
  rw [Int.toNat_of_nonneg (Int.emod_nonneg v positive.ne')]
  exact bound

theorem length_makeHeader (p : OutPacket) (last : Bool) (seqNo : Nat) (msgID : MsgId) :
    (p.makeHeader last seqNo msgID).length = safeMsgHeaderSize := by
  simp only [OutPacket.makeHeader, List.length_append, length_bigEndian, List.length_singleton]
  rfl

theorem length_fragment (msgID : MsgId) (last : Bool) (seqNo : Nat) (piece : Bytes) :
    (OutMsg.fragment msgID last seqNo piece).length = safeMsgHeaderSize + piece.length := by
  rw [OutMsg.fragment, List.length_append, length_makeHeader]

theorem drop_fragment (msgID : MsgId) (last : Bool) (seqNo : Nat) (piece : Bytes) :
    (OutMsg.fragment msgID last seqNo piece).drop safeMsgHeaderSize = piece :=
  List.drop_left' (length_makeHeader _ _ _ _)

/-- The header that the receiver reads is the one that was sent, up to the size of the
sequence number. -/
theorem read_fragment (msgID : MsgId) (last : Bool) (seqNo : Nat) (piece : Bytes)
    (m : Memory UInt8) :
    Fragment.read (Memory.overlay (OutMsg.fragment msgID last seqNo piece) m)
      = ⟨last, seqNo % 65536, msgID.received⟩ := by
  have size := length_fragment msgID last seqNo piece
  have header : safeMsgHeaderSize = 25 := rfl
  set d := OutMsg.fragment msgID last seqNo piece
  have flag : (Memory.overlay d m 8 ≠ 0) = (last = true) := by
    have written : Memory.overlay d m 8 = if last then 1 else 0 := rfl
    rw [written]
    cases last <;> decide
  have seq : field (Memory.overlay d m) 9 2 = seqNo % 65536 :=
    field_fragment 2 seqNo m rfl (by omega)
  have ipAddr := field_fragment (d := d) 4 (truncated 4 msgID.ipAddr) m
    (show (d.drop 13).take 4 = _ from rfl) (by omega)
  have pid := field_fragment (d := d) 2 (truncated 2 msgID.pid) m
    (show (d.drop 17).take 2 = _ from rfl) (by omega)
  have time := field_fragment (d := d) 4 (truncated 4 msgID.time) m
    (show (d.drop 19).take 4 = _ from rfl) (by omega)
  have msgNo := field_fragment (d := d) 2 (truncated 2 msgID.msgNo) m
    (show (d.drop 23).take 2 = _ from rfl) (by omega)
  simp only [Fragment.read, flag, seq, ipAddr, pid, time, msgNo, truncated_mod, MsgId.received,
    Bool.decide_eq_true]

theorem receive_sent (msgID : MsgId) (last : Bool) (seqNo : Nat)
    (fits : piece.length ≤ usablePacketSize) (p : Packet) :
    p.receive (OutMsg.fragment msgID last seqNo piece)
      = (some ⟨last, seqNo % 65536, msgID.received⟩,
          (p.opened (OutMsg.fragment msgID last seqNo piece) safeMsgHeaderSize
            piece.length).checkHeader) := by
  have size := length_fragment msgID last seqNo piece
  have header : safeMsgHeaderSize = 25 := rfl
  have small : usablePacketSize = 975 := rfl
  have magic : safeMsgMagic <+: OutMsg.fragment msgID last seqNo piece := by
    rw [OutMsg.fragment, OutPacket.makeHeader]
    simp only [List.append_assoc]
    exact List.prefix_append _ _
  have length := field_fragment (d := OutMsg.fragment msgID last seqNo piece) 2
    (OutPacket.plain piece).curIndex p.dataGram
    (show (List.drop 11 _).take 2 = _ from rfl) (by omega)
  rw [OutPacket.curIndex_plain, Nat.mod_eq_of_lt (by omega)] at length
  have marked : (Memory.overlay (OutMsg.fragment msgID last seqNo piece) p.dataGram).slice 0 8
      = safeMsgMagic := Memory.slice_eq_mark p.dataGram 0 magic
  rw [Packet.receive_fragment marked, read_fragment, length]

theorem parsed_fragment (msgID : MsgId) (last : Bool) (seqNo : Nat)
    (fits : piece.length ≤ usablePacketSize) (tag : Memory.Apart cryptoTag piece) (p : Packet) :
    p.parsed (OutMsg.fragment msgID last seqNo piece)
      = ⟨some ⟨last, seqNo % 65536, msgID.received⟩, piece, none, none, none⟩ := by
  have size := length_fragment msgID last seqNo piece
  have body := drop_fragment msgID last seqNo piece
  have untagged := untagged_of_apart p piece.length (by omega) (body.symm ▸ tag)
  rw [Packet.parsed, receive_sent msgID last seqNo fits,
    payload_checkHeader_of_untagged untagged (by omega), body, List.take_length]

theorem fragment_parsed (msgID : MsgId) (last : Bool) (seqNo : Nat)
    (fits : piece.length ≤ usablePacketSize) (p : Packet) :
    (p.parsed (OutMsg.fragment msgID last seqNo piece)).fragment
      = some ⟨last, seqNo % 65536, msgID.received⟩ := by
  rw [Packet.parsed, receive_sent msgID last seqNo fits, fragment_taken]

theorem payload_parsed_le (msgID : MsgId) (last : Bool) (seqNo : Nat)
    (fits : piece.length ≤ usablePacketSize) (p : Packet) :
    (p.parsed (OutMsg.fragment msgID last seqNo piece)).payload.length ≤ piece.length := by
  have received := receive_sent msgID last seqNo fits p
  generalize OutMsg.fragment msgID last seqNo piece = d at received
  rw [Packet.parsed, received, payload_taken]
  exact length_payload_le p d safeMsgHeaderSize piece.length

theorem payload_parsed_lt (msgID : MsgId) (last : Bool) (seqNo : Nat)
    (fits : piece.length ≤ usablePacketSize) (some' : piece ≠ [])
    (meet : ¬ Memory.Apart cryptoTag piece) :
    ∃ p : Packet,
      (p.parsed (OutMsg.fragment msgID last seqNo piece)).payload.length < piece.length := by
  have size := length_fragment msgID last seqNo piece
  have body := drop_fragment msgID last seqNo piece
  have received := receive_sent msgID last seqNo fits
  generalize OutMsg.fragment msgID last seqNo piece = d at size body received
  have meet' : ¬ Memory.Apart cryptoTag (d.drop safeMsgHeaderSize) := by
    rw [body]
    exact meet
  obtain ⟨p, tagged⟩ := exists_tagged piece.length (by omega) meet'
  refine ⟨p, ?_⟩
  rw [Packet.parsed, received, payload_taken]
  exact length_payload_of_tagged (List.length_pos_iff.mpr some') tagged

/-! ## All fragments of a message -/

section Pieces

variable {filled : List Bytes} {last : Bytes}

def allPieces (filled : List Bytes) (last : Bytes) : List Bytes := filled ++ [last]

theorem sendMsg_fragments (msgID : MsgId) (pieces : OutMsg.Pieces filled last)
    (more : filled ≠ []) :
    (OutMsg.ofPieces filled last).sendMsg msgID none
      = (allPieces filled last).mapIdx fun i piece =>
          OutMsg.fragment msgID (i + 1 = (allPieces filled last).length) i piece := by
  have count : (allPieces filled last).length = filled.length + 1 := by
    rw [allPieces, List.length_append, List.length_singleton]
  rw [OutMsg.sendMsg_long msgID pieces more, count, allPieces, List.mapIdx_append]
  congr 1
  · apply List.ext_getElem
    · rw [List.length_mapIdx, List.length_mapIdx]
    · intro i before _
      rw [List.length_mapIdx] at before
      rw [List.getElem_mapIdx, List.getElem_mapIdx]
      have notLast : ¬ i + 1 = filled.length + 1 := by omega
      rw [decide_eq_false notLast]
  · simp only [List.mapIdx_cons, List.mapIdx_nil, Nat.zero_add, decide_true]

theorem piece_fits (pieces : OutMsg.Pieces filled last) (member : piece ∈ allPieces filled last) :
    piece.length ≤ usablePacketSize := by
  rcases List.mem_append.mp member with full | final
  · exact (pieces.full piece full).le
  · rw [List.mem_singleton.mp final]
    exact pieces.fits

theorem piece_nonempty (pieces : OutMsg.Pieces filled last) (more : filled ≠ [])
    (member : piece ∈ allPieces filled last) : piece ≠ [] := by
  rcases List.mem_append.mp member with full | final
  · intro nothing
    have size := pieces.full piece full
    rw [nothing] at size
    cases size
  · rw [List.mem_singleton.mp final]
    exact pieces.started more

def readPieces (msgID : MsgId) (all : List Bytes) (buffers : Nat → Packet) : List Taken :=
  all.mapIdx fun i piece =>
    (buffers i).parsed (OutMsg.fragment msgID (i + 1 = all.length) i piece)

@[simp] theorem length_readPieces (msgID : MsgId) (all : List Bytes) (buffers : Nat → Packet) :
    (readPieces msgID all buffers).length = all.length := List.length_mapIdx

variable {all : List Bytes} {i : Nat}

theorem arrived_of_apart (several : all.length ≠ 1)
    (fits : ∀ piece ∈ all, piece.length ≤ usablePacketSize) (count : all.length ≤ 65536)
    (apart : ∀ piece ∈ all, Memory.Apart cryptoTag piece) (buffers : Nat → Packet) :
    Arrived msgID all.flatten (readPieces msgID all buffers) := by
  have each : readPieces msgID all buffers = all.mapIdx fun i piece =>
      ⟨some ⟨i + 1 = all.length, i, msgID.received⟩, piece, none, none, none⟩ := by
    apply List.ext_getElem
    · rw [length_readPieces, List.length_mapIdx]
    · intro i before _
      rw [length_readPieces] at before
      have member := List.getElem_mem before
      simp only [readPieces, List.getElem_mapIdx]
      rw [parsed_fragment msgID _ i (fits _ member) (apart _ member),
        Nat.mod_eq_of_lt (by omega)]
  refine ⟨?_, ?_, ?_⟩
  · rw [length_readPieces, headers, if_neg several, each]
    apply List.ext_getElem
    · simp only [List.length_map, List.length_mapIdx, List.length_range]
    · intro i _ _
      simp only [List.getElem_map, List.getElem_mapIdx, List.getElem_range]
  · rw [each]
    congr 1
    apply List.ext_getElem
    · simp only [List.length_map, List.length_mapIdx]
    · intro i _ _
      simp only [List.getElem_map, List.getElem_mapIdx]
  · rw [each]
    intro t member
    obtain ⟨i, _, same⟩ := List.mem_mapIdx.mp member
    rw [← same]
    exact ⟨rfl, rfl, rfl⟩

theorem count_of_order (several : 1 < all.length)
    (fits : ∀ piece ∈ all, piece.length ≤ usablePacketSize) (buffers : Nat → Packet)
    (order : (readPieces msgID all buffers).map Taken.fragment = headers msgID all.length) :
    all.length ≤ 65536 := by
  have before : all.length - 1 < all.length := by omega
  have final := congrArg (fun l => l[all.length - 1]?) order
  simp only [readPieces, headers, if_neg several.ne', List.getElem?_map, List.getElem?_mapIdx,
    List.getElem?_eq_getElem before, List.getElem?_range before, Option.map_some,
    fragment_parsed msgID _ _ (fits _ (List.getElem_mem before)), Option.some_inj,
    Fragment.mk.injEq] at final
  have wrapped := final.2.1
  omega

theorem sum_mapIdx_lt {l : List Bytes} {f : Nat → Bytes → Taken} {size : Taken → Nat}
    (le : ∀ i, ∀ x ∈ l, size (f i x) ≤ x.length) (before : i < l.length)
    (lt : size (f i l[i]) < l[i].length) :
    ((l.mapIdx f).map size).sum < (l.map List.length).sum := by
  have indexed : l.map List.length = l.zipIdx.map fun x => x.1.length := by
    conv_lhs => rw [← List.zipIdx_map_fst 0 l, List.map_map]
    rfl
  rw [List.mapIdx_eq_zipIdx_map, List.map_map, indexed]
  refine List.sum_lt_sum _ _ ?_ ⟨(l[i], i), ?_, lt⟩
  · intro x inside
    exact le x.2 x.1 (List.fst_mem_of_mem_zipIdx inside)
  · exact List.mk_mem_zipIdx_iff_getElem?.mpr (List.getElem?_eq_getElem before)

theorem apart_of_payloads (fits : ∀ piece ∈ all, piece.length ≤ usablePacketSize)
    (nonempty : ∀ piece ∈ all, piece ≠ [])
    (payloads : ∀ buffers, ((readPieces msgID all buffers).map Taken.payload).flatten = all.flatten)
    (before : i < all.length) : Memory.Apart cryptoTag all[i] := by
  by_contra meet
  have member := List.getElem_mem before
  obtain ⟨p, shorter⟩ := payload_parsed_lt msgID (i + 1 = all.length) i (fits _ member)
    (nonempty _ member) meet
  set buffers : Nat → Packet := Function.update (fun _ => Packet.init) i p with changed
  have lengths := congrArg List.length (payloads buffers)
  rw [List.length_flatten, List.length_flatten, List.map_map, readPieces] at lengths
  refine absurd lengths (sum_mapIdx_lt ?_ before ?_).ne
  · intro j piece inside
    rw [Function.comp_apply]
    exact payload_parsed_le msgID (j + 1 = all.length) j (fits piece inside) (buffers j)
  · rw [Function.comp_apply, changed, Function.update_self]
    exact shorter

/-! ## Where the pieces are in the content -/

theorem drop_content (i : Nat) {filled : List Bytes} (last : Bytes)
    (full : ∀ piece ∈ filled, piece.length = n) (inside : i ≤ filled.length) :
    (filled.flatten ++ last).drop (n * i) = (filled.drop i).flatten ++ last := by
  induction i generalizing filled with
  | zero => rw [Nat.mul_zero, List.drop_zero, List.drop_zero]
  | succ i ih =>
    obtain ⟨piece, rest, shape⟩ :=
        List.exists_cons_of_length_pos (show 0 < filled.length by omega)
    subst shape
    have size := full piece List.mem_cons_self
    have later := ih (fun other member => full other (List.mem_cons_of_mem _ member))
      (Nat.le_of_succ_le_succ inside)
    rw [List.flatten_cons, List.append_assoc, List.drop_succ_cons, Nat.mul_succ, Nat.add_comm,
      ← List.drop_drop, List.drop_left' size, later]

theorem apart_drop_iff (pieces : OutMsg.Pieces filled last)
    (before : i < (allPieces filled last).length) :
    Memory.Apart cryptoTag ((OutMsg.content filled last).drop (usablePacketSize * i))
      ↔ Memory.Apart cryptoTag (allPieces filled last)[i] := by
  have count : i ≤ filled.length := by
    rw [allPieces, List.length_append, List.length_singleton] at before
    omega
  rw [OutMsg.content, drop_content usablePacketSize i last pieces.full count]
  rcases Nat.lt_or_eq_of_le count with inner | final
  · have size := pieces.full _ (List.getElem_mem inner)
    simp only [allPieces, List.getElem_append_left inner]
    rw [List.drop_eq_getElem_cons inner, List.flatten_cons, List.append_assoc]
    apply Memory.apart_append_iff
    rw [size]
    decide
  · subst final
    simp only [allPieces, List.drop_length, List.flatten_nil, List.nil_append,
      List.getElem_concat_length]

theorem length_content (pieces : OutMsg.Pieces filled last) :
    (OutMsg.content filled last).length = usablePacketSize * filled.length + last.length := by
  have sizes : (filled.map List.length) = List.replicate filled.length usablePacketSize := by
    rw [List.eq_replicate_iff]
    refine ⟨List.length_map _, ?_⟩
    intro size member
    obtain ⟨piece, inside, same⟩ := List.mem_map.mp member
    rw [← same, pieces.full piece inside]
  rw [OutMsg.content, List.length_append, List.length_flatten, sizes, List.sum_replicate,
    smul_eq_mul, Nat.mul_comm]

end Pieces

/-- A message comes through with any old content of the buffers exactly when none of its
packets can be mistaken for one with a header. -/
theorem transparent_iff (msgID : MsgId) (puts : List Bytes) (nonempty : puts.flatten ≠ []) :
    Transparent msgID puts ↔ Unmistakable puts.flatten := by
  obtain ⟨filled, last, pieces, content, message⟩ := OutMsg.putAll_pieces puts
  have total := length_content pieces
  rw [content] at total
  have size : usablePacketSize = 975 := rfl
  have fits := pieces.fits
  rw [Transparent, Unmistakable, message]
  by_cases short : filled = []
  · -- One packet, sent without the fragment header.
    have whole : puts.flatten = last := by
      rw [← content, OutMsg.content, short, List.flatten_nil, List.nil_append]
    rw [whole] at nonempty ⊢
    rw [short, if_pos fits, OutMsg.sendMsg_short msgID nonempty]
    constructor
    · intro arrived
      exact apart_of_short nonempty fun p => arrived fun _ => p
    · rintro ⟨magic, tag⟩ buffers
      simp only [List.mapIdx_cons, List.mapIdx_nil, parsed_short magic tag]
      refine ⟨rfl, List.append_nil _, ?_⟩
      intro t member
      rw [List.mem_singleton.mp member]
      exact ⟨rfl, rfl, rfl⟩
  · have more : 0 < filled.length := List.length_pos_iff.mpr short
    have started : 0 < last.length := List.length_pos_iff.mpr (pieces.started short)
    have long : ¬ puts.flatten.length ≤ usablePacketSize := by
      rw [total, size]
      omega
    have flat : puts.flatten = (allPieces filled last).flatten := by
      rw [← content, OutMsg.content, allPieces, List.flatten_append, List.flatten_singleton]
    have count : (allPieces filled last).length = filled.length + 1 := by
      rw [allPieces, List.length_append, List.length_singleton]
    have readings : ∀ buffers : Nat → Packet,
        (((OutMsg.ofPieces filled last).sendMsg msgID none).mapIdx fun i d => (buffers i).parsed d)
          = readPieces msgID (allPieces filled last) buffers := by
      intro buffers
      simp only [sendMsg_fragments msgID pieces short, List.mapIdx_mapIdx, readPieces,
        Function.comp_def]
    have sizes : ∀ piece ∈ allPieces filled last, piece.length ≤ usablePacketSize :=
      fun piece member => piece_fits pieces member
    simp only [readings, if_neg long]
    constructor
    · intro arrived
      have numbered := count_of_order (by omega) sizes (fun _ => Packet.init)
        ((length_readPieces msgID _ _) ▸ (arrived fun _ => Packet.init).order)
      refine ⟨by rw [total, size]; omega, ?_⟩
      intro i before
      have inside : i < (allPieces filled last).length := by
        rw [total, size] at before
        omega
      rw [← content]
      apply (apart_drop_iff pieces inside).mpr
      exact apart_of_payloads sizes (fun piece member => piece_nonempty pieces short member)
        (fun buffers => (arrived buffers).payloads.trans flat) inside
    · rintro ⟨numbered, apart⟩ buffers
      rw [flat]
      refine arrived_of_apart (by omega) sizes (by rw [total, size] at numbered; omega) ?_ buffers
      intro piece member
      obtain ⟨i, inside, same⟩ := List.getElem_of_mem member
      rw [← same]
      apply (apart_drop_iff pieces inside).mp
      rw [content]
      apply apart
      rw [total, size]
      omega

/-- A greeting put in two parts. -/
theorem transparent_hello : Transparent ⟨1, 2, 3, 4⟩ [ascii "hel", ascii "lo"] := by
  apply (transparent_iff ⟨1, 2, 3, 4⟩ [ascii "hel", ascii "lo"] (by decide)).mpr
  rw [Unmistakable, if_pos (by decide)]
  decide

/-- A text that starts with the mark of a security header loses ten bytes. -/
theorem tagged_text_cut :
    (OutMsg.init.putAll [ascii "CRAP: data lost"]).sendMsg ⟨0, 0, 0, 0⟩ none
        = [ascii "CRAP: data lost"]
      ∧ (Packet.init.parsed (ascii "CRAP: data lost")).payload = ascii " lost" := by
  constructor <;> decide +kernel

end Condor.Cedar
